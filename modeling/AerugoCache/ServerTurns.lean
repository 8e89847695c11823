import AerugoCache.Linearizable
import AerugoCache.StoreLocks

/-!
# All tasks, all locks

A server runs a task for each connection and the one of `spawn_expiration_cleanup`.  What
they share is under three locks: the entries and the counters of the store, and the log.
A command takes the lock of the entries once, adds what it has counted under that of the
counters, and a command that asks for `stats` takes that once more to read them; then its
record is appended and its reply sent.  Between these turns any other task takes its own.
-/

namespace AerugoCache.Commands

open AerugoCache.Protocol AerugoCache.Storage

/-- What `execute` makes of the result of its operation. -/
def Command.respond (command : Command) : StoreResult → Except CommandError Frame
  | .written result => reply (fun _ => .simple "OK") result
  | .value result => reply bulkOrNull result
  | .count count => .ok (.integer (Int64.ofNat count))
  | .length result => reply (fun len => .integer (Int64.ofNat len)) result
  | .done done => .ok (flag done)
  | .ttl remaining => .ok (.integer remaining.asRedisInteger)
  | .values result => reply (fun values => .array (values.map Frame.bulk)) result
  | .stats stats =>
      match command with
      | .dbSize => .ok (.integer (Int64.ofNat stats.totalKeys))
      | _ => .ok (.bulk (formatStats stats))
  | .rows keys => .ok (.array (keys.map inspectionToFrame))

/-- A command calls its operation and makes a reply of the result. -/
theorem execute_respond {command : Command} {op : StoreOp} (h : command.storeOp = some op)
    (env : Env) (store : MemoryStore) :
    command.execute env store =
      (command.respond (op.run env.opEnv store).1, (op.run env.opEnv store).2) := by
  cases command with
  | ping value => cases h
  | echo value => cases h
  | _ =>
    cases h
    rfl

/-- The other commands have no use for the store. -/
theorem execute_no_op {command : Command} (h : command.storeOp = none) (env : Env)
    (store store' : MemoryStore) :
    command.execute env store = ((command.execute env store').1, store) := by
  cases command with
  | ping value => cases value <;> rfl
  | echo value => rfl
  | _ => cases h

end AerugoCache.Commands

namespace AerugoCache.Concurrent

open AerugoCache.Protocol AerugoCache.Storage AerugoCache.Commands AerugoCache.Persistence
  AerugoCache.Server AerugoCache.StepSystem

/-! ### The turns of a request -/

/-- A command that has released the entries, with what its operation returned. -/
structure Pending where
  command : Command
  result : StoreResult
  aofFrame : Option Frame
  outcome : AppendOutcome

/-- What a connection does next: read a request, add the counts of its command, read the
    counters for its report, append its record, or send its reply. -/
inductive Phase where
  | reading
  | recording (counts : StoreCounters) (pending : Pending)
  | reporting (pending : Pending)
  | executed (response : Frame) (aofFrame : Option Frame) (outcome : AppendOutcome)
  | replying (response : Frame)

instance (phase : Phase) : Decidable (phase = .reading) :=
  match phase with
  | .reading => isTrue rfl
  | .recording _ _ | .reporting _ | .executed _ _ _ | .replying _ => isFalse nofun

/-- The phase once `execute` has returned: a request that failed has nothing to append. -/
def Phase.after (aofFrame : Option Frame) (outcome : AppendOutcome) :
    Except CommandError Frame → Phase
  | .ok response => .executed response aofFrame outcome
  | .error error => .replying (Command.errorFrame error)

/-- `execute` returns; a report gives the counters that were read. -/
def Pending.finish (pending : Pending) (counters : StoreCounters) : Phase :=
  .after pending.aofFrame pending.outcome
    (pending.command.respond (pending.result.withCounters counters))

/-- Only `stats` takes the counters again, to read them. -/
def Pending.recorded (pending : Pending) : Phase :=
  match pending.result with
  | .stats _ => .reporting pending
  | _ => pending.finish 0

/-- The turn of a request under the lock of the entries. -/
def enterFrame (frame : Frame) (env : Env) (outcome : AppendOutcome) (store : MemoryStore) :
    Phase × MemoryStore :=
  match Command.fromFrame frame with
  | .error error => (.replying (Command.errorFrame error), store)
  | .ok command =>
      let aofFrame := command.toAofFrame env.clock
      match command.storeOp with
      | none => (.after aofFrame outcome (command.execute env store).1, store)
      | some op =>
          let (result, entries, counts) := op.locked env.opEnv store.config store.entries
          let pending := { command, result, aofFrame, outcome }
          -- `record_expired` and `record_evicted` take no lock for a count of zero
          (if counts = 0 then pending.recorded else .recording counts pending,
            { store with entries })

/-- The turns that come after it. -/
inductive LockTurn where
  | record
  | report
  | append
deriving DecidableEq, Repr

def Phase.turn (turn : LockTurn) (phase : Phase) (server : ServerState) :
    Option (Phase × ServerState) :=
  match turn, phase with
  | .record, .recording counts pending =>
      some (pending.recorded,
        { server with store := server.store.withCounters (server.store.counters + counts) })
  | .report, .reporting pending => some (pending.finish server.store.counters, server)
  | .append, .executed response aofFrame outcome =>
      let (appended, aof) := appendCommand server.aof aofFrame outcome
      some (.replying (if appended then response else PERSIST_FAILURE), { server with aof })
  | _, _ => none

/-- The counts that a connection has not added yet. -/
def Phase.unrecorded : Phase → StoreCounters
  | .recording counts _ => counts
  | .reading | .reporting _ | .executed _ _ _ | .replying _ => 0

/-! ### A server -/

/-- How a connection takes its steps, and the request whose first turn a step is. -/
structure Rules (Action Conn : Type) where
  step : Action → Conn → ServerState → Option (Conn × ServerState)
  executes : Action → Conn → Option Request

/-- A server, what `cleanup_expired` has yet to add to the counters, and the connections. -/
structure Host (Id Conn : Type) where
  server : ServerState
  cleaner : StoreCounters
  connections : Id → Conn

/-- A step of a connection, or one of the two turns of `cleanup_expired`. -/
inductive HostEvent (Id Action : Type) where
  | client (id : Id) (action : Action)
  | cleanup (now : SystemTime)
  | record

/-- What takes the lock of the entries: a request, or the task that cleans up. -/
inductive Deed (Id : Type) where
  | request (id : Id) (request : Request)
  | cleanup (now : SystemTime)

section

variable {Id Action Conn : Type} [DecidableEq Id]

def Host.step (rules : Id → Rules Action Conn) :
    StepFunction (Host Id Conn) (HostEvent Id Action)
  | host, .client id action =>
      ((rules id).step action (host.connections id) host.server).map fun (connection, server) =>
        { host with server, connections := Function.update host.connections id connection }
  | host, .cleanup now =>
      let store := host.server.store
      let (_, entries, counts) :=
        StoreOp.cleanupExpired.locked (.at now) store.config store.entries
      if host.cleaner = 0 then
        some { host with server.store := { store with entries }, cleaner := counts }
      else none
  | host, .record =>
      let store := host.server.store
      if host.cleaner = 0 then none
      else
        some { host with
          server.store := store.withCounters (store.counters + host.cleaner), cleaner := 0 }

omit [DecidableEq Id] in
/-- The deed of an event, if it has one. -/
def Host.deed (rules : Id → Rules Action Conn) (host : Host Id Conn) :
    HostEvent Id Action → Option (Deed Id)
  | .client id action =>
      ((rules id).executes action (host.connections id)).map (Deed.request id)
  | .cleanup now => some (.cleanup now)
  | .record => none

/-- The deeds of a run, in the order in which they take the lock of the entries. -/
def Host.history (rules : Id → Rules Action Conn) :
    List (HostEvent Id Action) → Host Id Conn → List (Deed Id)
  | [], _ => []
  | event :: events, host =>
      match Host.step rules host event with
      | some next => (host.deed rules event).toList ++ Host.history rules events next
      | none => []

/-- What is done first comes first. -/
theorem Host.history_begins (rules : Id → Rules Action Conn)
    (before after : List (HostEvent Id Action)) (host : Host Id Conn) :
    Host.history rules before host <+: Host.history rules (before ++ after) host := by
  induction before generalizing host with
  | nil => exact List.nil_prefix
  | cons event before ih =>
    rw [List.cons_append, Host.history, Host.history]
    split
    · exact (List.prefix_append_right_inj _).mpr (ih _)
    · exact List.prefix_rfl

/-- The ways a server takes a step. -/
inductive Host.Takes (rules : Id → Rules Action Conn) (host : Host Id Conn) :
    HostEvent Id Action → Host Id Conn → Prop where
  | client {id : Id} {action : Action} {connection : Conn} {server : ServerState}
      (hstep : (rules id).step action (host.connections id) host.server =
        some (connection, server)) :
      Takes rules host (.client id action)
        { host with server, connections := Function.update host.connections id connection }
  | cleanup {now : SystemTime} (hidle : host.cleaner = 0) :
      Takes rules host (.cleanup now)
        { host with
          server.store.entries :=
            (StoreOp.cleanupExpired.locked (.at now) host.server.store.config
              host.server.store.entries).2.1
          cleaner :=
            (StoreOp.cleanupExpired.locked (.at now) host.server.store.config
              host.server.store.entries).2.2 }
  | record (hcounts : host.cleaner ≠ 0) :
      Takes rules host .record
        { host with
          server.store := host.server.store.withCounters
            (host.server.store.counters + host.cleaner)
          cleaner := 0 }

theorem Host.step_takes {rules : Id → Rules Action Conn} {host next : Host Id Conn}
    {event : HostEvent Id Action} (h : Host.step rules host event = some next) :
    host.Takes rules event next := by
  cases event with
  | client id action =>
    obtain ⟨⟨connection, server⟩, hstep, rfl⟩ := Option.map_eq_some_iff.mp h
    exact .client hstep
  | cleanup now =>
    simp only [Host.step] at h
    split at h
    · cases h
      exact .cleanup ‹_›
    · cases h
  | record =>
    simp only [Host.step] at h
    split at h
    · cases h
    · rename_i hcounts
      cases h
      exact .record hcounts

end

/-! ### Connections that are handed whole requests -/

/-- The requests that a connection has not read yet, and the replies it has sent. -/
structure ClientTask where
  requests : List Request
  phase : Phase
  replies : List Frame

inductive ClientAction where
  | execute
  | turn (turn : LockTurn)
  | reply
deriving DecidableEq, Repr

def ClientTask.step (action : ClientAction) (task : ClientTask) (server : ServerState) :
    Option (ClientTask × ServerState) :=
  match action, task.phase, task.requests with
  | .execute, .reading, request :: requests =>
      let (phase, store) := enterFrame request.frame request.env request.outcome server.store
      some ({ task with requests, phase }, { server with store })
  | .turn turn, phase, _ =>
      (phase.turn turn server).map fun (phase, server) => ({ task with phase }, server)
  | .reply, .replying response, _ =>
      some ({ task with phase := .reading, replies := task.replies ++ [response] }, server)
  | _, _, _ => none

def ClientTask.executes (action : ClientAction) (task : ClientTask) : Option Request :=
  match action, task.phase, task.requests with
  | .execute, .reading, request :: _ => some request
  | _, _, _ => none

def clientRules : Rules ClientAction ClientTask := ⟨ClientTask.step, ClientTask.executes⟩

theorem ClientTask.step_execute {task : ClientTask} {server : ServerState} {request : Request}
    {requests : List Request} (hphase : task.phase = .reading)
    (hrequests : task.requests = request :: requests) :
    task.step .execute server =
      some ({ task with
          requests
          phase := (enterFrame request.frame request.env request.outcome server.store).1 },
        { server with
          store := (enterFrame request.frame request.env request.outcome server.store).2 }) := by
  simp only [ClientTask.step, hphase, hrequests]

theorem ClientTask.step_turn {task : ClientTask} {server server' : ServerState} {turn : LockTurn}
    {phase : Phase} (hturn : task.phase.turn turn server = some (phase, server')) :
    task.step (.turn turn) server = some ({ task with phase }, server') := by
  simp only [ClientTask.step, hturn, Option.map_some]

theorem ClientTask.step_reply {task : ClientTask} {server : ServerState} {response : Frame}
    (hphase : task.phase = .replying response) :
    task.step .reply server =
      some ({ task with phase := .reading, replies := task.replies ++ [response] }, server) := by
  simp only [ClientTask.step, hphase]

/-- Connections that have read nothing yet. -/
def Host.fresh {Id : Type} (server : ServerState) (requests : Id → List Request) :
    Host Id ClientTask where
  server := server
  cleaner := 0
  connections id := { requests := requests id, phase := .reading, replies := [] }

/-- The counts that the tasks have not added yet. -/
def Host.unrecorded {Id : Type} [Fintype Id] (host : Host Id ClientTask) : StoreCounters :=
  host.cleaner + ∑ id, (host.connections id).phase.unrecorded

/-- The ways a connection that is handed whole requests takes a step. -/
inductive ClientTask.Takes (task : ClientTask) (server : ServerState) :
    ClientAction → ClientTask → ServerState → Prop where
  | execute {request : Request} {requests : List Request} (hphase : task.phase = .reading)
      (hrequests : task.requests = request :: requests) :
      Takes task server .execute
        { task with
          requests
          phase := (enterFrame request.frame request.env request.outcome server.store).1 }
        { server with
          store := (enterFrame request.frame request.env request.outcome server.store).2 }
  | turn {turn : LockTurn} {phase : Phase} {server' : ServerState}
      (hturn : task.phase.turn turn server = some (phase, server')) :
      Takes task server (.turn turn) { task with phase } server'
  | reply {response : Frame} (hphase : task.phase = .replying response) :
      Takes task server .reply
        { task with phase := .reading, replies := task.replies ++ [response] } server

theorem ClientTask.step_takes {action : ClientAction} {task next : ClientTask}
    {server server' : ServerState} (h : task.step action server = some (next, server')) :
    task.Takes server action next server' := by
  unfold ClientTask.step at h
  split at h
  · cases h
    exact .execute ‹_› ‹_›
  · obtain ⟨⟨phase, server⟩, hturn, hnext⟩ := Option.map_eq_some_iff.mp h
    cases hnext
    exact .turn hturn
  · cases h
    exact .reply ‹_›
  · cases h

/-- The ways a request that has released the entries goes on. -/
inductive Phase.Takes (server : ServerState) : LockTurn → Phase → Phase → ServerState → Prop where
  | record (counts : StoreCounters) (pending : Pending) :
      Takes server .record (.recording counts pending) pending.recorded
        { server with store := server.store.withCounters (server.store.counters + counts) }
  | report (pending : Pending) :
      Takes server .report (.reporting pending) (pending.finish server.store.counters) server
  | append (response : Frame) (aofFrame : Option Frame) (outcome : AppendOutcome) :
      Takes server .append (.executed response aofFrame outcome)
        (.replying (if (appendCommand server.aof aofFrame outcome).1 then response
          else PERSIST_FAILURE))
        { server with aof := (appendCommand server.aof aofFrame outcome).2 }

theorem Phase.turn_takes {turn : LockTurn} {phase next : Phase} {server server' : ServerState}
    (h : phase.turn turn server = some (next, server')) :
    Phase.Takes server turn phase next server' := by
  unfold Phase.turn at h
  split at h
  · cases h
    exact .record _ _
  · cases h
    exact .report _
  · cases h
    exact .append _ _ _
  · cases h

end AerugoCache.Concurrent
