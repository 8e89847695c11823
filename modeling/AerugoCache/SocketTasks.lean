import AerugoCache.NetworkRuns
import AerugoCache.ServerHistory

/-!
# The server and the bytes of its clients

The server with all its tasks and locks, as it meets its clients: bytes arrive a few at a
time, `read_frame` waits for those it needs, and the replies are written as bytes.  However
the bytes are cut and the turns are taken, it does what it does for clients that hand it
whole requests, in the same order.
-/

namespace AerugoCache.Protocol

instance (heap : Allocator) (frame : Frame) : Decidable (frame.Held heap) :=
  match frame with
  | .bulk value =>
      inferInstanceAs (Decidable (value.length < 2 ^ 63 ∧ heap.bytes (value.length + 2) = true))
  | .array items =>
      inferInstanceAs (Decidable (items.length < 2 ^ 64 ∧ heap.frames items.length = true))
  | .simple _ | .error _ | .integer _ | .null => isTrue trivial

instance (heap : Allocator) (frame : Frame) : Decidable (frame.Fits heap) :=
  inferInstanceAs (Decidable (∀ sub ∈ frame.subframes, sub.Held heap))

end AerugoCache.Protocol

namespace AerugoCache.Concurrent

open AerugoCache.ByteText AerugoCache.Protocol AerugoCache.Storage AerugoCache.Commands
  AerugoCache.Persistence AerugoCache.Server AerugoCache.StepSystem

/-- The task of a connection: in its loop, or returned. -/
inductive SocketPhase where
  | running (phase : Phase)
  | ended (ending : ConnectionEnd)

/-- A connection, as a `Socket` with the turns of all locks. -/
structure SocketTask where
  incoming : Bytes
  buffer : Bytes
  closed : Bool
  round : Nat
  task : SocketPhase
  written : Bytes

/-- A write that fails has written `cut` bytes at most. -/
inductive SocketAction where
  | arrive (count : Nat)
  | hangUp
  | read
  | turn (turn : LockTurn)
  | reply (cut : Nat)
deriving DecidableEq, Repr

def SocketTask.step (heap : Allocator) (rounds : Nat → Round) (action : SocketAction)
    (socket : SocketTask) (server : ServerState) : Option (SocketTask × ServerState) :=
  match action, socket.task with
  | .arrive count, _ =>
      if count = 0 ∨ socket.incoming.isEmpty then none
      else
        some ({ socket with
          incoming := socket.incoming.drop count
          buffer := socket.buffer ++ socket.incoming.take count }, server)
  | .hangUp, _ =>
      if socket.closed ∨ ¬ socket.incoming.isEmpty then none
      else some ({ socket with closed := true }, server)
  | .read, .running .reading =>
      match pollFrame heap socket.closed socket.buffer with
      | none => none
      | some (.error error) => some ({ socket with task := .ended (.readFailed error) }, server)
      | some (.ok (none, _)) => some ({ socket with task := .ended .closed }, server)
      | some (.ok (some frame, rest)) =>
          let (phase, store) := enterFrame frame (rounds socket.round).env
            (rounds socket.round).outcome server.store
          some ({ socket with buffer := rest, task := .running phase }, { server with store })
  | .turn turn, .running phase =>
      (phase.turn turn server).map fun (phase, server) =>
        ({ socket with task := .running phase }, server)
  | .reply cut, .running (.replying response) =>
      if (rounds socket.round).sent then
        some ({ socket with
          round := socket.round + 1
          task := .running .reading
          written := socket.written ++ writeFrame response }, server)
      else
        some ({ socket with
          task := .ended .writeFailed
          written := socket.written ++ (writeFrame response).take cut }, server)
  | _, _ => none

/-- The request that a read begins; every frame that was read is one a machine can hold. -/
def SocketTask.executes (heap : Allocator) (rounds : Nat → Round) (action : SocketAction)
    (socket : SocketTask) : Option Request :=
  match action, socket.task with
  | .read, .running .reading =>
      match pollFrame heap socket.closed socket.buffer with
      | some (.ok (some frame, _)) =>
          if held : frame.Fits .unlimited then
            some ⟨frame, (rounds socket.round).env, (rounds socket.round).outcome, held⟩
          else none
      | _ => none
  | _, _ => none

def socketRules (heap : Allocator) (rounds : Nat → Round) : Rules SocketAction SocketTask :=
  ⟨SocketTask.step heap rounds, SocketTask.executes heap rounds⟩

/-- Connections that were just accepted, each with the bytes that its client sends. -/
def Host.accepted {Id : Type} (server : ServerState) (streams : Id → Bytes) :
    Host Id SocketTask where
  server := server
  cleaner := 0
  connections id :=
    { incoming := streams id, buffer := [], closed := false, round := 0,
      task := .running .reading, written := [] }

/-- The ways a connection takes a step. -/
inductive SocketTask.Takes (heap : Allocator) (rounds : Nat → Round) (socket : SocketTask)
    (server : ServerState) : SocketAction → SocketTask → ServerState → Prop where
  | arrive {count : Nat} (hincoming : socket.incoming ≠ []) :
      Takes heap rounds socket server (.arrive count)
        { socket with
          incoming := socket.incoming.drop count
          buffer := socket.buffer ++ socket.incoming.take count } server
  | hangUp (hincoming : socket.incoming = []) :
      Takes heap rounds socket server .hangUp { socket with closed := true } server
  | fail {error : ReadError} (htask : socket.task = .running .reading)
      (hpoll : pollFrame heap socket.closed socket.buffer = some (.error error)) :
      Takes heap rounds socket server .read
        { socket with task := .ended (.readFailed error) } server
  | close {rest : Bytes} (htask : socket.task = .running .reading)
      (hpoll : pollFrame heap socket.closed socket.buffer = some (.ok (none, rest))) :
      Takes heap rounds socket server .read { socket with task := .ended .closed } server
  | enter {frame : Frame} {rest : Bytes} (htask : socket.task = .running .reading)
      (hpoll : pollFrame heap socket.closed socket.buffer = some (.ok (some frame, rest))) :
      Takes heap rounds socket server .read
        { socket with
          buffer := rest
          task := .running (enterFrame frame (rounds socket.round).env
            (rounds socket.round).outcome server.store).1 }
        { server with
          store := (enterFrame frame (rounds socket.round).env (rounds socket.round).outcome
            server.store).2 }
  | turn {turn : LockTurn} {phase next : Phase} {server' : ServerState}
      (htask : socket.task = .running phase)
      (hturn : phase.turn turn server = some (next, server')) :
      Takes heap rounds socket server (.turn turn) { socket with task := .running next } server'
  | reply {response : Frame} {cut : Nat} (htask : socket.task = .running (.replying response))
      (hsent : (rounds socket.round).sent = true) :
      Takes heap rounds socket server (.reply cut)
        { socket with
          round := socket.round + 1
          task := .running .reading
          written := socket.written ++ writeFrame response } server
  | breakOff {response : Frame} {cut : Nat} (htask : socket.task = .running (.replying response))
      (hsent : (rounds socket.round).sent = false) :
      Takes heap rounds socket server (.reply cut)
        { socket with
          task := .ended .writeFailed
          written := socket.written ++ (writeFrame response).take cut } server

theorem SocketTask.step_takes {heap : Allocator} {rounds : Nat → Round} {action : SocketAction}
    {socket next : SocketTask} {server server' : ServerState}
    (h : socket.step heap rounds action server = some (next, server')) :
    socket.Takes heap rounds server action next server' := by
  unfold SocketTask.step at h
  split at h
  · split at h
    · cases h
    · rename_i hready
      rw [not_or] at hready
      cases h
      exact .arrive (by simpa using hready.2)
  · split at h
    · cases h
    · rename_i hready
      rw [not_or] at hready
      cases h
      exact .hangUp (by simpa using hready.2)
  · rename_i htask
    split at h
    · cases h
    · rename_i hpoll
      cases h
      exact .fail htask hpoll
    · rename_i hpoll
      cases h
      exact .close htask hpoll
    · rename_i hpoll
      cases h
      exact .enter htask hpoll
  · rename_i htask
    obtain ⟨⟨phase, server⟩, hturn, hnext⟩ := Option.map_eq_some_iff.mp h
    cases hnext
    exact .turn htask hturn
  · rename_i htask
    split at h
    · cases h
      exact .reply htask ‹_›
    · rename_i hsent
      cases h
      exact .breakOff htask (Bool.eq_false_of_not_eq_true hsent)
  · cases h

/-! ### A connection and what it stands for -/

/-- The requests that a connection in this phase has still to read. -/
def SocketTask.Awaits (heap : Allocator) (rounds : Nat → Round) (socket : SocketTask)
    (requests : List Request) (ending : ConnectionEnd) (phase : Phase) : Prop :=
  if phase = .reading then
    Reads heap rounds socket.round (socket.buffer ++ socket.incoming) requests ending
  else if (rounds socket.round).sent then
    Reads heap rounds (socket.round + 1) (socket.buffer ++ socket.incoming) requests ending
  else requests = [] ∧ ending = .writeFailed

/-- The task is where the client's is, with the same requests still to come, and has written
    the bytes of its replies. -/
def SocketTask.Serves (heap : Allocator) (rounds : Nat → Round) (ending : ConnectionEnd)
    (socket : SocketTask) (client : ClientTask) : Prop :=
  match socket.task with
  | .running phase =>
      client.phase = phase ∧ socket.written = client.replies.flatMap writeFrame ∧
        socket.Awaits heap rounds client.requests ending phase
  | .ended .writeFailed =>
      ending = .writeFailed ∧ client.requests = [] ∧
        ∃ response cut, client.phase = .replying response ∧
          socket.written = client.replies.flatMap writeFrame ++ (writeFrame response).take cut
  | .ended other =>
      ending = other ∧ client.requests = [] ∧ client.phase = .reading ∧
        socket.written = client.replies.flatMap writeFrame

/-- `client` is what the socket stands for. -/
structure SocketTask.Follows (heap : Allocator) (rounds : Nat → Round) (ending : ConnectionEnd)
    (socket : SocketTask) (client : ClientTask) : Prop where
  closed : socket.closed = true → socket.incoming = []
  round : socket.round = client.replies.length
  serves : socket.Serves heap rounds ending client

section

variable {heap : Allocator} {rounds : Nat → Round} {ending : ConnectionEnd}
  {socket next : SocketTask} {client : ClientTask}

theorem SocketTask.serves_running {phase : Phase} (htask : socket.task = .running phase) :
    socket.Serves heap rounds ending client ↔
      client.phase = phase ∧ socket.written = client.replies.flatMap writeFrame ∧
        socket.Awaits heap rounds client.requests ending phase := by
  rw [Serves, htask]

/-- Bytes that arrive change nothing of what the socket stands for. -/
theorem SocketTask.Serves.moved (h : socket.Serves heap rounds ending client)
    {incoming buffer : Bytes} {closed : Bool}
    (hbytes : buffer ++ incoming = socket.buffer ++ socket.incoming) :
    { socket with incoming, buffer, closed }.Serves heap rounds ending client := by
  unfold Serves at h ⊢
  simp only
  split at h
  · rename_i phase htask
    rw [htask]
    refine ⟨h.1, h.2.1, ?_⟩
    rw [Awaits, hbytes]
    exact h.2.2
  · exact h
  · exact h

/-- Past its reading phase, a connection awaits what follows the request it is busy with. -/
theorem SocketTask.awaits_busy {requests : List Request} {phase phase' : Phase}
    (hbusy : phase ≠ .reading) (hbusy' : phase' ≠ .reading) :
    socket.Awaits heap rounds requests ending phase ↔
      socket.Awaits heap rounds requests ending phase' := by
  rw [Awaits, Awaits, if_neg hbusy, if_neg hbusy']

theorem Phase.after_ne_reading (aofFrame : Option Frame) (outcome : AppendOutcome)
    (result : Except CommandError Frame) : Phase.after aofFrame outcome result ≠ .reading := by
  rcases result with error | response <;> exact Phase.noConfusion

theorem Pending.recorded_ne_reading (pending : Pending) : pending.recorded ≠ .reading := by
  unfold Pending.recorded
  split
  · exact Phase.noConfusion
  · exact Phase.after_ne_reading _ _ _

theorem enterFrame_ne_reading (frame : Frame) (env : Env) (outcome : AppendOutcome)
    (store : MemoryStore) : (enterFrame frame env outcome store).1 ≠ .reading := by
  rcases hcommand : Command.fromFrame frame with error | command
  · simp only [enterFrame, hcommand]
    exact Phase.noConfusion
  · simp only [enterFrame, hcommand]
    cases command.storeOp with
    | none => exact Phase.after_ne_reading _ _ _
    | some op =>
      simp only
      split
      · exact Pending.recorded_ne_reading _
      · exact Phase.noConfusion

/-- The turns of a request begin and end within it. -/
theorem Phase.Takes.busy {turn : LockTurn} {phase next : Phase} {server server' : ServerState}
    (h : Phase.Takes server turn phase next server') : phase ≠ .reading ∧ next ≠ .reading := by
  cases h with
  | record counts pending => exact ⟨Phase.noConfusion, pending.recorded_ne_reading⟩
  | report pending => exact ⟨Phase.noConfusion, Phase.after_ne_reading _ _ _⟩
  | append response aofFrame outcome => exact ⟨Phase.noConfusion, Phase.noConfusion⟩

/-- The client's answer to a step of its socket: a step with the same request, or none. -/
theorem SocketTask.Follows.step {server server' : ServerState} {action : SocketAction}
    (h : socket.Follows heap rounds ending client)
    (hstep : socket.Takes heap rounds server action next server') :
    (next.Follows heap rounds ending client ∧ server' = server ∧
        socket.executes heap rounds action = none) ∨
      ∃ action' client', client.step action' server = some (client', server') ∧
        next.Follows heap rounds ending client' ∧
        client.executes action' = socket.executes heap rounds action := by
  obtain ⟨hclosed, hround, hserves⟩ := h
  cases hstep with
  | arrive hincoming =>
    refine Or.inl ⟨⟨fun hend => absurd (hclosed hend) hincoming, hround, hserves.moved ?_⟩,
      rfl, rfl⟩
    rw [List.append_assoc, List.take_append_drop]
  | hangUp hincoming =>
    exact Or.inl ⟨⟨fun _ => hincoming, hround, hserves.moved rfl⟩, rfl, rfl⟩
  | fail htask hpoll =>
    obtain ⟨hphase, hwritten, hreads⟩ := (SocketTask.serves_running htask).mp hserves
    rw [Awaits, if_pos rfl] at hreads
    obtain ⟨hnone, hend⟩ := hreads.failed (readFrame_of_poll hclosed hpoll)
    refine Or.inl ⟨⟨hclosed, hround, hend, hnone, hphase, hwritten⟩, rfl, ?_⟩
    simp only [SocketTask.executes, htask, hpoll]
  | close htask hpoll =>
    obtain ⟨hphase, hwritten, hreads⟩ := (SocketTask.serves_running htask).mp hserves
    rw [Awaits, if_pos rfl] at hreads
    obtain ⟨hnone, hend⟩ := hreads.closed (readFrame_of_poll hclosed hpoll)
    refine Or.inl ⟨⟨hclosed, hround, hend, hnone, hphase, hwritten⟩, rfl, ?_⟩
    simp only [SocketTask.executes, htask, hpoll]
  | enter htask hpoll =>
    obtain ⟨hphase, hwritten, hreads⟩ := (SocketTask.serves_running htask).mp hserves
    rw [Awaits, if_pos rfl] at hreads
    obtain ⟨request, later, hrequests, rfl, henv, houtcome, hrest⟩ :=
      hreads.first (readFrame_of_poll hclosed hpoll)
    have hheld := request.held
    rw [← henv, ← houtcome]
    refine Or.inr ⟨.execute, _, ClientTask.step_execute hphase hrequests,
      ⟨hclosed, hround, rfl, hwritten, ?_⟩, ?_⟩
    · rw [Awaits, if_neg (enterFrame_ne_reading _ _ _ _)]
      exact hrest
    · simp only [ClientTask.executes, SocketTask.executes, hphase, hrequests, htask, hpoll,
        dif_pos hheld, ← henv, ← houtcome]
  | turn htask hturn =>
    rename_i turn phase after
    obtain ⟨hphase, hwritten, hawaits⟩ := (SocketTask.serves_running htask).mp hserves
    have hbusy := (Phase.turn_takes hturn).busy
    rw [← hphase] at hturn
    refine Or.inr ⟨.turn turn, _, ClientTask.step_turn hturn,
      ⟨hclosed, hround, rfl, hwritten, ?_⟩, rfl⟩
    exact (SocketTask.awaits_busy hbusy.1 hbusy.2).mp hawaits
  | reply htask hsent =>
    rename_i response cut
    obtain ⟨hphase, hwritten, hawaits⟩ := (SocketTask.serves_running htask).mp hserves
    rw [Awaits, if_neg Phase.noConfusion, if_pos hsent] at hawaits
    refine Or.inr ⟨.reply, _, ClientTask.step_reply hphase,
      ⟨hclosed, ?_, rfl, ?_, ?_⟩, rfl⟩
    · simp only [List.length_append, List.length_singleton, hround]
    · simp only [List.flatMap_append, List.flatMap_singleton, hwritten]
    · rw [Awaits, if_pos rfl]
      exact hawaits
  | breakOff htask hsent =>
    rename_i response cut
    obtain ⟨hphase, hwritten, hawaits⟩ := (SocketTask.serves_running htask).mp hserves
    rw [Awaits, if_neg Phase.noConfusion, if_neg (by simp [hsent])] at hawaits
    refine Or.inl ⟨⟨hclosed, hround, ?_⟩, rfl, rfl⟩
    exact ⟨hawaits.2, hawaits.1, response, cut, hphase, by rw [hwritten]⟩

end

/-! ### The server and its clients -/

section

variable {Id : Type} [DecidableEq Id] {heap : Allocator} {rounds : Id → Nat → Round}
  {endings : Id → ConnectionEnd}

/-- The server stands for one whose clients hand it whole requests. -/
structure Host.Follows (heap : Allocator) (rounds : Id → Nat → Round)
    (endings : Id → ConnectionEnd) (host : Host Id SocketTask) (abstract : Host Id ClientTask) :
    Prop where
  server : host.server = abstract.server
  cleaner : host.cleaner = abstract.cleaner
  sockets : ∀ id, (host.connections id).Follows heap (rounds id) (endings id)
    (abstract.connections id)

omit [DecidableEq Id] in
theorem Host.Follows.update [DecidableEq Id] {host : Host Id SocketTask}
    {abstract : Host Id ClientTask} (h : host.Follows heap rounds endings abstract) {id : Id}
    {socket : SocketTask} {client : ClientTask}
    (hfollows : socket.Follows heap (rounds id) (endings id) client) (other : Id) :
    (Function.update host.connections id socket other).Follows heap (rounds other)
      (endings other) (Function.update abstract.connections id client other) := by
  by_cases hother : other = id
  · subst hother
    simpa only [Function.update_self] using hfollows
  · simpa only [Function.update_of_ne hother] using h.sockets other

/-- Every step is answered by one with the same deed, or by none if it has no deed. -/
theorem Host.Follows.step {host next : Host Id SocketTask} {abstract : Host Id ClientTask}
    {event : HostEvent Id SocketAction} (h : host.Follows heap rounds endings abstract)
    (hstep : host.Takes (fun id => socketRules heap (rounds id)) event next) :
    (next.Follows heap rounds endings abstract ∧
        host.deed (fun id => socketRules heap (rounds id)) event = none) ∨
      ∃ event' next', Host.step (fun _ => clientRules) abstract event' = some next' ∧
        next.Follows heap rounds endings next' ∧
        abstract.deed (fun _ => clientRules) event' =
          host.deed (fun id => socketRules heap (rounds id)) event := by
  cases hstep with
  | client hconnection =>
    rename_i id action socket server
    have hanswer := (h.sockets id).step (SocketTask.step_takes hconnection)
    rw [h.server] at hanswer
    rcases hanswer with ⟨hfollows, rfl, hexecutes⟩ | ⟨action', client, hclient, hfollows, hexecutes⟩
    · refine Or.inl ⟨⟨rfl, h.cleaner, fun other => ?_⟩, ?_⟩
      · have hsocket := h.update hfollows other
        rwa [Function.update_eq_self] at hsocket
      · exact congrArg (Option.map _) hexecutes
    · refine Or.inr ⟨.client id action',
        { abstract with server, connections := Function.update abstract.connections id client },
        ?_, ⟨rfl, h.cleaner, h.update hfollows⟩, congrArg (Option.map _) hexecutes⟩
      exact congrArg (Option.map _) hclient
  | cleanup hidle =>
    rename_i now
    rw [h.cleaner] at hidle
    refine Or.inr ⟨.cleanup now,
      { abstract with
        server.store.entries :=
          (StoreOp.cleanupExpired.locked (.at now) abstract.server.store.config
            abstract.server.store.entries).2.1
        cleaner :=
          (StoreOp.cleanupExpired.locked (.at now) abstract.server.store.config
            abstract.server.store.entries).2.2 }, if_pos hidle, ⟨?_, ?_, h.sockets⟩, rfl⟩
    · simp only [h.server]
    · simp only [h.server]
  | record hcounts =>
    rw [h.cleaner] at hcounts
    refine Or.inr ⟨.record,
      { abstract with
        server.store := abstract.server.store.withCounters
          (abstract.server.store.counters + abstract.cleaner)
        cleaner := 0 }, if_neg hcounts, ⟨?_, rfl, h.sockets⟩, rfl⟩
    simp only [h.server, h.cleaner]

/-- A run is followed by one with the same history. -/
theorem Host.Follows.run {host final : Host Id SocketTask} {abstract : Host Id ClientTask}
    {events : List (HostEvent Id SocketAction)} (h : host.Follows heap rounds endings abstract)
    (hrun : run (Host.step fun id => socketRules heap (rounds id)) events host = some final) :
    ∃ events' final', run (Host.step fun _ => clientRules) events' abstract = some final' ∧
      final.Follows heap rounds endings final' ∧
      Host.history (fun _ => clientRules) events' abstract =
        Host.history (fun id => socketRules heap (rounds id)) events host := by
  induction events generalizing host abstract with
  | nil =>
    cases hrun
    exact ⟨[], abstract, rfl, h, rfl⟩
  | cons event events ih =>
    obtain ⟨next, hstep, hrest⟩ := run_cons.mp hrun
    rw [Host.history, hstep]
    rcases h.step (Host.step_takes hstep) with
      ⟨hnext, hdeed⟩ | ⟨event', next', hstep', hnext, hdeed⟩
    · obtain ⟨events', final', hrun', hfinal, hhistory⟩ := ih hnext hrest
      refine ⟨events', final', hrun', hfinal, ?_⟩
      simp only [hdeed, Option.toList_none, List.nil_append, hhistory]
    · obtain ⟨events', final', hrun', hfinal, hhistory⟩ := ih hnext hrest
      refine ⟨event' :: events', final', run_cons.mpr ⟨next', hstep', hrun'⟩, hfinal, ?_⟩
      rw [Host.history, hstep']
      simp only [hdeed, hhistory]

/-- A run on streams that hold these requests is one on the requests. -/
theorem Host.follows_run {server : ServerState} {streams : Id → Bytes}
    {requests : Id → List Request}
    (hreads : ∀ id, Reads heap (rounds id) 0 (streams id) (requests id) (endings id))
    {events : List (HostEvent Id SocketAction)} {host : Host Id SocketTask}
    (hrun : run (Host.step fun id => socketRules heap (rounds id)) events
      (.accepted server streams) = some host) :
    ∃ events' abstract,
      run (Host.step fun _ => clientRules) events' (.fresh server requests) = some abstract ∧
      host.Follows heap rounds endings abstract ∧
      Host.history (fun _ => clientRules) events' (.fresh server requests) =
        Host.history (fun id => socketRules heap (rounds id)) events
          (.accepted server streams) := by
  have hstart : (Host.accepted server streams).Follows heap rounds endings
      (Host.fresh server requests) := by
    refine ⟨rfl, rfl, fun id => ⟨Bool.noConfusion, rfl, rfl, rfl, ?_⟩⟩
    rw [SocketTask.Awaits, if_pos rfl]
    exact hreads id
  exact hstart.run hrun

/-- What a run does is explained by its history. -/
theorem Host.accounted [Fintype Id] {server : ServerState} {streams : Id → Bytes}
    {requests : Id → List Request}
    (hreads : ∀ id, Reads heap (rounds id) 0 (streams id) (requests id) (endings id))
    {events : List (HostEvent Id SocketAction)} {host : Host Id SocketTask}
    (hrun : run (Host.step fun id => socketRules heap (rounds id)) events
      (.accepted server streams) = some host) :
    ∃ abstract, host.Follows heap rounds endings abstract ∧
      Accounts server requests
        (Host.history (fun id => socketRules heap (rounds id)) events
          (.accepted server streams)) abstract := by
  obtain ⟨events', abstract, habstract, hfollows, hhistory⟩ := Host.follows_run hreads hrun
  have haccounts := (accounts_fresh server requests).run habstract
  rw [List.nil_append, hhistory] at haccounts
  exact ⟨abstract, hfollows, haccounts⟩

/-- **The server refines the one that is handed whole requests.**  Whatever bytes the clients
    send, their streams fix the requests; however the bytes arrive, the tasks take turns and
    writes fail, what the server does is what it does for clients that hand it these requests,
    with the same history.  What its tasks share is the same, every connection is in the same
    phase, and the bytes written to a client are those of its replies, with part of one more
    where a write failed. -/
theorem network_refines (heap : Allocator) (rounds : Id → Nat → Round) (server : ServerState)
    (streams : Id → Bytes) (hlength : ∀ id, (streams id).length < 2 ^ 63) :
    (∃ (requests : Id → List Request) (endings : Id → ConnectionEnd), ∀ id,
        Reads heap (rounds id) 0 (streams id) (requests id) (endings id)) ∧
      ∀ (requests : Id → List Request) (endings : Id → ConnectionEnd),
        (∀ id, Reads heap (rounds id) 0 (streams id) (requests id) (endings id)) →
        ∀ events host,
          run (Host.step fun id => socketRules heap (rounds id)) events
            (.accepted server streams) = some host →
          ∃ events' abstract,
            run (Host.step fun _ => clientRules) events' (.fresh server requests) =
                some abstract ∧
              host.Follows heap rounds endings abstract ∧
              Host.history (fun _ => clientRules) events' (.fresh server requests) =
                Host.history (fun id => socketRules heap (rounds id)) events
                  (.accepted server streams) := by
  choose requests endings hreads using fun id => exists_reads heap (rounds id) 0 (hlength id)
  exact ⟨⟨requests, endings, hreads⟩, fun _ _ hreads _ _ hrun => Host.follows_run hreads hrun⟩

end

/-- One client writes a key that expires, the other asks for it later. -/
def lapseStreams : Bool → Bytes
  | true => [commandFrame "SET" [utf8 "k", [1]],
      commandFrame "EXPIREAT" [utf8 "k", utf8 "10"]].flatMap writeFrame
  | false => utf8 "GET k\r\n"

def lapseRounds : Bool → Nat → Round
  | true, _ => ⟨.at 0 0, .written, true⟩
  | false, _ => ⟨.at 20000000000 0, .written, true⟩

def lapseRequests : Bool → List Request
  | true => [clientRequest "SET" [utf8 "k", [1]] (.at 0 0),
      clientRequest "EXPIREAT" [utf8 "k", utf8 "10"] (.at 0 0)]
  | false => [clientRequest "GET" [utf8 "k"] (.at 20000000000 0)]

theorem lapseStreams_length (id : Bool) : (lapseStreams id).length < 2 ^ 63 := by
  revert id
  decide +kernel

theorem lapseRequests_read (id : Bool) :
    Reads .unlimited (lapseRounds id) 0 (lapseStreams id) (lapseRequests id) .closed := by
  cases id with
  | true =>
    refine ⟨rfl, rfl, _, rfl, rfl, rfl, _, rfl, ?_⟩
    exact Or.inl ⟨_, rfl, rfl⟩
  | false =>
    refine ⟨rfl, rfl, _, rfl, ?_⟩
    exact Or.inl ⟨_, rfl, rfl⟩

/-- The request of the second client arrives in two pieces, and the key is swept in between. -/
def lapseEvents : List (HostEvent Bool SocketAction) := [
  .client true (.arrive 100), .client true .read, .client true (.turn .append),
  .client false (.arrive 3), .client true (.reply 0), .client true .read,
  .client true (.turn .append), .cleanup 20000000000, .client true (.reply 0),
  .client false (.arrive 9), .client false .read, .record, .client false (.turn .append),
  .client false (.reply 0)]

/-- What the server has done is one order of all requests, the key is gone, and the client
    that asked for it has been sent as much. -/
theorem network_refines_lapse :
    ∃ host, run (Host.step fun id => socketRules .unlimited (lapseRounds id)) lapseEvents
        (.accepted (.initial .default) lapseStreams) = some host ∧
      (host.connections false).written = writeFrame .null ∧
      ∃ events' abstract, run (Host.step fun _ => clientRules) events'
          (.fresh (.initial .default) lapseRequests) = some abstract ∧
        host.Follows .unlimited lapseRounds (fun _ => .closed) abstract ∧
        Host.history (fun _ => clientRules) events' (.fresh (.initial .default) lapseRequests) =
          Host.history (fun id => socketRules .unlimited (lapseRounds id)) lapseEvents
            (.accepted (.initial .default) lapseStreams) := by
  have hwritten : (run (Host.step fun id => socketRules .unlimited (lapseRounds id)) lapseEvents
      (.accepted (.initial .default) lapseStreams)).map
        (fun host => (host.connections false).written) = some (writeFrame .null) := by
    decide +kernel
  obtain ⟨host, hrun, hnull⟩ := Option.map_eq_some_iff.mp hwritten
  obtain ⟨-, hall⟩ := network_refines .unlimited lapseRounds (.initial .default) lapseStreams
    lapseStreams_length
  exact ⟨host, hrun, hnull, hall lapseRequests _ lapseRequests_read lapseEvents host hrun⟩

end AerugoCache.Concurrent
