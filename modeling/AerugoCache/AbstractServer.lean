import AerugoCache.ClientView
import AerugoCache.VisibleStore

/-!
# What the server is for

A map of live entries that one request at a time reads and changes: that is all the clients
of a server without a memory limit can tell of it.  Connections and their bytes, the locks,
the log and the entries that linger after their deadlines do not show.
-/

namespace AerugoCache.Server

open AerugoCache.ByteText AerugoCache.KeyedMap AerugoCache.Protocol AerugoCache.Storage
  AerugoCache.Commands AerugoCache.Persistence

/-! ### Commands on live entries -/

/-- What a command answers and makes of the live entries. -/
def answerCommand (command : Command) (env : Env) (store : EagerStore) :
    Except CommandError Frame × EagerStore :=
  let now := env.clock.now
  match command with
  | .ping none => (.ok (.simple "PONG"), store)
  | .ping (some value) => (.ok (.bulk value), store)
  | .echo value => (.ok (.bulk value), store)
  | .set key value =>
      (.ok (.simple "OK"), store.put key (some { value := .string value, expiresAt := none }))
  | .get key => (reply bulkOrNull (EagerStore.bytes (store.entries.lookup key)), store)
  | .del keys =>
      (.ok (.integer (Int64.ofNat (keys.toFinset.filter (· ∈ store.entries)).card)),
        { store with entries := keys.foldl (fun entries key => entries.erase key) store.entries })
  | .exists keys => (.ok (.integer (Int64.ofNat (keys.countP (· ∈ store.entries)))), store)
  | .expire key seconds =>
      let (done, store) :=
        store.date now key (MemoryStore.expireDeadline env.clock.expireNow seconds)
      (.ok (flag done), store)
  | .expireAt key unixSeconds =>
      let (done, store) :=
        store.date now key (MemoryStore.unixDeadline env.clock.expireNow unixSeconds)
      (.ok (flag done), store)
  | .ttl key =>
      (.ok (.integer (EagerStore.remaining now (store.entries.lookup key)).asRedisInteger), store)
  | .persist key =>
      let cell := store.entries.lookup key
      (.ok (flag (cell.any fun entry => entry.expiresAt.isSome)),
        store.put key (cell.map fun entry => { entry with expiresAt := none }))
  | .lpush key values =>
      let (result, store) := store.push .left key values
      (reply (fun len => .integer (Int64.ofNat len)) result, store)
  | .rpush key values =>
      let (result, store) := store.push .right key values
      (reply (fun len => .integer (Int64.ofNat len)) result, store)
  | .lpop key =>
      let (result, store) := store.pop .left key
      (reply bulkOrNull result, store)
  | .rpop key =>
      let (result, store) := store.pop .right key
      (reply bulkOrNull result, store)
  | .lrange key start stop =>
      (reply (fun values => .array (values.map Frame.bulk))
        ((EagerStore.items (store.entries.lookup key)).map (EagerStore.slice start stop)), store)
  | .dbSize => (.ok (.integer (Int64.ofNat store.report.totalKeys)), store)
  | .info | .aerugoStats => (.ok (.bulk (formatStats store.report)), store)
  | .aerugoInspect limit =>
      (.ok (.array ((((inspectRows env.order store.entries now).insertionSort
        KeyInspection.Le).take limit).map inspectionToFrame)), store)

/-- The answer of a server whose appends may fail, if it keeps a log. -/
def answerRequest (logging : Bool) (request : Request) (store : EagerStore) :
    Frame × EagerStore :=
  match Command.fromFrame request.frame with
  | .error error => (Command.errorFrame error, store)
  | .ok command =>
      match answerCommand command request.env (store.advance request.env.clock.now) with
      | (.error error, store) => (Command.errorFrame error, store)
      | (.ok response, store) =>
          let lost := logging && (command.toAofFrame request.env.clock).isSome &&
            decide (request.outcome ≠ .written)
          (if lost then PERSIST_FAILURE else response, store)

/-! ### One command, one request -/

/-- Without a limit a command does on the store what it does on the live entries. -/
theorem execute_abstract {command : Command} {env : Env} {store : MemoryStore}
    (hlimit : store.config.maxMemoryBytes = none)
    (hplain : Command.reportsCounters command = false) :
    answerCommand command env (store.eager env.clock.now) =
      ((command.execute env store).1, (command.execute env store).2.eager env.clock.now) := by
  have hrun : ∀ op, command.storeOp = some op →
      EagerStore.run op env.opEnv (store.eager env.clock.now) =
        (observe op (op.run env.opEnv store).1, (op.run env.opEnv store).2.eager env.clock.now) :=
    fun op _ => op.run_eager hlimit env.opEnv
  have hresult := fun op hop => congrArg Prod.fst (hrun op hop)
  have hstore := fun op hop => congrArg Prod.snd (hrun op hop)
  cases command with
  | ping value => cases value <;> rfl
  | echo value => rfl
  | info | aerugoStats => cases hplain
  | dbSize =>
    apply Prod.ext
    · exact congrArg (fun stats => Except.ok (Frame.integer (Int64.ofNat stats.totalKeys)))
        (StoreResult.stats.inj (hresult _ rfl))
    · exact hstore _ rfl
  | set key value =>
    apply Prod.ext
    · exact congrArg (reply fun _ => Frame.simple "OK") (StoreResult.written.inj (hresult _ rfl))
    · exact hstore _ rfl
  | get key | lpop key | rpop key =>
    apply Prod.ext
    · exact congrArg (reply bulkOrNull) (StoreResult.value.inj (hresult _ rfl))
    · exact hstore _ rfl
  | lpush key values | rpush key values =>
    apply Prod.ext
    · exact congrArg (reply fun len => Frame.integer (Int64.ofNat len))
        (StoreResult.length.inj (hresult _ rfl))
    · exact hstore _ rfl
  | lrange key start stop =>
    apply Prod.ext
    · exact congrArg (reply fun values => Frame.array (values.map Frame.bulk))
        (StoreResult.values.inj (hresult _ rfl))
    · exact hstore _ rfl
  | del keys | «exists» keys =>
    apply Prod.ext
    · exact congrArg (fun count => Except.ok (Frame.integer (Int64.ofNat count)))
        (StoreResult.count.inj (hresult _ rfl))
    · exact hstore _ rfl
  | expire key seconds | expireAt key unixSeconds | persist key =>
    apply Prod.ext
    · exact congrArg (fun done => Except.ok (flag done)) (StoreResult.done.inj (hresult _ rfl))
    · exact hstore _ rfl
  | ttl key =>
    apply Prod.ext
    · exact congrArg (fun remaining : Ttl => Except.ok (Frame.integer remaining.asRedisInteger))
        (StoreResult.ttl.inj (hresult _ rfl))
    · exact hstore _ rfl
  | aerugoInspect limit =>
    apply Prod.ext
    · exact congrArg (fun rows => Except.ok (Frame.array (rows.map inspectionToFrame)))
        (StoreResult.rows.inj (hresult _ rfl))
    · exact hstore _ rfl

/-- Whether the record of a request is lost. -/
theorem appendCommand_lost (aof : Option Bytes) (frame : Option Frame) (outcome : AppendOutcome) :
    (appendCommand aof frame outcome).1 =
      !(aof.isSome && frame.isSome && decide (outcome ≠ .written)) := by
  cases aof <;> cases frame <;> cases outcome <;> rfl

/-- From an instant on, the live entries of the store are those of the map. -/
structure Abstracts (start : SystemTime) (state : ServerState) (store : EagerStore) : Prop where
  unlimited : state.store.config.maxMemoryBytes = none
  live : ∀ now, start ≤ now → store.advance now = state.store.eager now

theorem Abstracts.answer {start : SystemTime} {state : ServerState} {store : EagerStore}
    (h : Abstracts start state store) {request : Request} (hplain : Request.Plain request)
    (hlater : start ≤ request.env.clock.now) :
    (handleRequest request state).1 = (answerRequest state.aof.isSome request store).1 ∧
      Abstracts request.env.clock.now (handleRequest request state).2
        (answerRequest state.aof.isSome request store).2 := by
  have hlimit : (handleRequest request state).2.store.config.maxMemoryBytes = none := by
    rw [handleRequest_store, executeRequest_config, h.unlimited]
  have hlive := h.live _ hlater
  unfold answerRequest
  rw [handleRequest_eq] at hlimit ⊢
  unfold handleFrame at hlimit ⊢
  rcases hcommand : Command.fromFrame request.frame with error | command
  · exact ⟨rfl, h.unlimited, fun now hnow => h.live now (hlater.trans hnow)⟩
  · simp only [hcommand, hlive, execute_abstract h.unlimited (hplain command hcommand)] at hlimit ⊢
    generalize command.execute request.env state.store = outcome at hlimit ⊢
    obtain ⟨error | response, after⟩ := outcome
    · exact ⟨rfl, hlimit, fun now hnow => MemoryStore.advance_eager hnow after⟩
    · refine ⟨?_, hlimit, fun now hnow => MemoryStore.advance_eager hnow after⟩
      simp only [appendCommand_lost]
      generalize (state.aof.isSome && (command.toAofFrame request.env.clock).isSome &&
        decide (request.outcome ≠ .written)) = lost
      cases lost <;> rfl

end AerugoCache.Server

namespace AerugoCache.Concurrent

open AerugoCache.ByteText AerugoCache.Protocol AerugoCache.Storage AerugoCache.Commands
  AerugoCache.Persistence AerugoCache.Server AerugoCache.StepSystem

/-! ### Histories -/

section

variable {Id : Type}

/-- The answers to the requests of a history, each with its client.  A sweep finds nothing
    to drop. -/
def answerAll (logging : Bool) : List (Deed Id) → EagerStore → List (Id × Frame) × EagerStore
  | [], store => ([], store)
  | .request id request :: history, store =>
      let (response, store) := answerRequest logging request store
      let (responses, store) := answerAll logging history store
      ((id, response) :: responses, store)
  | .cleanup _ :: history, store => answerAll logging history store

/-- The reading of the clock of a request or a sweep. -/
def Deed.reading : Deed Id → SystemTime
  | .request _ asked => asked.env.clock.now
  | .cleanup now => now

/-- The clock does not go back along a history. -/
def InTurn (history : List (Deed Id)) : Prop := (history.map Deed.reading).Pairwise (· ≤ ·)

/-- A sweep leaves the live entries as they are. -/
theorem abstracts_cleanup {start now : SystemTime} {state : ServerState} {store : EagerStore}
    (h : Abstracts start state store) (hlater : start ≤ now) :
    Abstracts now (cleanupTick now state) store := by
  refine ⟨?_, fun later hnow => ?_⟩
  · exact (congrArg StoreConfig.maxMemoryBytes
      (MemoryStore.recordExpired_config _ _)).trans h.unlimited
  · have hswept : (state.store.cleanupExpired now).2.eager now = state.store.eager now :=
      (congrArg Prod.snd (StoreOp.run_eager h.unlimited .cleanupExpired (.at now))).symm
    change store.advance later = (state.store.cleanupExpired now).2.eager later
    rw [h.live later (hlater.trans hnow), ← MemoryStore.advance_eager hnow,
      ← MemoryStore.advance_eager hnow, hswept]

/-- What the requests of a history are answered, each on the server that it meets. -/
def replies (entries : List (Id × Request × ServerState)) : List (Id × Frame) :=
  entries.map fun entry => (entry.1, (handleRequest entry.2.1 entry.2.2).1)

theorem met_abstract {start : SystemTime} {state : ServerState} {store : EagerStore}
    (h : Abstracts start state store) {history : List (Deed Id)}
    (hplain : ∀ entry ∈ met history state, Request.Plain entry.2.1)
    (htime : (start :: history.map Deed.reading).Pairwise (· ≤ ·)) :
    replies (met history state) = (answerAll state.aof.isSome history store).1 ∧
      ∀ now, start ≤ now → (∀ deed ∈ history, deed.reading ≤ now) →
        (answerAll state.aof.isSome history store).2.advance now =
          (performAll history state).store.eager now := by
  induction history generalizing start state store with
  | nil => exact ⟨rfl, fun now hnow _ => h.live now hnow⟩
  | cons deed history ih =>
    obtain ⟨hstart, htime⟩ := List.pairwise_cons.mp htime
    have hlater := hstart _ List.mem_cons_self
    cases deed with
    | request id request =>
      obtain ⟨hreply, hnext⟩ := h.answer (hplain _ List.mem_cons_self) hlater
      obtain ⟨hreplies, hfinal⟩ :=
        ih hnext (fun entry hmem => hplain entry (List.mem_cons_of_mem _ hmem)) htime
      rw [handleRequest_isSome] at hreplies hfinal
      refine ⟨?_, fun now _ hlast => ?_⟩
      · simp only [met, answerAll, ← hreplies, ← hreply]
        rfl
      · exact hfinal now (hlast _ List.mem_cons_self)
          fun deed hmem => hlast deed (List.mem_cons_of_mem _ hmem)
    | cleanup now =>
      obtain ⟨hreplies, hfinal⟩ := ih (abstracts_cleanup h hlater) hplain htime
      refine ⟨hreplies, fun later _ hlast => ?_⟩
      exact hfinal later (hlast _ List.mem_cons_self)
        fun deed hmem => hlast deed (List.mem_cons_of_mem _ hmem)

variable [Fintype Id] [DecidableEq Id]

omit [Fintype Id] in
theorem own_replies (id : Id) (entries : List (Id × Request × ServerState)) :
    own id (replies entries) =
      (own id entries).map fun entry => (handleRequest entry.1 entry.2).1 := by
  rw [own, own, replies, List.filter_map, List.map_map, List.map_map]
  rfl

/-- **The server is a map.**  Let the clients of a server without a memory limit send any
    bytes, and none of them ask for the counters.  However the bytes arrive, all tasks take
    turns, the one that cleans up included, and appends and writes fail: if the clock does not
    go back from one request or sweep to the next, in the order in which they take the
    entries, then the bytes written to every client are those of the answers that the map of
    live entries gives to its own requests in this order, as many as were sent and perhaps a
    part of one more; and the store shows what is in the map. -/
theorem network_implements_map (heap : Allocator) (rounds : Id → Nat → Round)
    (server : ServerState) (hlimit : server.store.config.maxMemoryBytes = none)
    (streams : Id → Bytes) (requests : Id → List Request) (endings : Id → ConnectionEnd)
    (hreads : ∀ id, Reads heap (rounds id) 0 (streams id) (requests id) (endings id))
    (hplain : ∀ id, ∀ request ∈ requests id, Request.Plain request)
    {events : List (HostEvent Id SocketAction)} {host : Host Id SocketTask}
    (hrun : run (Host.step fun id => socketRules heap (rounds id)) events
      (.accepted server streams) = some host)
    (hturn : InTurn (Host.history (fun id => socketRules heap (rounds id)) events
      (.accepted server streams))) :
    let history := Host.history (fun id => socketRules heap (rounds id)) events
      (Host.accepted server streams)
    let answered := answerAll server.aof.isSome history (.of server.store)
    (∀ id,
      let socket := host.connections id
      (own id (met history server)).map Prod.fst <+: requests id ∧
        socket.round ≤ (own id answered.1).length ∧
        (own id answered.1).length ≤ socket.round + 1 ∧
        ((own id answered.1).take socket.round).flatMap writeFrame <+: socket.written ∧
        socket.written <+: (own id answered.1).flatMap writeFrame) ∧
      ∀ now, (∀ deed ∈ history, deed.reading ≤ now) → ∀ key,
        visible now (host.server.store.entries.lookup key) =
          visible now (answered.2.entries.lookup key) := by
  obtain ⟨abstract, hfollows, haccounts⟩ := Host.accounted hreads hrun
  intro history answered
  have hrequests : ∀ entry ∈ met history server, Request.Plain entry.2.1 := by
    intro entry hmem
    apply hplain entry.1
    rw [← haccounts.order entry.1]
    exact List.mem_append_left _ (List.mem_map_of_mem (mem_own hmem))
  have habstracts : ∀ start, Abstracts start server (.of server.store) :=
    fun _ => ⟨hlimit, fun _ _ => rfl⟩
  obtain ⟨start, hfrom⟩ := exists_start hturn
  have hreplies := (met_abstract (habstracts start) hrequests hfrom).1
  refine ⟨fun id => ?_, fun now hnow key => ?_⟩
  · intro socket
    have hsocket := hfollows.sockets id
    have hround : socket.round = (abstract.connections id).replies.length := hsocket.round
    have hown : ∀ entry ∈ own id (met history server), Request.Plain entry.1 :=
      fun entry hmem => hrequests _ (own_mem hmem)
    have hanswers : own id answered.1 = (own id (met history server)).map
        fun entry => (handleRequest entry.1 entry.2).1 := by
      rw [← own_replies, hreplies]
    obtain ⟨hsent, hlength⟩ := (haccounts.told id).replied
    have hready := answers_plain (haccounts.told id).ready
      fun entry hmem => hown entry (List.mem_of_mem_take hmem)
    have hreplied := answers_plain hsent fun entry hmem => hown entry (List.mem_of_mem_take hmem)
    obtain ⟨hbegins, hwritten⟩ := hsocket.written abstract.server.aof
    rw [hanswers, List.length_map, hround, ← List.map_take, ← hreplied]
    refine ⟨⟨_, haccounts.order id⟩, ?_, ?_, hbegins, hwritten.trans ?_⟩
    · rw [hlength]
      exact Nat.le_add_right _ _
    · rw [hlength]
      split <;> omega
    · rw [hready, List.map_take]
      exact (List.take_prefix _ _).flatMap _
  · obtain ⟨early, hearly, hfrom⟩ := exists_start_le hturn now
    have hlive := (met_abstract (habstracts early) hrequests hfrom).2 now hearly hnow
    rw [hfollows.server, haccounts.entries, ← MemoryStore.lookup_eager, ← hlive,
      EagerStore.lookup_advance]

end

/-- The client that asks for the swept key gets the answer of the map, which does not show it. -/
theorem network_implements_map_lapse :
    ∃ host, run (Host.step fun id => socketRules .unlimited (lapseRounds id)) lapseEvents
        (.accepted (.initial .default) lapseStreams) = some host ∧
      let history := Host.history (fun id => socketRules .unlimited (lapseRounds id)) lapseEvents
        (Host.accepted (.initial .default) lapseStreams)
      let answered := answerAll (ServerState.initial .default).aof.isSome history
        (.of (ServerState.initial .default).store)
      (host.connections false).written = writeFrame .null ∧
        (host.connections false).written = (own false answered.1).flatMap writeFrame ∧
        visible 20000000000 (host.server.store.entries.lookup "k") =
          visible 20000000000 (answered.2.entries.lookup "k") := by
  have hfinished : (run (Host.step fun id => socketRules .unlimited (lapseRounds id)) lapseEvents
      (.accepted (.initial .default) lapseStreams)).map (fun host =>
        ((host.connections false).round, (host.connections false).written)) =
      some (1, writeFrame .null) := by decide +kernel
  obtain ⟨host, hrun, hdone⟩ := Option.map_eq_some_iff.mp hfinished
  obtain ⟨hround, hnull⟩ := Prod.mk.inj hdone
  have hplain : ∀ id, ∀ request ∈ lapseRequests id, Request.Plain request := by decide +kernel
  have hreadings : (Host.history (fun id => socketRules .unlimited (lapseRounds id)) lapseEvents
      (Host.accepted (.initial .default) lapseStreams)).map Deed.reading =
        [0, 0, 20000000000, 20000000000] := by decide +kernel
  have hturn : InTurn (Host.history (fun id => socketRules .unlimited (lapseRounds id)) lapseEvents
      (Host.accepted (.initial .default) lapseStreams)) := by
    rw [InTurn, hreadings]
    decide
  obtain ⟨hclients, hshown⟩ := network_implements_map .unlimited lapseRounds (.initial .default)
    rfl lapseStreams lapseRequests _ lapseRequests_read hplain hrun hturn
  dsimp only at hclients hshown
  have hlast : ∀ reading ∈ [(0 : SystemTime), 0, 20000000000, 20000000000],
      reading ≤ 20000000000 := by decide
  refine ⟨host, hrun, hnull, ?_, ?_⟩
  · obtain ⟨-, -, -, hsent, hwritten⟩ := hclients false
    have hlength : (own false (answerAll (ServerState.initial .default).aof.isSome
        (Host.history (fun id => socketRules .unlimited (lapseRounds id)) lapseEvents
          (Host.accepted (.initial .default) lapseStreams))
        (.of (ServerState.initial .default).store)).1).length = 1 := by decide +kernel
    rw [hround, List.take_of_length_le (Nat.le_of_eq hlength)] at hsent
    exact hwritten.eq_of_length (Nat.le_antisymm hwritten.length_le hsent.length_le)
  · refine hshown 20000000000 (fun deed hmem => hlast _ ?_) "k"
    rw [← hreadings]
    exact List.mem_map_of_mem hmem

end AerugoCache.Concurrent
