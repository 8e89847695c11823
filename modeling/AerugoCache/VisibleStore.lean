import AerugoCache.ErrorReplies
import AerugoCache.LazyExpiration

/-!
# What a store shows

Two stores that show the same from some instant on answer alike from then on: an operation
that is not refused for want of memory returns what its entries show, and leaves them
showing the same.  Only `INFO` and `AERUGO.STATS` tell such stores apart, as they also give
the limit and the counters.
-/

namespace AerugoCache.Storage

open AerugoCache.ByteText AerugoCache.KeyedMap

/-! ### Maps that show the same -/

namespace SameVisible

variable {start now : SystemTime} {entries entries' entries'' : Entries}

theorem refl (start : SystemTime) (entries : Entries) : SameVisible start entries entries :=
  fun _ => rfl

theorem symm (h : SameVisible start entries entries') : SameVisible start entries' entries :=
  fun key => (h key).symm

theorem trans (h : SameVisible start entries entries')
    (h' : SameVisible start entries' entries'') : SameVisible start entries entries'' :=
  fun key => (h' key).trans (h key)

/-- What has expired stays so. -/
theorem later (h : SameVisible start entries entries') (hlater : start ≤ now) :
    SameVisible now entries entries' := by
  intro key
  rw [← visible_later hlater, h key, visible_later hlater]

/-- What has expired can go. -/
theorem retainUnexpired (now : SystemTime) (entries : Entries) :
    SameVisible now entries (retainUnexpired entries now) := by
  intro key
  rw [lookup_retainUnexpired, visible_visible]

end SameVisible

theorem sameVisible_iff_eager {now : SystemTime} {store store' : MemoryStore} :
    SameVisible now store.entries store'.entries ↔
      (store.eager now).entries = (store'.eager now).entries := by
  constructor
  · intro h
    apply Finmap.ext_lookup
    intro key
    rw [MemoryStore.lookup_eager, MemoryStore.lookup_eager, h key]
  · intro h key
    rw [← MemoryStore.lookup_eager, ← MemoryStore.lookup_eager, h]

/-! ### One operation -/

/-- The operation finds the same in both maps, wherever it looks. -/
def StoreOp.FindsSame (op : StoreOp) (env : OpEnv) (entries entries' : Entries) : Prop :=
  ∀ key, op.act env key ≠ .pass →
    visible env.now (entries'.lookup key) = visible env.now (entries.lookup key)

theorem SameVisible.findsSame {env : OpEnv} {entries entries' : Entries}
    (h : SameVisible env.now entries entries') (op : StoreOp) : op.FindsSame env entries entries' :=
  fun key _ => h key

theorem mem_congr {entries entries' : Entries} {key : String}
    (h : entries.lookup key = entries'.lookup key) : key ∈ entries ↔ key ∈ entries' := by
  rw [← Finmap.lookup_isSome, h, Finmap.lookup_isSome]

theorem EagerStore.push_congr {store store' : EagerStore} {key : String}
    (h : store.entries.lookup key = store'.entries.lookup key) (side : Side)
    (values : List Bytes) : (store.push side key values).1 = (store'.push side key values).1 := by
  unfold EagerStore.push
  rw [h]
  rcases store'.entries.lookup key with _ | ⟨_ | _, _⟩ <;> rfl

theorem EagerStore.pop_congr {store store' : EagerStore} {key : String}
    (h : store.entries.lookup key = store'.entries.lookup key) (side : Side) :
    (store.pop side key).1 = (store'.pop side key).1 := by
  unfold EagerStore.pop
  rw [h]
  rcases store'.entries.lookup key with _ | ⟨_ | _, _⟩ <;> rfl

/-- An operation returns what the keys say that it acts on. -/
theorem EagerStore.run_congr {op : StoreOp} {env : OpEnv} {store store' : EagerStore}
    (hop : op ≠ .stats)
    (h : ∀ key, op.act env key ≠ .pass → store.entries.lookup key = store'.entries.lookup key) :
    (EagerStore.run op env store).1 = (EagerStore.run op env store').1 := by
  have hone : ∀ {key : String} {act : KeyAct}, act ≠ .pass →
      (∀ k, op.act env k = if k = key then act else .pass) →
      store.entries.lookup key = store'.entries.lookup key := by
    intro key act hne hact
    exact h key (by rw [hact, if_pos rfl]; exact hne)
  cases op with
  | stats => exact absurd rfl hop
  | set | cleanupExpired => rfl
  | get key =>
    exact congrArg (fun cell => StoreResult.value (bytes cell))
      (hone KeyAct.noConfusion fun _ => rfl)
  | ttl key =>
    exact congrArg (fun cell => StoreResult.ttl (remaining env.now cell))
      (hone KeyAct.noConfusion fun _ => rfl)
  | lrange key start stop =>
    exact congrArg (fun cell => StoreResult.values ((items cell).map (slice start stop)))
      (hone KeyAct.noConfusion fun _ => rfl)
  | expire key seconds | expireAtUnix key unixSeconds =>
    exact congrArg (fun cell => StoreResult.done cell.isSome)
      (hone KeyAct.noConfusion fun _ => rfl)
  | persist key =>
    exact congrArg (fun cell : Option Entry =>
      StoreResult.done (cell.any fun entry => entry.expiresAt.isSome))
      (hone KeyAct.noConfusion fun _ => rfl)
  | lpush key values =>
    have hcell := hone KeyAct.noConfusion fun _ => rfl
    exact congrArg StoreResult.length (EagerStore.push_congr hcell .left values)
  | rpush key values =>
    have hcell := hone KeyAct.noConfusion fun _ => rfl
    exact congrArg StoreResult.length (EagerStore.push_congr hcell .right values)
  | lpop key =>
    have hcell := hone KeyAct.noConfusion fun _ => rfl
    exact congrArg StoreResult.value (EagerStore.pop_congr hcell .left)
  | rpop key =>
    have hcell := hone KeyAct.noConfusion fun _ => rfl
    exact congrArg StoreResult.value (EagerStore.pop_congr hcell .right)
  | del keys =>
    refine congrArg (fun keys => StoreResult.count (Finset.card keys))
      (Finset.filter_congr fun key hkey => mem_congr (h key ?_))
    rw [StoreOp.act, if_pos (List.mem_toFinset.mp hkey)]
    exact KeyAct.noConfusion
  | «exists» keys =>
    refine congrArg StoreResult.count (List.countP_congr fun key hkey => ?_)
    have hsame := h key (by rw [StoreOp.act, if_pos hkey]; exact KeyAct.noConfusion)
    simp only [decide_eq_true_eq, mem_congr hsame]
  | inspectKeys limit =>
    by_cases hlimit : limit = 0
    · simp only [EagerStore.run, hlimit, List.take_zero]
    · have hentries : store.entries = store'.entries := by
        apply Finmap.ext_lookup
        intro key
        refine h key ?_
        rw [StoreOp.act, if_neg hlimit]
        exact KeyAct.noConfusion
      simp only [EagerStore.run, hentries]

/-- Two stores, perhaps with different limits, in which an operation finds the same. -/
theorem StoreOp.result_congr {op : StoreOp} {env : OpEnv} {store store' : MemoryStore}
    (h : op.FindsSame env store.entries store'.entries) (hop : op ≠ .stats)
    (hadmitted : op.Admitted env store) (hadmitted' : op.Admitted env store') :
    observe op (op.run env store).1 = observe op (op.run env store').1 := by
  rw [StoreOp.result_admitted hadmitted, StoreOp.result_admitted hadmitted']
  refine EagerStore.run_congr hop fun key hact => ?_
  rw [MemoryStore.lookup_eager, MemoryStore.lookup_eager, h key hact]

theorem totalKeys_congr {now : SystemTime} {store store' : MemoryStore}
    (h : SameVisible now store.entries store'.entries) :
    (store.stats now).1.totalKeys = (store'.stats now).1.totalKeys := by
  have hentries := sameVisible_iff_eager.mp h
  rw [MemoryStore.eager_entries, MemoryStore.eager_entries] at hentries
  simp only [MemoryStore.stats, buildStats_totalKeys, hentries]

/-- Readings of the clock that do not go back all come after some instant. -/
theorem exists_start {readings : List SystemTime} (h : readings.Pairwise (· ≤ ·)) :
    ∃ start, (start :: readings).Pairwise (· ≤ ·) := by
  cases readings with
  | nil => exact ⟨0, List.pairwise_singleton _ _⟩
  | cons reading readings =>
    refine ⟨reading, List.pairwise_cons.mpr ⟨fun now hnow => ?_, h⟩⟩
    rcases List.mem_cons.mp hnow with rfl | hnow
    · exact le_rfl
    · exact (List.pairwise_cons.mp h).1 now hnow

/-- So they do after some instant that is not later than a given one. -/
theorem exists_start_le {readings : List SystemTime} (h : readings.Pairwise (· ≤ ·))
    (now : SystemTime) : ∃ start ≤ now, (start :: readings).Pairwise (· ≤ ·) := by
  obtain ⟨start, hstart⟩ := exists_start h
  refine ⟨min start now, min_le_right start now, List.pairwise_cons.mpr ⟨fun reading hmem => ?_, h⟩⟩
  exact (min_le_left start now).trans ((List.pairwise_cons.mp hstart).1 reading hmem)

/-- Some instant is not before any of the readings. -/
theorem exists_finish (start : SystemTime) (readings : List SystemTime) :
    ∃ finish, start ≤ finish ∧ ∀ reading ∈ readings, reading ≤ finish := by
  induction readings with
  | nil => exact ⟨start, le_rfl, fun _ hmem => absurd hmem List.not_mem_nil⟩
  | cons reading readings ih =>
    obtain ⟨finish, hstart, hfinish⟩ := ih
    refine ⟨max finish reading, hstart.trans (le_max_left _ _), ?_⟩
    rintro other hmem
    rcases List.mem_cons.mp hmem with rfl | hmem
    · exact le_max_right _ _
    · exact (hfinish other hmem).trans (le_max_left _ _)

/-- An act at a later instant keeps what two cells show the same. -/
theorem KeyAct.cell_congr {start now : SystemTime} (hlater : start ≤ now) (act : KeyAct)
    {cell cell' : Option Entry} (h : visible start cell' = visible start cell) :
    visible start (act.cell now cell') = visible start (act.cell now cell) := by
  by_cases hact : act = .pass
  · rw [hact]
    exact h
  · rw [KeyAct.cell_of_ne_pass hact, KeyAct.cell_of_ne_pass hact, ← visible_later hlater, h,
      visible_later hlater]

/-- No operation of the store evicts. -/
def MemoryStore.NoEviction (store : MemoryStore) : Prop :=
  store.config.maxMemoryBytes = none ∨ store.config.evictionPolicy = .noEviction

theorem StoreOp.sameVisible_run {op : StoreOp} {env : OpEnv} {store store' : MemoryStore}
    {start : SystemTime} (hlater : start ≤ env.now)
    (h : SameVisible start store.entries store'.entries)
    (hkeeps : store.NoEviction) (hkeeps' : store'.NoEviction)
    (hadmitted : op.Admitted env store) (hadmitted' : op.Admitted env store') :
    SameVisible start (op.run env store).2.entries (op.run env store').2.entries := by
  intro key
  rw [StoreOp.lookup_of_noEviction hkeeps hadmitted, StoreOp.lookup_of_noEviction hkeeps' hadmitted']
  exact KeyAct.cell_congr hlater _ (h key)

end AerugoCache.Storage

namespace AerugoCache.Server

open AerugoCache.ByteText AerugoCache.Protocol AerugoCache.Storage AerugoCache.Commands
  AerugoCache.Persistence

/-! ### One command -/

/-- The commands whose replies give the limit and the counters. -/
def Command.reportsCounters : Command → Bool
  | .info | .aerugoStats => true
  | _ => false

/-- The operation of the command is not refused for want of memory. -/
def Admitted (command : Command) (env : Env) (store : MemoryStore) : Prop :=
  ∀ op, command.storeOp = some op → op.Admitted env.opEnv store

theorem admitted_of_unlimited {store : MemoryStore} (hlimit : store.config.maxMemoryBytes = none)
    (command : Command) (env : Env) : Admitted command env store :=
  fun op _ => op.admitted_of_unlimited hlimit env.opEnv

theorem execute_congr {command : Command} {env : Env} {store store' : MemoryStore}
    (hplain : Command.reportsCounters command = false)
    (h : ∀ op, command.storeOp = some op → op.FindsSame env.opEnv store.entries store'.entries)
    (hadmitted : Admitted command env store) (hadmitted' : Admitted command env store') :
    (command.execute env store).1 = (command.execute env store').1 := by
  have hresult : ∀ op, command.storeOp = some op → op ≠ .stats →
      observe op (op.run env.opEnv store).1 = observe op (op.run env.opEnv store').1 :=
    fun op hop hstats =>
      StoreOp.result_congr (h op hop) hstats (hadmitted op hop) (hadmitted' op hop)
  cases command with
  | ping value => cases value <;> rfl
  | echo value => rfl
  | dbSize =>
    have hshown : SameVisible env.clock.now store.entries store'.entries :=
      fun key => h _ rfl key KeyAct.noConfusion
    exact congrArg (fun count => Except.ok (Frame.integer (Int64.ofNat count)))
      (totalKeys_congr hshown)
  | info => cases hplain
  | aerugoStats => cases hplain
  | set key value =>
    exact congrArg (reply _) (StoreResult.written.inj (hresult _ rfl StoreOp.noConfusion))
  | get key | lpop key | rpop key =>
    exact congrArg (reply _) (StoreResult.value.inj (hresult _ rfl StoreOp.noConfusion))
  | lpush key values | rpush key values =>
    exact congrArg (reply _) (StoreResult.length.inj (hresult _ rfl StoreOp.noConfusion))
  | lrange key start stop =>
    exact congrArg (reply _) (StoreResult.values.inj (hresult _ rfl StoreOp.noConfusion))
  | del keys | «exists» keys =>
    exact congrArg (fun count => Except.ok (Frame.integer (Int64.ofNat count)))
      (StoreResult.count.inj (hresult _ rfl StoreOp.noConfusion))
  | expire key seconds | expireAt key unixSeconds | persist key =>
    exact congrArg (fun done => Except.ok (flag done))
      (StoreResult.done.inj (hresult _ rfl StoreOp.noConfusion))
  | ttl key =>
    exact congrArg (fun remaining => Except.ok (Frame.integer remaining.asRedisInteger))
      (StoreResult.ttl.inj (hresult _ rfl StoreOp.noConfusion))
  | aerugoInspect limit =>
    exact congrArg (fun keys => Except.ok (Frame.array (keys.map inspectionToFrame)))
      (StoreResult.rows.inj (hresult _ rfl StoreOp.noConfusion))

theorem sameVisible_execute_congr {command : Command} {env : Env} {store store' : MemoryStore}
    {start : SystemTime} (hlater : start ≤ env.clock.now)
    (h : SameVisible start store.entries store'.entries)
    (hkeeps : store.NoEviction) (hkeeps' : store'.NoEviction)
    (hadmitted : Admitted command env store) (hadmitted' : Admitted command env store') :
    SameVisible start (command.execute env store).2.entries
      (command.execute env store').2.entries := by
  rw [execute_store, execute_store]
  cases hop : command.storeOp with
  | none => exact h
  | some op =>
    exact StoreOp.sameVisible_run hlater h hkeeps hkeeps' (hadmitted op hop) (hadmitted' op hop)

/-! ### One request -/

/-- The request is no question for the limit and the counters. -/
def Request.Plain (request : Request) : Prop :=
  ∀ command, Command.fromFrame request.frame = .ok command →
    Command.reportsCounters command = false

instance (request : Request) : Decidable (Request.Plain request) :=
  match h : Command.fromFrame request.frame with
  | .ok command => decidable_of_iff (Command.reportsCounters command = false)
      (by simp [Request.Plain, h])
  | .error _ => isTrue (by simp [Request.Plain, h])

/-- The request is not refused for want of memory. -/
def Request.Admitted (request : Request) (store : MemoryStore) : Prop :=
  ∀ command, Command.fromFrame request.frame = .ok command →
    Server.Admitted command request.env store

/-- The request finds the same in both maps, wherever it looks. -/
def Request.FindsSame (request : Request) (entries entries' : Entries) : Prop :=
  ∀ command op, Command.fromFrame request.frame = .ok command → command.storeOp = some op →
    op.FindsSame request.env.opEnv entries entries'

theorem executeRequest_result {request : Request} {store store' : MemoryStore}
    (hplain : Request.Plain request)
    (hfinds : Request.FindsSame request store.entries store'.entries)
    (hadmitted : Request.Admitted request store) (hadmitted' : Request.Admitted request store') :
    (executeRequest request store).1 = (executeRequest request store').1 := by
  simp only [executeRequest]
  rcases hcommand : Command.fromFrame request.frame with error | command
  · rfl
  · simp only [execute_congr (hplain command hcommand) (fun op => hfinds command op hcommand)
      (hadmitted command hcommand) (hadmitted' command hcommand)]

theorem executeRequest_congr {request : Request} {store store' : MemoryStore} {start : SystemTime}
    (hplain : Request.Plain request) (hlater : start ≤ request.env.clock.now)
    (h : SameVisible start store.entries store'.entries)
    (hkeeps : store.NoEviction) (hkeeps' : store'.NoEviction)
    (hadmitted : Request.Admitted request store) (hadmitted' : Request.Admitted request store') :
    (executeRequest request store).1 = (executeRequest request store').1 ∧
      SameVisible start (executeRequest request store).2.entries
        (executeRequest request store').2.entries := by
  refine ⟨executeRequest_result hplain ?_ hadmitted hadmitted', ?_⟩
  · exact fun command op _ _ => (h.later hlater).findsSame op
  · simp only [executeRequest]
    rcases hcommand : Command.fromFrame request.frame with error | command
    · exact h
    · exact sameVisible_execute_congr hlater h hkeeps hkeeps' (hadmitted command hcommand)
        (hadmitted' command hcommand)

theorem executeRequest_config (request : Request) (store : MemoryStore) :
    (executeRequest request store).2.config = store.config := by
  rw [executeRequest]
  rcases Command.fromFrame request.frame with error | command
  · rfl
  · exact execute_config command request.env store

/-- What a request does to a key. -/
def requestAct (key : String) (request : Request) : KeyAct :=
  match Command.fromFrame request.frame with
  | .ok command =>
      match command.storeOp with
      | some op => op.act request.env.opEnv key
      | none => .pass
  | .error _ => .pass

/-- Without a memory limit every cell goes its own way. -/
theorem lookup_executeRequest {store : MemoryStore} (hlimit : store.config.maxMemoryBytes = none)
    (request : Request) (key : String) :
    (executeRequest request store).2.entries.lookup key =
      (requestAct key request).cell request.env.clock.now (store.entries.lookup key) := by
  unfold requestAct
  simp only [executeRequest]
  rcases Command.fromFrame request.frame with error | command
  · rfl
  · simp only [execute_store]
    cases command.storeOp with
    | none => rfl
    | some op => exact op.lookup_of_unlimited hlimit request.env.opEnv key

/-- What is left of handling a request is decided by what executing it returns. -/
theorem handleRequest_congr {request : Request} {state state' : ServerState}
    (hresult : (executeRequest request state.store).1 = (executeRequest request state'.store).1)
    (hlogging : state.aof = state'.aof) :
    (handleRequest request state).1 = (handleRequest request state').1 ∧
      (handleRequest request state).2.aof = (handleRequest request state').2.aof ∧
      (handleRequest request state).2.store = (executeRequest request state.store).2 ∧
      (handleRequest request state').2.store = (executeRequest request state'.store).2 := by
  simp only [handleRequest, ← hlogging]
  generalize executeRequest request state.store = outcome at hresult ⊢
  generalize executeRequest request state'.store = outcome' at hresult ⊢
  obtain ⟨result, store⟩ := outcome
  obtain ⟨result', store'⟩ := outcome'
  cases hresult
  rcases result with error | ⟨response, aofFrame⟩ <;> exact ⟨rfl, rfl, rfl, rfl⟩

/-! ### Servers without a memory limit -/

/-- From an instant on, two servers without a memory limit show the same, and append to the
    same log or to none. -/
structure Alike (start : SystemTime) (state state' : ServerState) : Prop where
  unlimited : state.store.config.maxMemoryBytes = none
  unlimited' : state'.store.config.maxMemoryBytes = none
  shown : SameVisible start state.store.entries state'.store.entries
  logging : state.aof = state'.aof

/-- A request returns the same, and leaves the stores alike. -/
theorem Alike.executeRequest {start : SystemTime} {state state' : ServerState}
    (h : Alike start state state') {request : Request} (hplain : Request.Plain request)
    (hlater : start ≤ request.env.clock.now) :
    (Server.executeRequest request state.store).1 =
        (Server.executeRequest request state'.store).1 ∧
      Alike start { state with store := (Server.executeRequest request state.store).2 }
        { state' with store := (Server.executeRequest request state'.store).2 } := by
  obtain ⟨hresult, hshown⟩ := executeRequest_congr hplain hlater h.shown (Or.inl h.unlimited)
    (Or.inl h.unlimited') (fun command _ => admitted_of_unlimited h.unlimited command _)
    (fun command _ => admitted_of_unlimited h.unlimited' command _)
  refine ⟨hresult, ?_, ?_, hshown, h.logging⟩
  · exact (congrArg StoreConfig.maxMemoryBytes (executeRequest_config _ _)).trans h.unlimited
  · exact (congrArg StoreConfig.maxMemoryBytes (executeRequest_config _ _)).trans h.unlimited'

/-- **A request is answered alike**, and leaves the servers alike. -/
theorem Alike.handleRequest {start : SystemTime} {state state' : ServerState}
    (h : Alike start state state') {request : Request} (hplain : Request.Plain request)
    (hlater : start ≤ request.env.clock.now) :
    (Server.handleRequest request state).1 = (Server.handleRequest request state').1 ∧
      Alike start (Server.handleRequest request state).2
        (Server.handleRequest request state').2 := by
  obtain ⟨hresult, hnext⟩ := h.executeRequest hplain hlater
  obtain ⟨hreply, haof, hstore, hstore'⟩ := handleRequest_congr hresult h.logging
  refine ⟨hreply, ?_, ?_, ?_, haof⟩
  · rw [hstore]
    exact hnext.unlimited
  · rw [hstore']
    exact hnext.unlimited'
  · rw [hstore, hstore']
    exact hnext.shown

/-- **So is every run of requests.** -/
theorem Alike.serve {start : SystemTime} {state state' : ServerState}
    (h : Alike start state state') {requests : List Request}
    (hrequests : ∀ request ∈ requests, Request.Plain request ∧ start ≤ request.env.clock.now) :
    (Server.serve requests state).1 = (Server.serve requests state').1 ∧
      Alike start (Server.serve requests state).2 (Server.serve requests state').2 := by
  induction requests generalizing state state' with
  | nil => exact ⟨rfl, h⟩
  | cons request requests ih =>
    obtain ⟨hplain, hlater⟩ := hrequests request List.mem_cons_self
    obtain ⟨hreply, hnext⟩ := h.handleRequest hplain hlater
    obtain ⟨hreplies, hfinal⟩ := ih hnext fun other hother =>
      hrequests other (List.mem_cons_of_mem _ hother)
    exact ⟨by simp only [Server.serve, hreply, hreplies], hfinal⟩

end AerugoCache.Server
