import AerugoCache.EagerStore
import AerugoCache.KeyCounts

/-!
# Lazy expiration

An expired entry stays in the map until an operation comes by its key or sweeps the map.
Nothing is to be seen of it meanwhile: without a memory limit an operation does to what
has not expired what it does in the eager store, and returns the same.  What differs is
what is said about the cleaning itself: its counter, and the count that `cleanup_expired`
returns.
-/

namespace AerugoCache.Storage

open AerugoCache.ByteText AerugoCache.KeyedMap

/-! ### What an operation returns -/

namespace MemoryStore

theorem get_result (store : MemoryStore) (now : SystemTime) (key : String) :
    (store.get now key).1 = EagerStore.bytes (visible now (store.entries.lookup key)) := by
  simp only [get, removeIfExpired_eq_assign, lookup_assign_self]
  rcases visible now (store.entries.lookup key) with _ | ⟨_ | _, _⟩ <;> rfl

theorem ttl_result (store : MemoryStore) (now : SystemTime) (key : String) :
    (store.ttl now key).1 = EagerStore.remaining now (visible now (store.entries.lookup key)) := by
  simp only [ttl, removeIfExpired_eq_assign, lookup_assign_self]
  rcases hcell : visible now (store.entries.lookup key) with _ | ⟨value, _ | deadline⟩
  · rfl
  · rfl
  · have hlive : ¬ deadline ≤ now := by
      simpa [Entry.isExpired] using (visible_eq_some.mp hcell).2
    have hlater : now ≤ deadline := Int.le_of_lt (Int.not_le.mp hlive)
    simp [EagerStore.remaining, durationSince, hlater]

theorem lrange_result (store : MemoryStore) (now : SystemTime) (key : String)
    (start stop : Int64) :
    (store.lrange now key start stop).1 =
      (EagerStore.items (visible now (store.entries.lookup key))).map
        (EagerStore.slice start stop) := by
  simp only [lrange, removeIfExpired_eq_assign, lookup_assign_self]
  rcases visible now (store.entries.lookup key) with _ | ⟨_ | list, _⟩
  · simp [EagerStore.items, EagerStore.slice, normalizeRange, Except.map]
  · rfl
  · simp only [EagerStore.items, EagerStore.slice, Except.map]
    cases normalizeRange list.length start stop <;> rfl

theorem delKeys_count (now : SystemTime) (keys : List String) (entries : Entries) :
    (delKeys now keys entries).1 =
      (keys.toFinset.filter fun key => (visible now (entries.lookup key)).isSome).card := by
  induction keys generalizing entries with
  | nil => rfl
  | cons key keys ih =>
    have herase : (removeIfExpired entries key now).erase key = entries.erase key := by
      rw [removeIfExpired_eq_assign, ← assign_none, assign_assign]
      rfl
    have hrest : (keys.toFinset.filter fun k =>
          (visible now ((entries.erase key).lookup k)).isSome) =
        (keys.toFinset.filter fun k => (visible now (entries.lookup k)).isSome).erase key := by
      ext k
      simp only [Finset.mem_filter, Finset.mem_erase, lookup_erase_eq]
      by_cases hk : k = key <;> simp [hk]
    simp only [delKeys]
    rw [herase, ih, hrest, List.toFinset_cons, Finset.filter_insert, removeIfExpired_eq_assign,
      lookup_assign_self]
    cases hcell : (visible now (entries.lookup key)).isSome with
    | true =>
      rw [if_pos rfl, if_pos rfl, ← Finset.card_erase_add_one (Finset.mem_insert_self key _),
        Finset.erase_insert_eq_erase, Nat.add_comm]
    | false =>
      have hnot : key ∉ keys.toFinset.filter fun k => (visible now (entries.lookup k)).isSome := by
        simp [hcell]
      rw [Finset.erase_eq_of_notMem hnot]
      simp

theorem existsKeys_count (now : SystemTime) (keys : List String) (entries : Entries) :
    (existsKeys now keys entries).1 =
      keys.countP fun key => (visible now (entries.lookup key)).isSome := by
  induction keys generalizing entries with
  | nil => rfl
  | cons key keys ih =>
    have hsame : (fun k => (visible now ((removeIfExpired entries key now).lookup k)).isSome) =
        fun k => (visible now (entries.lookup k)).isSome := by
      funext k
      rw [lookup_removeIfExpired]
      split <;> simp
    simp only [existsKeys]
    rw [ih, hsame, List.countP_cons, removeIfExpired_eq_assign, lookup_assign_self, Nat.add_comm]

end MemoryStore

/-! ### What the eager store sees -/

/-- What of the store the eager store has at `now`. -/
def MemoryStore.eager (now : SystemTime) (store : MemoryStore) : EagerStore :=
  (EagerStore.of store).advance now

theorem livesAfter_eq (now : SystemTime) (entry : Entry) :
    decide (entry.LivesAfter now) = !entry.isExpired now := by
  rcases entry with ⟨value, _ | deadline⟩
  · simp [Entry.LivesAfter, Entry.isExpired]
  · simp [Entry.LivesAfter, Entry.isExpired, ← decide_not]

theorem EagerStore.lookup_advance (now : SystemTime) (store : EagerStore) (k : String) :
    (store.advance now).entries.lookup k = visible now (store.entries.lookup k) := by
  simp only [EagerStore.advance, lookup_retain, livesAfter_eq]
  rfl

theorem MemoryStore.eager_entries (now : SystemTime) (store : MemoryStore) :
    (store.eager now).entries = retainUnexpired store.entries now := by
  apply Finmap.ext_lookup
  intro k
  rw [lookup_retainUnexpired]
  exact EagerStore.lookup_advance now (.of store) k

theorem MemoryStore.lookup_eager (now : SystemTime) (store : MemoryStore) (k : String) :
    (store.eager now).entries.lookup k = visible now (store.entries.lookup k) :=
  EagerStore.lookup_advance now (.of store) k

theorem MemoryStore.advance_eager {now later : SystemTime} (h : now ≤ later)
    (store : MemoryStore) : (store.eager now).advance later = store.eager later := by
  apply EagerStore.ext
  · apply Finmap.ext_lookup
    intro k
    rw [EagerStore.lookup_advance, MemoryStore.lookup_eager, MemoryStore.lookup_eager,
      visible_later h]
  · rfl
  · rfl
  · rfl

theorem visible_date (now deadline : SystemTime) (cell : Option Entry) :
    visible now (cell.map fun entry => { entry with expiresAt := some deadline }) =
      visible now (expireCell now deadline cell) := by
  unfold expireCell
  by_cases hpast : deadline ≤ now
  · rcases cell with _ | entry
    · simp
    · simp [hpast, visible_some, Entry.isExpired]
  · simp [hpast]

/-- Nothing in the store has expired. -/
def EagerStore.Live (now : SystemTime) (store : EagerStore) : Prop :=
  ∀ k, visible now (store.entries.lookup k) = store.entries.lookup k

/-- Of the act on the key, what does not expire at once is left. -/
def EagerStore.ActsOn (now : SystemTime) (key : String) (act : KeyAct)
    (store after : EagerStore) : Prop :=
  ∀ k, after.entries.lookup k =
    visible now ((if k = key then act else .pass).update now (store.entries.lookup k))

theorem EagerStore.acts_date (now : SystemTime) (store : EagerStore) (key : String)
    (deadline : SystemTime) :
    ActsOn now key (.date deadline) store (store.date now key deadline).2 := by
  intro k
  simp only [EagerStore.date, EagerStore.lookup_advance, EagerStore.put, lookup_assign]
  by_cases hk : k = key
  · rw [if_pos hk, if_pos hk, ← hk]
    exact visible_date now deadline _
  · rw [if_neg hk, if_neg hk]
    rfl

namespace EagerStore.Live

variable {store : EagerStore} {now : SystemTime}

theorem put (h : store.Live now) {key : String} (act : KeyAct) {cell : Option Entry}
    (hcell : cell = visible now (act.update now (store.entries.lookup key))) :
    ActsOn now key act store (store.put key cell) := by
  intro k
  simp only [EagerStore.put, lookup_assign]
  by_cases hk : k = key
  · rw [if_pos hk, if_pos hk, hk, hcell]
  · rw [if_neg hk, if_neg hk]
    exact (h k).symm

theorem keep (h : store.Live now) {key : String} (act : KeyAct)
    (hact : act.update now (store.entries.lookup key) = store.entries.lookup key) :
    ActsOn now key act store store := by
  intro k
  by_cases hk : k = key
  · rw [if_pos hk, hk, hact, h]
  · rw [if_neg hk]
    exact (h k).symm

/-- Another value with the deadline of an entry is live like the entry. -/
theorem revalued (h : store.Live now) {key : String} {old : Value}
    {expiresAt : Option SystemTime} (hcell : store.entries.lookup key = some ⟨old, expiresAt⟩)
    (value : Value) : some ⟨value, expiresAt⟩ = visible now (some ⟨value, expiresAt⟩) := by
  have hold := h key
  rw [hcell] at hold
  have hexpired : Entry.isExpired ⟨value, expiresAt⟩ now = false := (visible_eq_some.mp hold).2
  exact (visible_eq_some.mpr ⟨rfl, hexpired⟩).symm

theorem push (h : store.Live now) (side : Side) (key : String) (values : List Bytes) :
    ActsOn now key (.push side values) store (store.push side key values).2 := by
  unfold EagerStore.push
  rcases hcell : store.entries.lookup key with _ | ⟨value | list, expiresAt⟩
  · apply h.put (.push side values)
    rw [hcell]
    rfl
  · apply h.keep (.push side values)
    rw [hcell]
    rfl
  · apply h.put (.push side values)
    rw [hcell]
    exact h.revalued hcell _

theorem pop (h : store.Live now) (side : Side) (key : String) :
    ActsOn now key (.pop side) store (store.pop side key).2 := by
  unfold EagerStore.pop
  rcases hcell : store.entries.lookup key with _ | ⟨value | list, expiresAt⟩
  · apply h.keep (.pop side)
    rw [hcell]
    rfl
  · apply h.keep (.pop side)
    rw [hcell]
    rfl
  · apply h.put (.pop side)
    rw [hcell]
    simp only [KeyAct.update, popCell, List.isEmpty_iff]
    split
    · rfl
    · exact h.revalued hcell _

end EagerStore.Live

/-- The eager store after an operation: what of the act is left. -/
theorem EagerStore.lookup_run {store : EagerStore} {env : OpEnv} (h : store.Live env.now)
    (op : StoreOp) (k : String) :
    (EagerStore.run op env store).2.entries.lookup k =
      visible env.now ((op.act env k).update env.now (store.entries.lookup k)) := by
  cases op with
  | set key value => exact h.put (.put value) rfl k
  | get key | ttl key | lrange key => exact h.keep .look rfl k
  | del keys =>
    change (keys.foldl (fun entries key => entries.erase key) store.entries).lookup k = _
    rw [lookup_foldl_erase]
    simp only [StoreOp.act]
    split
    · rfl
    · exact (h k).symm
  | «exists» keys =>
    simp only [StoreOp.act]
    split
    · exact (h k).symm
    · exact (h k).symm
  | expire key seconds => exact EagerStore.acts_date env.now store key _ k
  | expireAtUnix key unixSeconds => exact EagerStore.acts_date env.now store key _ k
  | persist key =>
    refine h.put .undate ?_ k
    rcases store.entries.lookup key with _ | entry <;> rfl
  | cleanupExpired | stats => exact (h k).symm
  | lpush key values => exact h.push .left key values k
  | rpush key values => exact h.push .right key values k
  | lpop key => exact h.pop .left key k
  | rpop key => exact h.pop .right key k
  | inspectKeys limit =>
    simp only [StoreOp.act]
    split
    · exact (h k).symm
    · exact (h k).symm

/-! ### One operation -/

/-- A result without what it says about the cleaning. -/
def observe : StoreOp → StoreResult → StoreResult
  | .cleanupExpired, _ => .count 0
  | _, .stats stats => .stats { stats with expiredKeysCleaned := 0 }
  | _, result => result

theorem EagerStore.push_result {store : MemoryStore} {env : OpEnv} {side : Side} {key : String}
    {values : List Bytes}
    (hadmits : ∀ entry, pushEntry side values (visible env.now (store.entries.lookup key)) =
      some entry → Admits store.config store.entries key entry) :
    (store.push env.picks env.now key values side).1 =
      ((store.eager env.now).push side key values).1 := by
  have hresult : ∀ entry, pushEntry side values (visible env.now (store.entries.lookup key)) =
      some entry → (store.push env.picks env.now key values side).1 =
        .ok entry.value.listItems := by
    intro entry hentry
    rw [MemoryStore.push_eq, hentry]
    simp only [(store.commitWrite_result env.picks key _ entry).1 (hadmits entry hentry),
      Except.map]
  unfold EagerStore.push
  rw [MemoryStore.lookup_eager]
  rcases hcell : visible env.now (store.entries.lookup key) with _ | ⟨value | list, expiresAt⟩
  · rw [hcell] at hresult
    exact hresult _ rfl
  · rw [MemoryStore.push_eq, hcell]
    rfl
  · rw [hcell] at hresult
    exact hresult _ rfl

theorem EagerStore.pop_result (store : MemoryStore) (env : OpEnv) (side : Side) (key : String) :
    (store.pop env.now key side).1 = ((store.eager env.now).pop side key).1 := by
  rw [MemoryStore.pop_eq]
  unfold EagerStore.pop
  rw [MemoryStore.lookup_eager]
  rcases visible env.now (store.entries.lookup key) with _ | ⟨value | list, expiresAt⟩ <;> rfl

theorem MemoryStore.mem_eager (now : SystemTime) (store : MemoryStore) (key : String) :
    key ∈ (store.eager now).entries ↔ (visible now (store.entries.lookup key)).isSome := by
  rw [← Finmap.lookup_isSome, MemoryStore.lookup_eager]

/-- An operation that is not refused for want of memory returns what it returns in the
    eager store. -/
theorem StoreOp.result_admitted {op : StoreOp} {env : OpEnv} {store : MemoryStore}
    (hadmitted : op.Admitted env store) :
    observe op (op.run env store).1 = (EagerStore.run op env (store.eager env.now)).1 := by
  cases op with
  | set key value =>
    change StoreResult.written (store.set env.picks env.now key value).1 = .written (.ok ())
    rw [MemoryStore.set_eq, (store.commitWrite_result env.picks key _ _).1
      (hadmitted key _ rfl)]
  | get key =>
    change StoreResult.value (store.get env.now key).1 = _
    rw [MemoryStore.get_result, ← MemoryStore.lookup_eager]
    rfl
  | del keys =>
    change StoreResult.count (store.del env.now keys).1 = .count (Finset.card _)
    simp only [MemoryStore.mem_eager]
    exact congrArg _ (MemoryStore.delKeys_count env.now keys store.entries)
  | «exists» keys =>
    change StoreResult.count (store.exists env.now keys).1 = .count (keys.countP _)
    simp only [MemoryStore.mem_eager, Bool.decide_eq_true]
    exact congrArg _ (MemoryStore.existsKeys_count env.now keys store.entries)
  | expire key seconds =>
    change StoreResult.done (store.expireAt env.now key _).1 =
      .done ((store.eager env.now).entries.lookup key).isSome
    rw [MemoryStore.expireAt_eq, MemoryStore.lookup_eager]
  | expireAtUnix key unixSeconds =>
    change StoreResult.done (store.expireAt env.now key _).1 =
      .done ((store.eager env.now).entries.lookup key).isSome
    rw [MemoryStore.expireAt_eq, MemoryStore.lookup_eager]
  | ttl key =>
    change StoreResult.ttl (store.ttl env.now key).1 = _
    rw [MemoryStore.ttl_result, ← MemoryStore.lookup_eager]
    rfl
  | persist key =>
    change StoreResult.done (store.persist env.now key).1 = _
    rw [MemoryStore.persist_eq, ← MemoryStore.lookup_eager]
    rfl
  | cleanupExpired => rfl
  | lpush key values | rpush key values =>
    refine congrArg StoreResult.length (EagerStore.push_result fun entry hentry => ?_)
    exact hadmitted key entry (by rw [StoreOp.written, hentry, Option.map_some])
  | lpop key => exact congrArg StoreResult.value (EagerStore.pop_result store env .left key)
  | rpop key => exact congrArg StoreResult.value (EagerStore.pop_result store env .right key)
  | lrange key start stop =>
    change StoreResult.values (store.lrange env.now key start stop).1 = _
    rw [MemoryStore.lrange_result, ← MemoryStore.lookup_eager]
    rfl
  | stats =>
    change StoreResult.stats { (store.stats env.now).1 with expiredKeysCleaned := 0 } =
      .stats (store.eager env.now).report
    congr 1
    rw [EagerStore.report, MemoryStore.eager_entries]
    simp only [MemoryStore.stats, MemoryStore.recordExpired_counters]
    rfl
  | inspectKeys limit =>
    change StoreResult.rows (store.inspectKeys env.order env.now limit).1 = .rows _
    rw [MemoryStore.eager_entries, MemoryStore.inspectKeys]
    split
    · rename_i hzero
      simp [hzero]
    · rfl

theorem StoreOp.result_eager {store : MemoryStore} (hlimit : store.config.maxMemoryBytes = none)
    (op : StoreOp) (env : OpEnv) :
    observe op (op.run env store).1 = (EagerStore.run op env (store.eager env.now)).1 :=
  StoreOp.result_admitted (op.admitted_of_unlimited hlimit env)

theorem StoreOp.evicted_of_unlimited {store : MemoryStore}
    (hlimit : store.config.maxMemoryBytes = none) (op : StoreOp) (env : OpEnv) :
    op.evicted env store = 0 := by
  apply StoreOp.evicted_eq_zero
  intro k hact
  rw [op.lookup_of_unlimited hlimit, hact]
  rfl

theorem StoreOp.rejected_of_unlimited {store : MemoryStore}
    (hlimit : store.config.maxMemoryBytes = none) (op : StoreOp) (env : OpEnv) :
    op.rejected env store = 0 := by
  rw [StoreOp.rejected, if_neg]
  rw [StoreOp.isOutOfMemory_iff]
  exact not_not_intro (op.admitted_of_unlimited hlimit env)

theorem EagerStore.run_config (op : StoreOp) (env : OpEnv) (store : EagerStore) :
    (EagerStore.run op env store).2 =
      { store with entries := (EagerStore.run op env store).2.entries } := by
  have hpush : ∀ side key values, (store.push side key values).2 =
      { store with entries := (store.push side key values).2.entries } := by
    intro side key values
    unfold EagerStore.push
    rcases store.entries.lookup key with _ | ⟨_ | _, _⟩ <;> rfl
  have hpop : ∀ side key, (store.pop side key).2 =
      { store with entries := (store.pop side key).2.entries } := by
    intro side key
    unfold EagerStore.pop
    rcases store.entries.lookup key with _ | ⟨_ | _, _⟩ <;> rfl
  cases op with
  | lpush key values => exact hpush .left key values
  | rpush key values => exact hpush .right key values
  | lpop key => exact hpop .left key
  | rpop key => exact hpop .right key
  | _ => rfl

/-- **Refinement**: without a memory limit, an operation on the lazy store is the operation
    on the eager store. -/
theorem StoreOp.run_eager {store : MemoryStore} (hlimit : store.config.maxMemoryBytes = none)
    (op : StoreOp) (env : OpEnv) :
    EagerStore.run op env (store.eager env.now) =
      (observe op (op.run env store).1, (op.run env store).2.eager env.now) := by
  apply Prod.ext
  · exact (op.result_eager hlimit env).symm
  · rw [EagerStore.run_config]
    have hcounters := op.run_counters env store
    rw [op.evicted_of_unlimited hlimit, op.rejected_of_unlimited hlimit] at hcounters
    apply EagerStore.ext
    · apply Finmap.ext_lookup
      intro k
      have hlive : (store.eager env.now).Live env.now := by
        intro k
        rw [MemoryStore.lookup_eager, visible_visible]
      change (EagerStore.run op env (store.eager env.now)).2.entries.lookup k =
        ((op.run env store).2.eager env.now).entries.lookup k
      rw [EagerStore.lookup_run hlive, MemoryStore.lookup_eager, MemoryStore.lookup_eager,
        op.lookup_of_unlimited hlimit]
      by_cases hact : op.act env k = .pass
      · rw [hact]
        exact visible_visible _ _
      · rw [KeyAct.cell_of_ne_pass hact]
    · exact (op.run_config env store).symm
    · exact (congrArg StoreCounters.evictedKeys hcounters).symm
    · exact (congrArg StoreCounters.rejectedWrites hcounters).symm

/-! ### Runs -/

/-- A call, and whether it was inserted into the sequence. -/
structure Call where
  op : StoreOp
  env : OpEnv
  inserted : Bool

/-- The calls that may be inserted. -/
def StoreOp.insertable : StoreOp → Bool
  | .cleanupExpired | .stats | .inspectKeys _ | .get _ | .exists _ | .ttl _ | .lrange _ _ _ => true
  | _ => false

/-- What is observed of the results of the original calls. -/
def results (observe : StoreOp → StoreResult → StoreResult) :
    List Call → MemoryStore → List StoreResult
  | [], _ => []
  | call :: calls, store =>
      let (result, store) := call.op.run call.env store
      if call.inserted then results observe calls store
      else observe call.op result :: results observe calls store

/-- The results of calls in the eager store. -/
def EagerStore.results : List Call → EagerStore → List StoreResult
  | [], _ => []
  | call :: calls, store =>
      let (result, store) := EagerStore.step call.op call.env store
      result :: EagerStore.results calls store

/-- The calls are made one after another. -/
def InTime (calls : List Call) : Prop :=
  calls.Pairwise fun earlier later => earlier.env.now ≤ later.env.now

instance (calls : List Call) : Decidable (InTime calls) :=
  inferInstanceAs (Decidable (calls.Pairwise _))

/-- An inserted call leaves what the eager store sees. -/
theorem eager_insertable {op : StoreOp} (h : op.insertable = true) {env : OpEnv}
    {store : MemoryStore} (hlimit : store.config.maxMemoryBytes = none) :
    (op.run env store).2.eager env.now = store.eager env.now := by
  have hrun := congrArg Prod.snd (op.run_eager hlimit env)
  apply hrun.symm.trans
  cases op with
  | cleanupExpired | stats | inspectKeys | get | «exists» | ttl | lrange => rfl
  | _ => cases h

/-- The eager store that starts with what the lazy store has agrees with it from the next
    reading on. -/
theorem results_eager {calls : List Call} (htime : InTime calls)
    (hinserted : ∀ call ∈ calls, call.inserted = true → call.op.insertable = true)
    {store : MemoryStore} (hlimit : store.config.maxMemoryBytes = none) {eager : EagerStore}
    (hagree : ∀ call ∈ calls, eager.advance call.env.now = store.eager call.env.now) :
    results observe calls store =
      EagerStore.results (calls.filter fun call => !call.inserted) eager := by
  induction calls generalizing store eager with
  | nil => rfl
  | cons call calls ih =>
    obtain ⟨hlater, hrest⟩ := List.pairwise_cons.mp htime
    have hnow := hagree call List.mem_cons_self
    have hlimit' : (call.op.run call.env store).2.config.maxMemoryBytes = none := by
      rw [StoreOp.run_config, hlimit]
    have hinserted' : ∀ later ∈ calls, later.inserted = true → later.op.insertable = true :=
      fun later hmem => hinserted later (List.mem_cons_of_mem _ hmem)
    simp only [results]
    cases hprobe : call.inserted with
    | true =>
      simp only [if_true, hprobe, Bool.not_true, List.filter_cons, Bool.false_eq_true, if_false]
      apply ih hrest hinserted' hlimit'
      intro later hmem
      have hle := hlater later hmem
      rw [hagree later (List.mem_cons_of_mem _ hmem), ← MemoryStore.advance_eager hle,
        ← MemoryStore.advance_eager hle,
        eager_insertable (hinserted call List.mem_cons_self hprobe) hlimit]
    | false =>
      simp only [hprobe, Bool.not_false, List.filter_cons, if_true, Bool.false_eq_true, if_false,
        EagerStore.results, EagerStore.step, hnow, call.op.run_eager hlimit call.env]
      congr 1
      apply ih hrest hinserted' hlimit'
      intro later hmem
      exact MemoryStore.advance_eager (hlater later hmem) _

/-- **Lazy expiration equals eager expiration.**  Without a memory limit, and with calls
    in between that only read or clean, the original calls return what they return in the
    eager store, but for the counter of cleaned entries and the count `cleanup_expired`
    returns. -/
theorem lazy_eq_eager (store : MemoryStore) (hlimit : store.config.maxMemoryBytes = none)
    (calls : List Call) (htime : InTime calls)
    (hinserted : ∀ call ∈ calls, call.inserted = true → call.op.insertable = true) :
    results observe calls store =
      EagerStore.results (calls.filter fun call => !call.inserted) (.of store) :=
  results_eager htime hinserted hlimit fun _ _ => rfl

/-- A key expires between two reads, with calls inserted before and after. -/
def probedCalls : List Call := [
  ⟨.set "k" [1], .at 0, false⟩, ⟨.expireAtUnix "k" 10, .at 0, false⟩, ⟨.stats, .at 5, true⟩,
  ⟨.get "k", .at 10000000000, false⟩, ⟨.cleanupExpired, .at 10000000000, true⟩,
  ⟨.stats, .at 20000000000, false⟩]

theorem lazy_eq_eager_probed :
    results observe probedCalls (.withConfig .default) =
      EagerStore.results (probedCalls.filter fun call => !call.inserted)
        (.of (.withConfig .default)) :=
  lazy_eq_eager (.withConfig .default) rfl probedCalls (by decide) (by decide)

/-- A result without the counter of cleaned entries. -/
def withoutCounter : StoreResult → StoreResult
  | .stats stats => .stats { stats with expiredKeysCleaned := 0 }
  | result => result

/-- The count that an operation returns. -/
def counted : StoreResult → Option Nat
  | .count count => some count
  | _ => none

/-- The eager store has nothing for `cleanup_expired` to count. -/
theorem cleanup_counts_lingering :
    ¬ ∀ store : MemoryStore, store.config.maxMemoryBytes = none → ∀ calls, InTime calls →
      (∀ call ∈ calls, call.inserted = true → call.op.insertable = true) →
      results (fun _ => withoutCounter) calls store =
        EagerStore.results (calls.filter fun call => !call.inserted) (.of store) := by
  intro hall
  have hresults := hall (.withConfig .default) rfl
    [⟨.set "k" [1], .at 0, false⟩, ⟨.expireAtUnix "k" 10, .at 0, false⟩,
      ⟨.cleanupExpired, .at 20000000000, false⟩] (by decide) (by decide)
  have hcount := congrArg (List.filterMap counted) hresults
  revert hcount
  decide +kernel

end AerugoCache.Storage
