import AerugoCache.StoreRun

/-!
# What an operation does to a key

Under any configuration an operation acts on a key in one of a few ways, `KeyAct`, and
the cell of the key after it is a function of the cell before it and of the clock.
Two things come on top: a write that is out of memory acts as a read of its key, and
a write that evicts takes other keys away.
-/

namespace AerugoCache.Storage

open AerugoCache.ByteText AerugoCache.KeyedMap

inductive KeyAct where
  | pass
  | look
  | put (value : Bytes)
  | drop
  | date (deadline : SystemTime)
  | undate
  | push (side : Side) (values : List Bytes)
  | pop (side : Side)
deriving DecidableEq, Repr

/-- What an operation does to the key `k`. -/
def StoreOp.act (env : OpEnv) (k : String) : StoreOp → KeyAct
  | .set key value => if k = key then .put value else .pass
  | .get key | .ttl key | .lrange key _ _ => if k = key then .look else .pass
  | .del keys => if k ∈ keys then .drop else .pass
  | .exists keys => if k ∈ keys then .look else .pass
  | .expire key seconds =>
      if k = key then .date (MemoryStore.expireDeadline env.expireNow seconds) else .pass
  | .expireAtUnix key unixSeconds =>
      if k = key then .date (MemoryStore.unixDeadline env.expireNow unixSeconds) else .pass
  | .persist key => if k = key then .undate else .pass
  | .lpush key values => if k = key then .push .left values else .pass
  | .rpush key values => if k = key then .push .right values else .pass
  | .lpop key => if k = key then .pop .left else .pass
  | .rpop key => if k = key then .pop .right else .pass
  | .cleanupExpired | .stats => .look
  | .inspectKeys limit => if limit = 0 then .pass else .look

/-- What an act makes of what is left of the cell. -/
def KeyAct.update (now : SystemTime) : KeyAct → Option Entry → Option Entry
  | .pass, cell | .look, cell => cell
  | .put value, _ => some { value := .string value, expiresAt := none }
  | .drop, _ => none
  | .date deadline, cell => expireCell now deadline cell
  | .undate, cell => persistCell cell
  | .push side values, cell => (pushEntry side values cell).or cell
  | .pop side, cell => popCell side cell

/-- What an act makes of a cell: only `pass` leaves an expired entry. -/
def KeyAct.cell (now : SystemTime) (act : KeyAct) (cell : Option Entry) : Option Entry :=
  match act with
  | .pass => cell
  | act => act.update now (visible now cell)

theorem KeyAct.cell_of_ne_pass {act : KeyAct} (h : act ≠ .pass) (now : SystemTime)
    (cell : Option Entry) : act.cell now cell = act.update now (visible now cell) := by
  cases act with
  | pass => exact absurd rfl h
  | _ => rfl

/-! ### Writes -/

/-- The entry that an operation writes, under the memory limit. -/
def StoreOp.written (env : OpEnv) (store : MemoryStore) : StoreOp → Option (String × Entry)
  | .set key value => some (key, { value := .string value, expiresAt := none })
  | .lpush key values =>
      (pushEntry .left values (visible env.now (store.entries.lookup key))).map fun entry =>
        (key, entry)
  | .rpush key values =>
      (pushEntry .right values (visible env.now (store.entries.lookup key))).map fun entry =>
        (key, entry)
  | _ => none

/-- The memory limit admits the entry: it fits, or it can be made to fit. -/
def Admits (config : StoreConfig) (entries : Entries) (key : String) (entry : Entry) : Prop :=
  ∀ maxMemoryBytes, config.maxMemoryBytes = some maxMemoryBytes →
    maxMemoryBytes < estimatedMemoryBytes (entries.insert key entry) →
      config.evictionPolicy = .allKeysRandom ∧
        entryEstimatedMemoryBytes key entry ≤ maxMemoryBytes

def StoreResult.IsOutOfMemory : StoreResult → Prop
  | .written (.error .outOfMemory) | .length (.error .outOfMemory) => True
  | _ => False

theorem admits_of_unlimited {config : StoreConfig} (hlimit : config.maxMemoryBytes = none)
    (entries : Entries) (key : String) (entry : Entry) : Admits config entries key entry := by
  intro maxMemoryBytes hmax
  rw [hlimit] at hmax
  cases hmax

namespace MemoryStore

/-- A write is accepted where the limit admits its entry, whatever is picked. -/
theorem commitWrite_result (store : MemoryStore) (picks : Picks) (key : String)
    (old : Option Entry) (entry : Entry) :
    (Admits store.config store.entries key entry →
        (store.commitWrite picks key old entry).1 = .ok ()) ∧
      (¬ Admits store.config store.entries key entry →
        (store.commitWrite picks key old entry).1 = .error .outOfMemory) := by
  have hkey : (store.entries.insert key entry).lookup key = some entry := by
    rw [lookup_insert_eq, if_pos rfl]
  unfold commitWrite enforceMemoryLimit
  cases hmax : store.config.maxMemoryBytes with
  | none => simp [Admits, hmax]
  | some maxMemoryBytes =>
    by_cases hfits : estimatedMemoryBytes (store.entries.insert key entry) ≤ maxMemoryBytes
    · have hadmits : Admits store.config store.entries key entry := by
        intro max hsome hover
        rw [hmax] at hsome
        cases hsome
        exact absurd hfits (Nat.not_le_of_lt hover)
      simp [hfits, hadmits]
    · have hadmits : Admits store.config store.entries key entry ↔
          store.config.evictionPolicy = .allKeysRandom ∧
            entryEstimatedMemoryBytes key entry ≤ maxMemoryBytes := by
        simp [Admits, hmax, Nat.lt_of_not_le hfits]
      rw [hadmits]
      cases hpolicy : store.config.evictionPolicy with
      | noEviction => simp [hfits]
      | allKeysRandom =>
        have houtcome := evictUntilWithinLimit_outcome (store.entries.insert key entry)
          maxMemoryBytes (some key) picks
        simp only [hfits, if_false, true_and]
        rcases hevict : evictUntilWithinLimit (store.entries.insert key entry) maxMemoryBytes
          (some key) picks with ⟨error | evicted, after⟩
        · rw [hevict] at houtcome
          obtain ⟨rfl, -, current, evicted, hevicted, hover, honly⟩ := houtcome
          have halone := weigh_of_only_key entryEstimatedMemoryBytes
            (hevicted.lookup_protected.trans hkey) fun k hk => (Option.some.inj (honly k hk)).symm
          refine ⟨fun hsmall => ?_, fun _ => rfl⟩
          rw [estimatedMemoryBytes, halone] at hover
          exact absurd hsmall (Nat.not_le_of_lt hover)
        · rw [hevict] at houtcome
          obtain ⟨hevicted, hwithin⟩ := houtcome
          refine ⟨fun _ => rfl, fun hlarge => ?_⟩
          have hle := le_weigh entryEstimatedMemoryBytes (hevicted.lookup_protected.trans hkey)
          exact absurd (Nat.le_trans hle hwithin) hlarge

theorem commitWrite_admitted {store : MemoryStore} {key : String} {entry : Entry}
    (h : Admits store.config store.entries key entry) (picks : Picks) (old : Option Entry) :
    ∃ evicted, Evicted (store.entries.insert key entry) (some key)
      (store.commitWrite picks key old entry).2.entries evicted := by
  have hok := (store.commitWrite_result picks key old entry).1 h
  obtain ⟨evicted, hevicted, -⟩ := commitWrite_ok (Prod.ext hok rfl)
  exact ⟨evicted, hevicted⟩

/-- Without a limit every write is accepted. -/
theorem commitWrite_unlimited {store : MemoryStore} (hlimit : store.config.maxMemoryBytes = none)
    (picks : Picks) (key : String) (old : Option Entry) (entry : Entry) :
    (store.commitWrite picks key old entry).1 = .ok () :=
  (store.commitWrite_result picks key old entry).1 (admits_of_unlimited hlimit _ key entry)

/-- Without a limit, and under a limit that evicts nothing, the entry just goes in. -/
theorem commitWrite_noEviction {store : MemoryStore}
    (hconfig : store.config.maxMemoryBytes = none ∨ store.config.evictionPolicy = .noEviction)
    {key : String} {entry : Entry} (h : Admits store.config store.entries key entry)
    (picks : Picks) (old : Option Entry) :
    (store.commitWrite picks key old entry).2.entries = store.entries.insert key entry := by
  unfold commitWrite enforceMemoryLimit
  cases hmax : store.config.maxMemoryBytes with
  | none => simp
  | some maxMemoryBytes =>
    by_cases hfits : estimatedMemoryBytes (store.entries.insert key entry) ≤ maxMemoryBytes
    · simp [hfits]
    · have hrandom := (h maxMemoryBytes hmax (Nat.lt_of_not_le hfits)).1
      rcases hconfig with hnone | hkeep
      · rw [hmax] at hnone
        cases hnone
      · rw [hkeep] at hrandom
        cases hrandom

theorem commitWrite_refused {store : MemoryStore} {key : String} {entry : Entry}
    (h : ¬ Admits store.config store.entries key entry) (picks : Picks) (old : Option Entry) :
    (store.commitWrite picks key old entry).2 = (store.withCell key old).recordRejectedWrite :=
  commitWrite_error (Prod.ext ((store.commitWrite_result picks key old entry).2 h) rfl)

end MemoryStore

/-! ### What an eviction can take -/

/-- The victims of a longer loop come after those of a shorter one. -/
theorem evictLoop_isPrefix {maxMemoryBytes : Nat} {protectedKey : Option String} {picks : Picks}
    {round : Nat} {entries after : Entries} {evicted all : List (String × Entry)}
    (h : evictLoop maxMemoryBytes protectedKey picks round entries evicted = (.ok all, after)) :
    evicted <+: all := by
  fun_induction evictLoop maxMemoryBytes protectedKey picks round entries evicted with
  | case1 round entries evicted hover hpick => cases h
  | case2 round entries evicted hover key hpick entry ih =>
    exact (List.prefix_append _ _).trans (ih h)
  | case3 round entries evicted hfits =>
    cases h
    exact List.prefix_rfl

/-- Every candidate can be picked. -/
theorem exists_pick (order : KeyOrder) {entries : Entries} {protectedKey : Option String}
    {key : String} (hkey : key ∈ entries) (hprotected : protectedKey ≠ some key) :
    ∃ nanos, pickEvictionKey order nanos entries protectedKey = some ⟨key, hkey⟩ := by
  have hcandidate : key ∈ evictionCandidates order entries protectedKey :=
    mem_evictionCandidates.mpr ⟨hkey, hprotected⟩
  obtain ⟨index, hindex, hget⟩ := List.mem_iff_getElem.mp hcandidate
  have hlength : (evictionCandidates order entries protectedKey).length ≠ 0 := by omega
  refine ⟨index, ?_⟩
  simp only [pickEvictionKey, dif_neg hlength, Option.some.injEq, Subtype.mk.injEq]
  simpa [Nat.mod_eq_of_lt hindex] using hget

/-- An eviction can take any other key first. -/
theorem MemoryStore.exists_evicted {store : MemoryStore} {maxMemoryBytes : Nat}
    (hmax : store.config.maxMemoryBytes = some maxMemoryBytes) {key : String} {entry : Entry}
    (hadmits : Admits store.config store.entries key entry)
    (hover : maxMemoryBytes < estimatedMemoryBytes (store.entries.insert key entry))
    {other : String} {kept : Entry} (hother : other ≠ key)
    (hkept : store.entries.lookup other = some kept) :
    ∃ picks later after,
      enforceMemoryLimit (store.entries.insert key entry) store.config (some key) picks =
        (.ok ((other, kept) :: later), after) := by
  have hlookup : (store.entries.insert key entry).lookup other = some kept := by
    rw [lookup_insert_eq, if_neg hother, hkept]
  have hunprotected : some key ≠ some other := fun h => hother (Option.some.inj h).symm
  obtain ⟨nanos, hpick⟩ :=
    exists_pick .ascending (Finmap.mem_of_lookup_eq_some hlookup) hunprotected
  have hpolicy := (hadmits maxMemoryBytes hmax hover).1
  have hok := (store.commitWrite_result (.constant nanos) key none entry).1 hadmits
  have henforce : enforceMemoryLimit (store.entries.insert key entry) store.config (some key)
      (.constant nanos) = evictLoop maxMemoryBytes (some key) (.constant nanos) 1
        ((store.entries.insert key entry).erase other) [(other, kept)] := by
    rw [enforceMemoryLimit, hmax]
    simp only [Nat.not_le_of_lt hover, if_false, hpolicy, evictUntilWithinLimit]
    rw [evictLoop, if_pos hover]
    simp only [Picks.constant, hpick, List.nil_append, hlookup, Option.get_some]
  unfold MemoryStore.commitWrite at hok
  split at hok
  · rename_i evicted after hevicted
    have hloop := henforce.symm.trans hevicted
    obtain ⟨later, rfl⟩ := evictLoop_isPrefix hloop
    exact ⟨.constant nanos, later, after, hevicted⟩
  · cases hok

/-! ### One step -/

/-- The operation writes nothing, or an entry that the memory limit admits. -/
def StoreOp.Admitted (op : StoreOp) (env : OpEnv) (store : MemoryStore) : Prop :=
  ∀ key entry, op.written env store = some (key, entry) →
    Admits store.config store.entries key entry

theorem StoreOp.admitted_of_written {op : StoreOp} {env : OpEnv} {store : MemoryStore}
    {key : String} {entry : Entry}
    (h : op.written env store = some (key, entry)) :
    op.Admitted env store ↔ Admits store.config store.entries key entry := by
  simp [StoreOp.Admitted, h]

theorem StoreOp.admitted_of_not_written {op : StoreOp} {env : OpEnv} {store : MemoryStore}
    (h : op.written env store = none) : op.Admitted env store := by
  intro key entry hsome
  rw [h] at hsome
  cases hsome

/-- Without a limit every write is admitted. -/
theorem StoreOp.admitted_of_unlimited {store : MemoryStore}
    (hlimit : store.config.maxMemoryBytes = none) (op : StoreOp) (env : OpEnv) :
    op.Admitted env store :=
  fun key entry _ => admits_of_unlimited hlimit store.entries key entry

/-- `lpush` or `rpush`. -/
def StoreOp.pushOn (side : Side) (key : String) (values : List Bytes) : StoreOp :=
  match side with
  | .left => .lpush key values
  | .right => .rpush key values

theorem StoreOp.run_pushOn (side : Side) (key : String) (values : List Bytes) (env : OpEnv)
    (store : MemoryStore) :
    (StoreOp.pushOn side key values).run env store =
      (store.push env.picks env.now key values side).map .length id := by
  cases side <;> rfl

theorem StoreOp.act_pushOn (side : Side) (key : String) (values : List Bytes) (env : OpEnv)
    (k : String) :
    (StoreOp.pushOn side key values).act env k = if k = key then .push side values else .pass := by
  cases side <;> rfl

/-- What writes an entry is a `set`, or a push that finds no string. -/
theorem StoreOp.written_some {op : StoreOp} {env : OpEnv} {store : MemoryStore} {key : String}
    {entry : Entry} (h : op.written env store = some (key, entry)) :
    (∃ value, op = .set key value ∧ entry = { value := .string value, expiresAt := none }) ∨
      ∃ side values, op = .pushOn side key values ∧
        pushEntry side values (visible env.now (store.entries.lookup key)) = some entry := by
  cases op with
  | set k value =>
    obtain ⟨rfl, rfl⟩ := Prod.mk.inj (Option.some.inj h)
    exact Or.inl ⟨value, rfl, rfl⟩
  | lpush k values =>
    obtain ⟨pushed, hpushed, hpair⟩ := Option.map_eq_some_iff.mp h
    obtain ⟨rfl, rfl⟩ := Prod.mk.inj hpair
    exact Or.inr ⟨.left, values, rfl, hpushed⟩
  | rpush k values =>
    obtain ⟨pushed, hpushed, hpair⟩ := Option.map_eq_some_iff.mp h
    obtain ⟨rfl, rfl⟩ := Prod.mk.inj hpair
    exact Or.inr ⟨.right, values, rfl, hpushed⟩
  | _ => cases h

/-- A write commits its entry. -/
theorem StoreOp.run_of_written {op : StoreOp} {env : OpEnv} {store : MemoryStore} {key : String}
    {entry : Entry} (h : op.written env store = some (key, entry)) :
    (op.run env store).2 =
        (store.commitWrite env.picks key (visible env.now (store.entries.lookup key)) entry).2 ∧
      ((op.run env store).1.IsOutOfMemory ↔
        (store.commitWrite env.picks key (visible env.now (store.entries.lookup key)) entry).1 =
          .error .outOfMemory) := by
  rcases StoreOp.written_some h with ⟨value, rfl, rfl⟩ | ⟨side, values, rfl, hentry⟩
  · change (store.set env.picks env.now key value).2 = _ ∧
      ((StoreResult.written (store.set env.picks env.now key value).1).IsOutOfMemory ↔ _)
    rw [MemoryStore.set_eq]
    refine ⟨rfl, ?_⟩
    rcases (store.commitWrite env.picks key (visible env.now (store.entries.lookup key))
      { value := .string value, expiresAt := none }).1 with (_ | _) | _ <;>
      simp [StoreResult.IsOutOfMemory]
  · have hresult : ∀ result : Except StoreError Unit,
        (StoreResult.length (result.map fun _ => entry.value.listItems)).IsOutOfMemory ↔
          result = .error .outOfMemory := by
      intro result
      rcases result with (_ | _) | _ <;> simp [Except.map, StoreResult.IsOutOfMemory]
    rw [StoreOp.run_pushOn, MemoryStore.push_eq, hentry]
    exact ⟨rfl, hresult _⟩

/-- What a write makes of a key. -/
theorem StoreOp.cell_of_written {op : StoreOp} {env : OpEnv} {store : MemoryStore} {key : String}
    {entry : Entry} (h : op.written env store = some (key, entry)) (k : String) :
    (op.act env k = .pass ↔ k ≠ key) ∧
      (op.act env k).cell env.now (store.entries.lookup k) =
        (store.entries.insert key entry).lookup k := by
  rw [lookup_insert_eq]
  rcases StoreOp.written_some h with ⟨value, rfl, rfl⟩ | ⟨side, values, rfl, hentry⟩
  · by_cases hk : k = key
    · subst hk
      simp [StoreOp.act, KeyAct.cell, KeyAct.update]
    · simp [StoreOp.act, hk, KeyAct.cell]
  · rw [StoreOp.act_pushOn]
    by_cases hk : k = key
    · subst hk
      simp [KeyAct.cell, KeyAct.update, hentry]
    · simp [hk, KeyAct.cell]

/-- An operation that writes no entry is not out of memory. -/
theorem StoreOp.not_outOfMemory {op : StoreOp} {env : OpEnv} {store : MemoryStore}
    (h : op.written env store = none) : ¬ (op.run env store).1.IsOutOfMemory := by
  have hpush : ∀ side key values, (pushEntry side values (visible env.now
      (store.entries.lookup key))).map (fun entry => (key, entry)) = none →
      ¬ (StoreResult.length
        (store.push env.picks env.now key values side).1).IsOutOfMemory := by
    intro side key values hwritten
    rw [MemoryStore.push_eq, Option.map_eq_none_iff.mp hwritten]
    exact fun h => h
  cases op with
  | set key value => cases h
  | lpush key values => exact hpush .left key values h
  | rpush key values => exact hpush .right key values h
  | _ => exact fun h => h

theorem lookup_assign_act (entries : Entries) (now : SystemTime) (key : String) (act : KeyAct)
    (k : String) :
    (assign entries key (act.cell now (entries.lookup key))).lookup k =
      (if k = key then act else .pass).cell now (entries.lookup k) := by
  rw [lookup_assign]
  by_cases hk : k = key
  · rw [if_pos hk, if_pos hk, hk]
  · rw [if_neg hk, if_neg hk]
    rfl

/-- An operation that writes no entry acts on every key. -/
theorem StoreOp.lookup_of_not_written {op : StoreOp} {env : OpEnv} {store : MemoryStore}
    (h : op.written env store = none) (k : String) :
    (op.run env store).2.entries.lookup k =
      (op.act env k).cell env.now (store.entries.lookup k) := by
  have hassign := fun key act => lookup_assign_act store.entries env.now key act k
  have hpush : ∀ side key values, (pushEntry side values (visible env.now
      (store.entries.lookup key))).map (fun entry => (key, entry)) = none →
      (store.push env.picks env.now key values side).2.entries.lookup k =
        (if k = key then KeyAct.push side values else .pass).cell env.now
          (store.entries.lookup k) := by
    intro side key values hwritten
    rw [Option.map_eq_none_iff] at hwritten
    rw [MemoryStore.push_eq, hwritten, ← hassign]
    simp only [KeyAct.cell, KeyAct.update, hwritten, Option.none_or]
    rfl
  cases op with
  | set key value => cases h
  | get key =>
    change (store.get env.now key).2.entries.lookup k = _
    rw [MemoryStore.get_store]
    exact hassign key .look
  | del keys =>
    change (store.del env.now keys).2.entries.lookup k = _
    rw [MemoryStore.del_store, MemoryStore.withEntries_entries, lookup_foldl_erase]
    simp only [StoreOp.act]
    split <;> rfl
  | «exists» keys =>
    change (store.exists env.now keys).2.entries.lookup k = _
    rw [MemoryStore.exists_store, MemoryStore.withEntries_entries, lookup_foldl_removeIfExpired]
    simp only [StoreOp.act]
    split <;> rfl
  | expire key seconds =>
    change (store.expireAt env.now key _).2.entries.lookup k = _
    rw [MemoryStore.expireAt_eq]
    exact hassign key (.date _)
  | expireAtUnix key unixSeconds =>
    change (store.expireAt env.now key _).2.entries.lookup k = _
    rw [MemoryStore.expireAt_eq]
    exact hassign key (.date _)
  | ttl key =>
    change (store.ttl env.now key).2.entries.lookup k = _
    rw [MemoryStore.ttl_store]
    exact hassign key .look
  | persist key =>
    change (store.persist env.now key).2.entries.lookup k = _
    rw [MemoryStore.persist_eq]
    exact hassign key .undate
  | cleanupExpired =>
    change (store.cleanupExpired env.now).2.entries.lookup k = _
    rw [MemoryStore.cleanupExpired_entries, lookup_retainUnexpired]
    rfl
  | lpush key values => exact hpush .left key values h
  | rpush key values => exact hpush .right key values h
  | lpop key =>
    change (store.pop env.now key .left).2.entries.lookup k = _
    rw [MemoryStore.pop_eq]
    exact hassign key (.pop .left)
  | rpop key =>
    change (store.pop env.now key .right).2.entries.lookup k = _
    rw [MemoryStore.pop_eq]
    exact hassign key (.pop .right)
  | lrange key start stop =>
    change (store.lrange env.now key start stop).2.entries.lookup k = _
    rw [MemoryStore.lrange_store]
    exact hassign key .look
  | stats =>
    change (store.stats env.now).2.entries.lookup k = _
    rw [MemoryStore.stats_entries, lookup_retainUnexpired]
    rfl
  | inspectKeys limit =>
    change (store.inspectKeys env.order env.now limit).2.entries.lookup k = _
    rw [MemoryStore.inspectKeys_entries]
    simp only [StoreOp.act]
    split
    · rfl
    · exact lookup_retainUnexpired _ _ _

/-- A step is out of memory exactly where its write is not admitted. -/
theorem StoreOp.isOutOfMemory_iff (op : StoreOp) (env : OpEnv) (store : MemoryStore) :
    (op.run env store).1.IsOutOfMemory ↔ ¬ op.Admitted env store := by
  rcases hwritten : op.written env store with _ | ⟨key, entry⟩
  · have hadmitted : op.Admitted env store := StoreOp.admitted_of_not_written hwritten
    exact iff_of_false (StoreOp.not_outOfMemory hwritten) (fun h => h hadmitted)
  · obtain ⟨hok, herror⟩ := store.commitWrite_result env.picks key
      (visible env.now (store.entries.lookup key)) entry
    rw [(StoreOp.run_of_written hwritten).2, StoreOp.admitted_of_written hwritten]
    constructor
    · intro hresult hadmits
      rw [hok hadmits] at hresult
      cases hresult
    · exact herror

/-- **An admitted step** acts on every key, but an eviction may take a key it passes by. -/
theorem StoreOp.lookup_of_admitted {op : StoreOp} {env : OpEnv} {store : MemoryStore}
    (h : op.Admitted env store) (k : String) :
    (op.run env store).2.entries.lookup k =
        (op.act env k).cell env.now (store.entries.lookup k) ∨
      op.act env k = .pass ∧ (op.run env store).2.entries.lookup k = none := by
  rcases hwritten : op.written env store with _ | ⟨key, entry⟩
  · exact Or.inl (StoreOp.lookup_of_not_written hwritten k)
  · obtain ⟨evicted, hevicted⟩ := MemoryStore.commitWrite_admitted (h key entry hwritten)
      env.picks (visible env.now (store.entries.lookup key))
    obtain ⟨hpass, hcell⟩ := StoreOp.cell_of_written hwritten k
    rw [(StoreOp.run_of_written hwritten).1, hcell]
    by_cases hk : k = key
    · subst hk
      exact Or.inl hevicted.lookup_protected
    · cases hlookup : (store.commitWrite env.picks key
        (visible env.now (store.entries.lookup key)) entry).2.entries.lookup k with
      | none => exact Or.inr ⟨hpass.mpr hk, rfl⟩
      | some kept =>
        refine Or.inl ?_
        rw [← hlookup, hevicted.lookup_of_mem (Finmap.mem_of_lookup_eq_some hlookup)]

/-- **A refused step** only drops the entry of its key if that has expired. -/
theorem StoreOp.lookup_of_refused {op : StoreOp} {env : OpEnv} {store : MemoryStore}
    (h : ¬ op.Admitted env store) (k : String) :
    (op.run env store).2.entries.lookup k =
      if op.act env k = .pass then store.entries.lookup k
      else visible env.now (store.entries.lookup k) := by
  rcases hwritten : op.written env store with _ | ⟨key, entry⟩
  · exact absurd (StoreOp.admitted_of_not_written hwritten) h
  · have hrefused : ¬ Admits store.config store.entries key entry := by
      rw [← StoreOp.admitted_of_written hwritten]
      exact h
    rw [(StoreOp.run_of_written hwritten).1, MemoryStore.commitWrite_refused hrefused,
      MemoryStore.recordRejectedWrite_entries, MemoryStore.withCell_entries, lookup_assign]
    have hpass := (StoreOp.cell_of_written hwritten k).1
    by_cases hk : k = key
    · rw [if_pos hk, if_neg (fun h => hpass.mp h hk), hk]
    · rw [if_neg hk, if_pos (hpass.mpr hk)]

/-- Without a limit, and under a limit that evicts nothing, a step takes no other key. -/
theorem StoreOp.lookup_of_noEviction {op : StoreOp} {env : OpEnv} {store : MemoryStore}
    (hconfig : store.config.maxMemoryBytes = none ∨ store.config.evictionPolicy = .noEviction)
    (h : op.Admitted env store) (k : String) :
    (op.run env store).2.entries.lookup k =
      (op.act env k).cell env.now (store.entries.lookup k) := by
  rcases hwritten : op.written env store with _ | ⟨key, entry⟩
  · exact StoreOp.lookup_of_not_written hwritten k
  · rw [(StoreOp.run_of_written hwritten).1, (StoreOp.cell_of_written hwritten k).2,
      MemoryStore.commitWrite_noEviction hconfig (h key entry hwritten)]

/-- Without a limit a step acts on every key. -/
theorem StoreOp.lookup_of_unlimited {store : MemoryStore}
    (hlimit : store.config.maxMemoryBytes = none) (op : StoreOp) (env : OpEnv) (k : String) :
    (op.run env store).2.entries.lookup k =
      (op.act env k).cell env.now (store.entries.lookup k) :=
  StoreOp.lookup_of_noEviction (Or.inl hlimit) (op.admitted_of_unlimited hlimit env) k

end AerugoCache.Storage
