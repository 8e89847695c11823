import Mathlib.Algebra.BigOperators.Group.Finset.Piecewise
import AerugoCache.StoreSteps

/-!
# The balance of the keys

A key comes into the map by a write that is accepted, and leaves it in four ways: an
operation removes it, an eviction takes it, a sweep drops its expired entry, or an
operation on the key itself finds the entry expired and drops it.  The balance of these
holds over every run.  The counters of the store count the rejected writes, the evicted
keys and what the sweeps drop; what an operation drops under its own key they do not
count.
-/

namespace AerugoCache.Storage

open AerugoCache.ByteText AerugoCache.KeyedMap

/-! ### What one operation does to the number of keys -/

instance (result : StoreResult) : Decidable result.IsOutOfMemory :=
  match result with
  | .written (.error .outOfMemory) | .length (.error .outOfMemory) => isTrue trivial
  | .written (.error .wrongType) | .written (.ok _) | .length (.error .wrongType)
  | .length (.ok _) | .value _ | .count _ | .done _ | .ttl _ | .values _ | .stats _ | .rows _ =>
      isFalse fun h => h

/-- The act takes an entry that has not expired away: it deletes the key, sets a deadline
    in the past, or pops the last item. -/
def KeyAct.removes (now : SystemTime) : KeyAct → Option Entry → Bool
  | .drop, some _ => true
  | .date deadline, some _ => decide (deadline ≤ now)
  | .pop side, some ⟨.list list, _⟩ => (popValue side list).2.isEmpty
  | _, _ => false

/-- The operations that drop every expired entry. -/
def StoreOp.sweeps : StoreOp → Bool
  | .cleanupExpired | .stats => true
  | .inspectKeys limit => decide (limit ≠ 0)
  | _ => false

namespace StoreOp

/-- The keys that an accepted write creates. -/
def created (op : StoreOp) (env : OpEnv) (store : MemoryStore) : Nat :=
  match op.written env store with
  | some (key, _) =>
      if visible env.now (store.entries.lookup key) = none ∧ ¬ (op.run env store).1.IsOutOfMemory
      then 1 else 0
  | none => 0

/-- The keys that a deletion, a deadline in the past or an emptying pop removes. -/
def removed (op : StoreOp) (env : OpEnv) (store : MemoryStore) : Nat :=
  (store.entries.keys.filter fun key =>
    (op.act env key).removes env.now (visible env.now (store.entries.lookup key)) = true).card

/-- The keys gone although the operation is not about them: a committed eviction. -/
def evicted (op : StoreOp) (env : OpEnv) (store : MemoryStore) : Nat :=
  (store.entries.keys.filter fun key =>
    op.act env key = .pass ∧ (op.run env store).2.entries.lookup key = none).card

/-- The entries dropped because their deadline has passed. -/
def expired (op : StoreOp) (env : OpEnv) (store : MemoryStore) : Nat :=
  (store.entries.keys.filter fun key =>
    op.act env key ≠ .pass ∧ visible env.now (store.entries.lookup key) = none).card

def rejected (op : StoreOp) (env : OpEnv) (store : MemoryStore) : Nat :=
  if (op.run env store).1.IsOutOfMemory then 1 else 0

/-- The expired entries that a sweep drops. -/
def swept (op : StoreOp) (env : OpEnv) (store : MemoryStore) : Nat :=
  if op.sweeps then op.expired env store else 0

/-- The expired entries that an operation drops under its own keys. -/
def purged (op : StoreOp) (env : OpEnv) (store : MemoryStore) : Nat :=
  if op.sweeps then 0 else op.expired env store

theorem swept_add_purged (op : StoreOp) (env : OpEnv) (store : MemoryStore) :
    op.swept env store + op.purged env store = op.expired env store := by
  unfold swept purged
  split <;> simp

end StoreOp

/-! ### The balance of one key -/

/-- An act without a write makes nothing of nothing. -/
theorem StoreOp.update_none {op : StoreOp} {env : OpEnv} {store : MemoryStore} {k : String}
    (hcell : visible env.now (store.entries.lookup k) = none)
    (h : ∀ entry, op.written env store ≠ some (k, entry)) :
    (op.act env k).update env.now none = none := by
  have hpush : ∀ side key values, (∀ entry, (pushEntry side values
      (visible env.now (store.entries.lookup key))).map (fun entry => (key, entry)) ≠
        some (k, entry)) →
      (if k = key then KeyAct.push side values else .pass).update env.now none = none := by
    intro side key values hwritten
    by_cases hk : k = key
    · subst hk
      rw [hcell] at hwritten
      exact absurd rfl (hwritten _)
    · rw [if_neg hk]
      rfl
  cases op with
  | set key value =>
    simp only [StoreOp.act]
    split
    · rename_i hk
      subst hk
      exact absurd rfl (h _)
    · rfl
  | lpush key values => exact hpush .left key values h
  | rpush key values => exact hpush .right key values h
  | expire | expireAtUnix =>
    simp only [StoreOp.act]
    split <;> simp [KeyAct.update, expireCell]
  | cleanupExpired | stats => rfl
  | get | del | «exists» | ttl | persist | lpop | rpop | lrange | inspectKeys =>
    simp only [StoreOp.act]
    split <;> rfl

/-- A live entry is left by an act that does not remove it. -/
theorem KeyAct.update_some (act : KeyAct) (now : SystemTime) (entry : Entry) :
    (act.update now (some entry)).isSome = !act.removes now (some entry) := by
  rcases entry with ⟨value | list, expiresAt⟩
  · cases act with
    | date deadline =>
      simp only [KeyAct.update, expireCell, KeyAct.removes]
      split <;> simp_all
    | _ => rfl
  · cases act with
    | date deadline =>
      simp only [KeyAct.update, expireCell, KeyAct.removes]
      split <;> simp_all
    | pop side =>
      simp only [KeyAct.update, popCell, KeyAct.removes]
      split <;> simp_all
    | _ => rfl

theorem KeyAct.removes_none (act : KeyAct) (now : SystemTime) : act.removes now none = false := by
  cases act <;> rfl

/-- A write removes nothing. -/
theorem StoreOp.removes_of_written {op : StoreOp} {env : OpEnv} {store : MemoryStore}
    {written : String × Entry} (h : op.written env store = some written) (k : String)
    (cell : Option Entry) : (op.act env k).removes env.now cell = false := by
  cases op with
  | set | lpush | rpush =>
    simp only [StoreOp.act]
    split <;> cases cell <;> rfl
  | _ => cases h

/-- The operation creates the key. -/
def StoreOp.Creates (op : StoreOp) (env : OpEnv) (store : MemoryStore) (k : String) : Prop :=
  (op.written env store).map Prod.fst = some k ∧
    visible env.now (store.entries.lookup k) = none ∧ ¬ (op.run env store).1.IsOutOfMemory

instance (op : StoreOp) (env : OpEnv) (store : MemoryStore) (k : String) :
    Decidable (op.Creates env store k) :=
  inferInstanceAs (Decidable (_ ∧ _ ∧ _))

theorem StoreOp.Creates.written {op : StoreOp} {env : OpEnv} {store : MemoryStore} {k : String}
    (h : op.Creates env store k) : ∃ entry, op.written env store = some (k, entry) := by
  obtain ⟨⟨key, entry⟩, hwritten, rfl⟩ := Option.map_eq_some_iff.mp h.1
  exact ⟨entry, hwritten⟩

/-- A key is in the map after a step, or left it, exactly if it was there or is created. -/
def StoreOp.Balances (op : StoreOp) (env : OpEnv) (store : MemoryStore) (k : String) : Prop :=
  (if ((op.run env store).2.entries.lookup k).isSome then 1 else 0) +
      (if (store.entries.lookup k).isSome ∧
        (op.act env k).removes env.now (visible env.now (store.entries.lookup k)) = true
        then 1 else 0) +
      (if (store.entries.lookup k).isSome ∧ op.act env k = .pass ∧
        (op.run env store).2.entries.lookup k = none then 1 else 0) +
      (if (store.entries.lookup k).isSome ∧ op.act env k ≠ .pass ∧
        visible env.now (store.entries.lookup k) = none then 1 else 0) =
    (if (store.entries.lookup k).isSome then 1 else 0) +
      (if op.Creates env store k then 1 else 0)

section

variable {op : StoreOp} {env : OpEnv} {store : MemoryStore} {k : String}

/-- Where the operation is not about the key, only an eviction takes it. -/
theorem StoreOp.balances_of_pass (hact : op.act env k = .pass) : op.Balances env store k := by
  have hcreates : ¬ op.Creates env store k := by
    intro hcreates
    obtain ⟨entry, hwritten⟩ := hcreates.written
    exact (StoreOp.cell_of_written hwritten k).1.mp hact rfl
  have hlookup : (op.run env store).2.entries.lookup k = store.entries.lookup k ∨
      (op.run env store).2.entries.lookup k = none := by
    by_cases hadmitted : op.Admitted env store
    · have hcell := StoreOp.lookup_of_admitted hadmitted k
      rw [hact] at hcell
      exact hcell.imp id And.right
    · have hcell := StoreOp.lookup_of_refused hadmitted k
      rw [if_pos hact] at hcell
      exact Or.inl hcell
  have hremoves : ∀ cell, KeyAct.pass.removes env.now cell = false := fun _ => rfl
  unfold StoreOp.Balances
  rcases hlookup with hkept | hgone
  · simp only [hkept, hact, hremoves, hcreates]
    cases store.entries.lookup k <;> simp
  · simp only [hgone, hact, hremoves, hcreates]
    cases store.entries.lookup k <;> simp

/-- Where the store shows nothing, an admitted step makes an entry by creating the key. -/
theorem StoreOp.creates_iff (hadmitted : op.Admitted env store) (hact : op.act env k ≠ .pass)
    (hcell : visible env.now (store.entries.lookup k) = none) :
    op.Creates env store k ↔ ((op.act env k).update env.now none).isSome = true := by
  constructor
  · intro hcreates
    obtain ⟨entry, hwritten⟩ := hcreates.written
    have hwrites := (StoreOp.cell_of_written hwritten k).2
    rw [KeyAct.cell_of_ne_pass hact, hcell, lookup_insert_eq, if_pos rfl] at hwrites
    rw [hwrites]
    rfl
  · intro hsome
    have hfits : ¬ (op.run env store).1.IsOutOfMemory := by
      rw [StoreOp.isOutOfMemory_iff]
      exact fun h => h hadmitted
    refine ⟨?_, hcell, hfits⟩
    by_contra hother
    have hnone := StoreOp.update_none hcell fun entry hwritten => hother (by rw [hwritten]; rfl)
    rw [hnone] at hsome
    cases hsome

theorem StoreOp.balances_of_admitted (hadmitted : op.Admitted env store)
    (hact : op.act env k ≠ .pass) : op.Balances env store k := by
  have hlookup := (StoreOp.lookup_of_admitted hadmitted k).resolve_right fun h => hact h.1
  rw [KeyAct.cell_of_ne_pass hact] at hlookup
  unfold StoreOp.Balances
  rw [hlookup]
  cases hcell : visible env.now (store.entries.lookup k) with
  | none =>
    simp [KeyAct.removes_none, hact, StoreOp.creates_iff hadmitted hact hcell, Nat.add_comm]
  | some entry =>
    have hheld := (visible_eq_some.mp hcell).1
    have hcreates : ¬ op.Creates env store k := by
      rintro ⟨-, hnone, -⟩
      rw [hcell] at hnone
      cases hnone
    rw [KeyAct.update_some]
    cases (op.act env k).removes env.now (some entry) <;> simp [hact, hcreates, hheld]

/-- A refused step drops the entry of its key if that has expired. -/
theorem StoreOp.balances_of_refused (hrefused : ¬ op.Admitted env store)
    (hact : op.act env k ≠ .pass) : op.Balances env store k := by
  have hlookup := StoreOp.lookup_of_refused hrefused k
  rw [if_neg hact] at hlookup
  have hrejected := (op.isOutOfMemory_iff env store).mpr hrefused
  have hcreates : ¬ op.Creates env store k := fun h => h.2.2 hrejected
  have hremoves : (op.act env k).removes env.now (visible env.now (store.entries.lookup k)) =
      false := by
    rcases hwritten : op.written env store with _ | written
    · exact absurd hrejected (StoreOp.not_outOfMemory hwritten)
    · exact StoreOp.removes_of_written hwritten k _
  unfold StoreOp.Balances
  rw [hlookup, hremoves]
  cases hcell : visible env.now (store.entries.lookup k) with
  | none => simp [hact, hcreates]
  | some entry => simp [hcreates, (visible_eq_some.mp hcell).1]

end

theorem StoreOp.balance_key (op : StoreOp) (env : OpEnv) (store : MemoryStore) (k : String) :
    op.Balances env store k := by
  by_cases hact : op.act env k = .pass
  · exact StoreOp.balances_of_pass hact
  · by_cases hadmitted : op.Admitted env store
    · exact StoreOp.balances_of_admitted hadmitted hact
    · exact StoreOp.balances_of_refused hadmitted hact

/-! ### The balance of a step -/

/-- The keys of a map with a property, counted over more keys. -/
theorem card_filter_keys (entries : Entries) {keys : Finset String} (hkeys : entries.keys ⊆ keys)
    (p : String → Prop) [DecidablePred p] :
    (entries.keys.filter p).card =
      ∑ k ∈ keys, if (entries.lookup k).isSome ∧ p k then 1 else 0 := by
  rw [← Finset.card_filter]
  congr 1
  ext k
  simp only [Finset.mem_filter, Finmap.mem_keys, Finmap.lookup_isSome]
  constructor
  · rintro ⟨hmem, hp⟩
    exact ⟨hkeys (Finmap.mem_keys.mpr hmem), hmem, hp⟩
  · rintro ⟨-, hmem, hp⟩
    exact ⟨hmem, hp⟩

theorem size_eq_sum (entries : Entries) {keys : Finset String} (hkeys : entries.keys ⊆ keys) :
    size entries = ∑ k ∈ keys, if (entries.lookup k).isSome then 1 else 0 := by
  have hall := card_filter_keys entries hkeys fun _ => True
  simpa only [Finset.filter_true, card_keys, and_true] using hall

theorem StoreOp.created_eq_sum (op : StoreOp) (env : OpEnv) (store : MemoryStore)
    {keys : Finset String} (hbefore : store.entries.keys ⊆ keys)
    (hafter : (op.run env store).2.entries.keys ⊆ keys) :
    op.created env store = ∑ k ∈ keys, if op.Creates env store k then 1 else 0 := by
  unfold StoreOp.created
  split
  · rename_i key entry hwritten
    have hcreates : ∀ k, op.Creates env store k ↔ k = key ∧
        (visible env.now (store.entries.lookup key) = none ∧
          ¬ (op.run env store).1.IsOutOfMemory) := by
      intro k
      simp only [StoreOp.Creates, hwritten, Option.map_some, Option.some.injEq]
      constructor
      · rintro ⟨rfl, hrest⟩
        exact ⟨rfl, hrest⟩
      · rintro ⟨rfl, hrest⟩
        exact ⟨rfl, hrest⟩
    rw [Finset.sum_eq_single key]
    · simp [hcreates]
    · intro k _ hne
      simp [hcreates, hne]
    · -- a key that is in neither map is not created
      intro hkey
      have hbalance := op.balance_key env store key
      have hlookup : store.entries.lookup key = none := by
        rw [Finmap.lookup_eq_none, ← Finmap.mem_keys]
        exact fun h => hkey (hbefore h)
      have hlookup' : (op.run env store).2.entries.lookup key = none := by
        rw [Finmap.lookup_eq_none, ← Finmap.mem_keys]
        exact fun h => hkey (hafter h)
      simp only [StoreOp.Balances, hlookup, hlookup'] at hbalance
      simpa using hbalance.symm
  · rename_i hwritten
    have hcreates : ∀ k, ¬ op.Creates env store k := by
      intro k hcreates
      obtain ⟨entry, hsome⟩ := hcreates.written
      rw [hwritten] at hsome
      cases hsome
    simp [hcreates]

/-- **The balance of a step.** -/
theorem StoreOp.balance (op : StoreOp) (env : OpEnv) (store : MemoryStore) :
    size (op.run env store).2.entries + op.removed env store + op.evicted env store +
        op.expired env store =
      size store.entries + op.created env store := by
  have hbefore : store.entries.keys ⊆ store.entries.keys ∪ (op.run env store).2.entries.keys :=
    Finset.subset_union_left
  have hafter : (op.run env store).2.entries.keys ⊆
      store.entries.keys ∪ (op.run env store).2.entries.keys :=
    Finset.subset_union_right
  rw [size_eq_sum _ hbefore, size_eq_sum _ hafter, op.created_eq_sum env store hbefore hafter]
  simp only [StoreOp.removed, StoreOp.evicted, StoreOp.expired, card_filter_keys _ hbefore]
  simp only [← Finset.sum_add_distrib]
  apply Finset.sum_congr rfl
  intro k _
  exact op.balance_key env store k

/-! ### The counters -/

namespace MemoryStore

theorem recordExpired_counters (store : MemoryStore) (count : Nat) :
    (store.recordExpired count).counters =
      { store.counters with
        expiredKeysCleaned := store.counters.expiredKeysCleaned + count } := by
  unfold recordExpired
  split
  · rename_i hzero
    rw [hzero]
    rfl
  · rfl

theorem recordEvicted_counters (store : MemoryStore) (count : Nat) :
    (store.recordEvicted count).counters =
      { store.counters with evictedKeys := store.counters.evictedKeys + count } := by
  unfold recordEvicted
  split
  · rename_i hzero
    rw [hzero]
    rfl
  · rfl

end MemoryStore

theorem mem_restoreEvicted {evicted : List (String × Entry)} {key : String} {entries : Entries}
    (h : key ∈ entries ∨ key ∈ evicted.map Prod.fst) : key ∈ restoreEvicted entries evicted := by
  induction evicted generalizing entries with
  | nil => exact h.resolve_right List.not_mem_nil
  | cons victim evicted ih =>
    change key ∈ restoreEvicted (entries.insert victim.1 victim.2) evicted
    apply ih
    rw [Finmap.mem_insert]
    rcases h with hentries | hevicted
    · exact Or.inl (Or.inr hentries)
    · rcases List.mem_cons.mp hevicted with heq | hrest
      · exact Or.inl (Or.inl heq)
      · exact Or.inr hrest

/-- The evicted keys are the ones that left the map. -/
theorem Evicted.length_eq {original current : Entries} {protectedKey : Option String}
    {evicted : List (String × Entry)} (h : Evicted original protectedKey current evicted) :
    evicted.length = (original.keys.filter fun key => current.lookup key = none).card := by
  rw [← List.length_map Prod.fst, ← List.toFinset_card_of_nodup h.distinct]
  congr 1
  ext key
  simp only [List.mem_toFinset, Finset.mem_filter, Finmap.mem_keys, Finmap.lookup_eq_none]
  constructor
  · intro hkey
    refine ⟨?_, ?_⟩
    · rw [← h.restored]
      exact mem_restoreEvicted (Or.inr hkey)
    · obtain ⟨victim, hvictim, rfl⟩ := List.mem_map.mp hkey
      exact h.gone victim hvictim
  · rintro ⟨hbefore, hgone⟩
    by_contra hkey
    have hlookup : original.lookup key = current.lookup key := by
      rw [← h.restored, lookup_restoreEvicted]
      intro victim hvictim heq
      exact hkey (List.mem_map.mpr ⟨victim, hvictim, heq⟩)
    rw [Finmap.lookup_eq_none.mpr hgone, Finmap.lookup_eq_none] at hlookup
    exact hlookup hbefore

/-- A write counts what it evicts, or itself as rejected. -/
theorem MemoryStore.commitWrite_counters (store : MemoryStore) (picks : Picks) (key : String)
    (old : Option Entry) (entry : Entry) :
    (Admits store.config store.entries key entry → ∃ evicted,
        Evicted (store.entries.insert key entry) (some key)
          (store.commitWrite picks key old entry).2.entries evicted ∧
        (store.commitWrite picks key old entry).2.counters =
          { store.counters with
            evictedKeys := store.counters.evictedKeys + evicted.length }) ∧
      (¬ Admits store.config store.entries key entry →
        (store.commitWrite picks key old entry).2.counters =
          { store.counters with rejectedWrites := store.counters.rejectedWrites + 1 }) := by
  constructor
  · intro hadmits
    have hok := (store.commitWrite_result picks key old entry).1 hadmits
    unfold MemoryStore.commitWrite at hok ⊢
    split
    · rename_i evicted entries henforce
      refine ⟨evicted, ?_, recordEvicted_counters _ _⟩
      rw [recordEvicted_entries, withEntries_entries]
      exact (enforceMemoryLimit_ok henforce).1
    · rename_i henforce
      rw [henforce] at hok
      cases hok
  · intro hrefused
    rw [commitWrite_refused hrefused]
    rfl

/-- An operation that writes nothing and sweeps nothing leaves the counters. -/
theorem StoreOp.counters_of_not_written {op : StoreOp} {env : OpEnv} {store : MemoryStore}
    (hwritten : op.written env store = none) (hsweeps : op.sweeps = false) :
    (op.run env store).2.counters = store.counters := by
  have hpush : ∀ side key values, (pushEntry side values (visible env.now
      (store.entries.lookup key))).map (fun entry => (key, entry)) = none →
      (store.push env.picks env.now key values side).2.counters = store.counters := by
    intro side key values hnone
    rw [Option.map_eq_none_iff] at hnone
    rw [MemoryStore.push_eq, hnone]
    rfl
  have hkept : ∀ {after : MemoryStore} {entries : Entries}, after = store.withEntries entries →
      after.counters = store.counters := by
    rintro _ _ rfl
    rfl
  cases op with
  | set => cases hwritten
  | cleanupExpired | stats => cases hsweeps
  | get key => exact hkept (store.get_store env.now key)
  | del keys => exact hkept (store.del_store env.now keys)
  | «exists» keys => exact hkept (store.exists_store env.now keys)
  | expire key seconds => exact hkept (congrArg Prod.snd (store.expireAt_eq env.now key _))
  | expireAtUnix key unixSeconds =>
    exact hkept (congrArg Prod.snd (store.expireAt_eq env.now key _))
  | ttl key => exact hkept (store.ttl_store env.now key)
  | persist key => exact hkept (congrArg Prod.snd (store.persist_eq env.now key))
  | lpush key values => exact hpush .left key values hwritten
  | rpush key values => exact hpush .right key values hwritten
  | lpop key => exact hkept (congrArg Prod.snd (store.pop_eq env.now key .left))
  | rpop key => exact hkept (congrArg Prod.snd (store.pop_eq env.now key .right))
  | lrange key start stop => exact hkept (store.lrange_store env.now key start stop)
  | inspectKeys limit =>
    obtain rfl : limit = 0 := by simpa [StoreOp.sweeps] using hsweeps
    rfl

/-- A sweep counts the entries it drops. -/
theorem StoreOp.counters_of_sweeps {op : StoreOp} (env : OpEnv) (store : MemoryStore)
    (hsweeps : op.sweeps = true) :
    (op.run env store).2.counters =
      { store.counters with
        expiredKeysCleaned := store.counters.expiredKeysCleaned +
          (size store.entries - size (op.run env store).2.entries) } := by
  cases op with
  | cleanupExpired =>
    have hentries : (StoreOp.cleanupExpired.run env store).2.entries = _ :=
      store.cleanupExpired_entries env.now
    rw [hentries]
    exact MemoryStore.recordExpired_counters _ _
  | stats =>
    have hentries : (StoreOp.stats.run env store).2.entries = _ := store.stats_entries env.now
    rw [hentries]
    exact MemoryStore.recordExpired_counters _ _
  | inspectKeys limit =>
    have hlimit : limit ≠ 0 := by simpa [StoreOp.sweeps] using hsweeps
    have hentries : ((StoreOp.inspectKeys limit).run env store).2.entries = _ :=
      store.inspectKeys_entries env.order env.now limit
    rw [hentries, if_neg hlimit]
    change (store.inspectKeys env.order env.now limit).2.counters = _
    rw [MemoryStore.inspectKeys, if_neg hlimit]
    exact MemoryStore.recordExpired_counters _ _
  | _ => cases hsweeps

theorem StoreOp.act_of_sweeps {op : StoreOp} (hsweeps : op.sweeps = true) (env : OpEnv)
    (k : String) : op.act env k = .look := by
  cases op with
  | cleanupExpired | stats => rfl
  | inspectKeys limit =>
    have hlimit : limit ≠ 0 := by simpa [StoreOp.sweeps] using hsweeps
    simp [StoreOp.act, hlimit]
  | _ => cases hsweeps

theorem StoreOp.written_of_sweeps {op : StoreOp} (hsweeps : op.sweeps = true) (env : OpEnv)
    (store : MemoryStore) : op.written env store = none := by
  cases op with
  | cleanupExpired | stats | inspectKeys => rfl
  | _ => cases hsweeps

/-- Where every key that is passed by keeps its cell, nothing is evicted. -/
theorem StoreOp.evicted_eq_zero {op : StoreOp} {env : OpEnv} {store : MemoryStore}
    (h : ∀ k, op.act env k = .pass →
      (op.run env store).2.entries.lookup k = store.entries.lookup k) :
    op.evicted env store = 0 := by
  rw [StoreOp.evicted, Finset.card_eq_zero, Finset.filter_eq_empty_iff]
  rintro k hk ⟨hact, hgone⟩
  rw [h k hact] at hgone
  exact Finmap.lookup_eq_none.mp hgone (Finmap.mem_keys.mp hk)

/-- An operation that writes nothing evicts nothing. -/
theorem StoreOp.evicted_of_not_written {op : StoreOp} {env : OpEnv} {store : MemoryStore}
    (hwritten : op.written env store = none) : op.evicted env store = 0 := by
  apply StoreOp.evicted_eq_zero
  intro k hact
  rw [StoreOp.lookup_of_not_written hwritten, hact]
  rfl

/-- A sweep drops the expired entries and nothing else. -/
theorem StoreOp.size_of_sweeps {op : StoreOp} (env : OpEnv) (store : MemoryStore)
    (hsweeps : op.sweeps = true) :
    size (op.run env store).2.entries + op.expired env store = size store.entries := by
  have hbalance := op.balance env store
  have hwritten := StoreOp.written_of_sweeps hsweeps env store
  have hremoved : op.removed env store = 0 := by
    rw [StoreOp.removed, Finset.card_eq_zero, Finset.filter_eq_empty_iff]
    intro k _
    rw [StoreOp.act_of_sweeps hsweeps]
    cases visible env.now (store.entries.lookup k) <;> simp [KeyAct.removes]
  have hcreated : op.created env store = 0 := by
    rw [StoreOp.created, hwritten]
  rw [hremoved, StoreOp.evicted_of_not_written hwritten, hcreated] at hbalance
  omega

/-- The keys that an accepted write evicts. -/
theorem StoreOp.evicted_of_written {op : StoreOp} {env : OpEnv} {store : MemoryStore}
    {key : String} {entry : Entry} (hwritten : op.written env store = some (key, entry))
    {evicted : List (String × Entry)}
    (h : Evicted (store.entries.insert key entry) (some key) (op.run env store).2.entries evicted) :
    op.evicted env store = evicted.length := by
  rw [h.length_eq, StoreOp.evicted]
  congr 1
  ext k
  simp only [Finset.mem_filter, Finmap.mem_keys, Finmap.mem_insert,
    (StoreOp.cell_of_written hwritten k).1]
  constructor
  · rintro ⟨hmem, -, hgone⟩
    exact ⟨Or.inr hmem, hgone⟩
  · rintro ⟨hmem, hgone⟩
    have hne : k ≠ key := by
      rintro rfl
      rw [h.lookup_protected, lookup_insert_eq, if_pos rfl] at hgone
      cases hgone
    exact ⟨hmem.resolve_left hne, hne, hgone⟩

/-- **The counters of a step.** -/
theorem StoreOp.run_counters (op : StoreOp) (env : OpEnv) (store : MemoryStore) :
    (op.run env store).2.counters =
      { expiredKeysCleaned := store.counters.expiredKeysCleaned + op.swept env store
        evictedKeys := store.counters.evictedKeys + op.evicted env store
        rejectedWrites := store.counters.rejectedWrites + op.rejected env store } := by
  rcases hwritten : op.written env store with _ | ⟨key, entry⟩
  · have hevicted := StoreOp.evicted_of_not_written hwritten
    have hrejected : op.rejected env store = 0 := by
      rw [StoreOp.rejected, if_neg (StoreOp.not_outOfMemory hwritten)]
    rw [hevicted, hrejected]
    cases hsweeps : op.sweeps with
    | false =>
      rw [StoreOp.counters_of_not_written hwritten hsweeps, StoreOp.swept, hsweeps]
      rfl
    | true =>
      have hsize := StoreOp.size_of_sweeps env store hsweeps
      rw [StoreOp.counters_of_sweeps env store hsweeps, StoreOp.swept, hsweeps, ← hsize]
      simp
  · have hswept : op.swept env store = 0 := by
      have hsweeps : op.sweeps = false := by
        rw [← Bool.not_eq_true]
        intro hsweeps
        rw [StoreOp.written_of_sweeps hsweeps] at hwritten
        cases hwritten
      rw [StoreOp.swept, hsweeps]
      rfl
    obtain ⟨hrun, hresult⟩ := StoreOp.run_of_written hwritten
    obtain ⟨hok, herror⟩ := store.commitWrite_counters env.picks key
      (visible env.now (store.entries.lookup key)) entry
    have hrejects : (op.run env store).1.IsOutOfMemory ↔
        ¬ Admits store.config store.entries key entry := by
      rw [StoreOp.isOutOfMemory_iff, StoreOp.admitted_of_written hwritten]
    by_cases hadmits : Admits store.config store.entries key entry
    · obtain ⟨evicted, hevicted, hcounters⟩ := hok hadmits
      rw [← hrun] at hevicted hcounters
      rw [hcounters, hswept, StoreOp.evicted_of_written hwritten hevicted, StoreOp.rejected,
        if_neg (by rw [hrejects]; exact not_not_intro hadmits)]
      rfl
    · have hkept : op.evicted env store = 0 := by
        have hrefused : ¬ op.Admitted env store := by
          rw [StoreOp.admitted_of_written hwritten]
          exact hadmits
        apply StoreOp.evicted_eq_zero
        intro k hact
        rw [StoreOp.lookup_of_refused hrefused, if_pos hact]
      rw [hrun, herror hadmits, hswept, hkept, StoreOp.rejected, if_pos (hrejects.mpr hadmits)]
      rfl

/-! ### Runs -/

/-- The total of a count over the operations of a run. -/
def total (count : StoreOp → OpEnv → MemoryStore → Nat) :
    List (StoreOp × OpEnv) → MemoryStore → Nat
  | [], _ => 0
  | (op, env) :: ops, store => count op env store + total count ops (op.run env store).2

theorem runOps_counters (ops : List (StoreOp × OpEnv)) (store : MemoryStore) :
    (runOps ops store).counters =
      { expiredKeysCleaned := store.counters.expiredKeysCleaned + total StoreOp.swept ops store
        evictedKeys := store.counters.evictedKeys + total StoreOp.evicted ops store
        rejectedWrites := store.counters.rejectedWrites + total StoreOp.rejected ops store } := by
  induction ops generalizing store with
  | nil => rfl
  | cons event ops ih =>
    obtain ⟨op, env⟩ := event
    change (runOps ops (op.run env store).2).counters = _
    rw [ih, op.run_counters env store]
    simp only [total, Nat.add_assoc]

theorem runOps_balance (ops : List (StoreOp × OpEnv)) (store : MemoryStore) :
    size (runOps ops store).entries + total StoreOp.removed ops store +
        total StoreOp.evicted ops store + total StoreOp.expired ops store =
      size store.entries + total StoreOp.created ops store := by
  induction ops generalizing store with
  | nil => rfl
  | cons event ops ih =>
    obtain ⟨op, env⟩ := event
    have hstep := op.balance env store
    have hrest := ih (op.run env store).2
    change size (runOps ops (op.run env store).2).entries + _ + _ + _ = _
    simp only [total]
    omega

theorem total_expired (ops : List (StoreOp × OpEnv)) (store : MemoryStore) :
    total StoreOp.swept ops store + total StoreOp.purged ops store =
      total StoreOp.expired ops store := by
  induction ops generalizing store with
  | nil => rfl
  | cons event ops ih =>
    obtain ⟨op, env⟩ := event
    have hstep := op.swept_add_purged env store
    have hrest := ih (op.run env store).2
    simp only [total]
    omega

/-- The operation is no sweep and finds an expired entry under one of its keys. -/
def StoreOp.MeetsExpired (op : StoreOp) (env : OpEnv) (store : MemoryStore) : Prop :=
  op.sweeps = false ∧ ∃ key entry, op.act env key ≠ .pass ∧
    store.entries.lookup key = some entry ∧ entry.isExpired env.now = true

/-- No operation of the run finds an expired entry under one of its keys, sweeps apart. -/
def NoneMeetsExpired : List (StoreOp × OpEnv) → MemoryStore → Prop
  | [], _ => True
  | (op, env) :: ops, store =>
      ¬ op.MeetsExpired env store ∧ NoneMeetsExpired ops (op.run env store).2

theorem StoreOp.purged_eq_zero (op : StoreOp) (env : OpEnv) (store : MemoryStore) :
    op.purged env store = 0 ↔ ¬ op.MeetsExpired env store := by
  unfold StoreOp.purged StoreOp.MeetsExpired
  cases op.sweeps with
  | true => simp
  | false =>
    simp only [Bool.false_eq_true, if_false, StoreOp.expired, Finset.card_eq_zero,
      Finset.filter_eq_empty_iff, true_and]
    constructor
    · rintro hnone ⟨key, entry, hact, hentry, hexpired⟩
      refine hnone (Finmap.mem_keys.mpr (Finmap.mem_of_lookup_eq_some hentry)) ⟨hact, ?_⟩
      rw [hentry, visible_some, if_pos hexpired]
    · rintro hmeets key hkey ⟨hact, hgone⟩
      obtain ⟨entry, hentry⟩ := Option.isSome_iff_exists.mp
        (Finmap.lookup_isSome.mpr (Finmap.mem_keys.mp hkey))
      apply hmeets
      refine ⟨key, entry, hact, hentry, ?_⟩
      rw [hentry, visible_some] at hgone
      by_contra hlive
      rw [if_neg hlive] at hgone
      cases hgone

theorem total_purged_eq_zero (ops : List (StoreOp × OpEnv)) (store : MemoryStore) :
    total StoreOp.purged ops store = 0 ↔ NoneMeetsExpired ops store := by
  induction ops generalizing store with
  | nil => exact iff_of_true rfl trivial
  | cons event ops ih =>
    obtain ⟨op, env⟩ := event
    simp only [total, NoneMeetsExpired, Nat.add_eq_zero_iff, ih, op.purged_eq_zero]

/-- The figures of a report balance like the map and the counters it is taken from. -/
theorem MemoryStore.stats_totals (store : MemoryStore) (now : SystemTime) :
    (store.stats now).1.totalKeys + (store.stats now).1.expiredKeysCleaned =
        size store.entries + store.counters.expiredKeysCleaned ∧
      (store.stats now).1.evictedKeys = store.counters.evictedKeys := by
  have hsweeps : StoreOp.stats.sweeps = true := rfl
  have hsize := StoreOp.size_of_sweeps ⟨now, now, .ascending, .constant 0⟩ store hsweeps
  have hentries : (StoreOp.stats.run ⟨now, now, .ascending, .constant 0⟩ store).2.entries = _ :=
    store.stats_entries now
  rw [hentries] at hsize
  have htotal : (store.stats now).1.totalKeys = size (retainUnexpired store.entries now) :=
    buildStats_totalKeys _ _
  have hcounters : (store.stats now).1.expiredKeysCleaned = store.counters.expiredKeysCleaned +
      (size store.entries - size (retainUnexpired store.entries now)) := by
    change (MemoryStore.recordExpired _ _).counters.expiredKeysCleaned = _
    rw [recordExpired_counters]
  refine ⟨?_, ?_⟩
  · rw [htotal, hcounters]
    omega
  · change (MemoryStore.recordExpired _ _).counters.evictedKeys = _
    rw [recordExpired_counters]

/-- Every entry that expires is counted once, and so is every evicted key and every
    rejected write; the keys created are the keys there are, the keys removed, and the keys
    counted as evicted or expired, in the store and in each of its reports. -/
def Conserved (config : StoreConfig) (ops : List (StoreOp × OpEnv)) : Prop :=
  let start := MemoryStore.withConfig config
  let store := runOps ops start
  store.counters.expiredKeysCleaned = total StoreOp.expired ops start ∧
    store.counters.evictedKeys = total StoreOp.evicted ops start ∧
    store.counters.rejectedWrites = total StoreOp.rejected ops start ∧
    total StoreOp.created ops start = size store.entries + total StoreOp.removed ops start +
      store.counters.evictedKeys + store.counters.expiredKeysCleaned ∧
    ∀ now, total StoreOp.created ops start =
      (store.stats now).1.totalKeys + total StoreOp.removed ops start +
        (store.stats now).1.evictedKeys + (store.stats now).1.expiredKeysCleaned

/-- **Conservation of keys.**  A run from the empty store conserves the count of its keys
    exactly if none of its operations finds an expired entry under its own key: what is
    dropped there is not counted. -/
theorem conserved_iff (config : StoreConfig) (ops : List (StoreOp × OpEnv)) :
    Conserved config ops ↔ NoneMeetsExpired ops (.withConfig config) := by
  have hbalance := runOps_balance ops (.withConfig config)
  have hexpired := total_expired ops (.withConfig config)
  have hstart : size (MemoryStore.withConfig config).entries = 0 := rfl
  have hcleaned : (runOps ops (.withConfig config)).counters.expiredKeysCleaned =
      total StoreOp.swept ops (.withConfig config) := by
    rw [runOps_counters]
    exact Nat.zero_add _
  have hevicted : (runOps ops (.withConfig config)).counters.evictedKeys =
      total StoreOp.evicted ops (.withConfig config) := by
    rw [runOps_counters]
    exact Nat.zero_add _
  have hrejected : (runOps ops (.withConfig config)).counters.rejectedWrites =
      total StoreOp.rejected ops (.withConfig config) := by
    rw [runOps_counters]
    exact Nat.zero_add _
  rw [← total_purged_eq_zero]
  constructor
  · rintro ⟨hall, -⟩
    omega
  · intro hpurged
    refine ⟨?_, hevicted, hrejected, ?_, ?_⟩
    · omega
    · omega
    · intro now
      obtain ⟨hkeys, hreported⟩ := (runOps ops (.withConfig config)).stats_totals now
      omega

/-- A `GET` finds its key expired and drops the entry uncounted. -/
theorem purge_uncounted : ¬ ∀ config ops, Conserved config ops := by
  intro hall
  obtain ⟨hcleaned, -⟩ := hall .default
    [(.set "k" [1], .at 0), (.expireAtUnix "k" 10, .at 0), (.get "k", .at 20000000000)]
  revert hcleaned
  decide +kernel

end AerugoCache.Storage
