import AerugoCache.StoreCells

/-!
# The memory limit

`enforce_memory_limit` and the two writes that call it.  An eviction takes keys out
of the map one at a time; `Evicted` is what it preserves: putting the evicted entries
back gives the map it started from.  From it come the two exits.  A write that is
accepted leaves a map within the limit, and a write that is rejected leaves the map
as it was.
-/

namespace AerugoCache.Storage

open AerugoCache.ByteText AerugoCache.KeyedMap

/-! ### The eviction loop -/

/-- `current` is `original` without the `evicted` entries, which do not include the
    protected key. -/
structure Evicted (original : Entries) (protectedKey : Option String) (current : Entries)
    (evicted : List (String × Entry)) : Prop where
  restored : restoreEvicted current evicted = original
  gone : ∀ victim ∈ evicted, victim.1 ∉ current
  unprotected : ∀ victim ∈ evicted, protectedKey ≠ some victim.1
  distinct : (evicted.map Prod.fst).Nodup

theorem restoreEvicted_append (entries : Entries) (evicted : List (String × Entry))
    (key : String) (entry : Entry) :
    restoreEvicted entries (evicted ++ [(key, entry)]) =
      (restoreEvicted entries evicted).insert key entry := by
  simp [restoreEvicted]

theorem lookup_restoreEvicted {evicted : List (String × Entry)} {k : String}
    (h : ∀ victim ∈ evicted, victim.1 ≠ k) (entries : Entries) :
    (restoreEvicted entries evicted).lookup k = entries.lookup k := by
  induction evicted generalizing entries with
  | nil => rfl
  | cons victim evicted ih =>
    have hne : k ≠ victim.1 := (h victim List.mem_cons_self).symm
    rw [restoreEvicted, List.foldl_cons]
    change (restoreEvicted (entries.insert victim.1 victim.2) evicted).lookup k = _
    rw [ih fun v hv => h v (List.mem_cons_of_mem _ hv), lookup_insert_eq, if_neg hne]

theorem restoreEvicted_erase {evicted : List (String × Entry)} {key : String}
    (h : ∀ victim ∈ evicted, victim.1 ≠ key) (entries : Entries) :
    restoreEvicted (entries.erase key) evicted = (restoreEvicted entries evicted).erase key := by
  induction evicted generalizing entries with
  | nil => rfl
  | cons victim evicted ih =>
    have hne : victim.1 ≠ key := h victim List.mem_cons_self
    have hcomm : (entries.erase key).insert victim.1 victim.2 =
        (entries.insert victim.1 victim.2).erase key := by
      apply Finmap.ext_lookup
      intro k
      simp only [lookup_insert_eq, lookup_erase_eq]
      by_cases hk : k = victim.1
      · simp [hk, hne]
      · simp [hk]
    change restoreEvicted ((entries.erase key).insert victim.1 victim.2) evicted =
      (restoreEvicted (entries.insert victim.1 victim.2) evicted).erase key
    rw [hcomm, ih fun v hv => h v (List.mem_cons_of_mem _ hv)]

namespace Evicted

variable {original current : Entries} {protectedKey : Option String}
  {evicted : List (String × Entry)}

theorem start (original : Entries) (protectedKey : Option String) :
    Evicted original protectedKey original [] where
  restored := rfl
  gone := by simp
  unprotected := by simp
  distinct := List.nodup_nil

theorem ne_of_mem (h : Evicted original protectedKey current evicted) {key : String}
    (hkey : key ∈ current) : ∀ victim ∈ evicted, victim.1 ≠ key := by
  intro victim hvictim heq
  exact h.gone victim hvictim (heq ▸ hkey)

/-- Evicting one more key. -/
theorem step (h : Evicted original protectedKey current evicted) {key : String} {entry : Entry}
    (hentry : current.lookup key = some entry) (hkey : protectedKey ≠ some key) :
    Evicted original protectedKey (current.erase key) (evicted ++ [(key, entry)]) := by
  have hmem : key ∈ current := Finmap.mem_of_lookup_eq_some hentry
  have hne := h.ne_of_mem hmem
  have hheld : (restoreEvicted current evicted).lookup key = some entry := by
    rw [lookup_restoreEvicted hne, hentry]
  constructor
  · rw [restoreEvicted_append, restoreEvicted_erase hne, insert_erase_self,
      insert_of_lookup_some hheld, h.restored]
  · intro victim hvictim
    rcases List.mem_append.mp hvictim with hold | hnew
    · intro hin
      exact h.gone victim hold (Finmap.mem_erase.mp hin).2
    · rw [List.mem_singleton.mp hnew]
      exact Finmap.notMem_erase_self
  · intro victim hvictim
    rcases List.mem_append.mp hvictim with hold | hnew
    · exact h.unprotected victim hold
    · rw [List.mem_singleton.mp hnew]
      exact hkey
  · rw [List.map_append, List.nodup_append]
    refine ⟨h.distinct, List.nodup_singleton _, ?_⟩
    intro k hk k' hk'
    obtain ⟨victim, hvictim, rfl⟩ := List.mem_map.mp hk
    simp only [List.map_cons, List.map_nil, List.mem_singleton] at hk'
    exact hk' ▸ hne victim hvictim

/-- What is still in the map is as it was. -/
theorem lookup_of_mem (h : Evicted original protectedKey current evicted) {key : String}
    (hkey : key ∈ current) : original.lookup key = current.lookup key := by
  rw [← h.restored, lookup_restoreEvicted (h.ne_of_mem hkey)]

theorem lookup_protected {key : String} (h : Evicted original (some key) current evicted) :
    current.lookup key = original.lookup key := by
  rw [← h.restored, lookup_restoreEvicted]
  intro victim hvictim heq
  exact h.unprotected victim hvictim (congrArg some heq.symm)

end Evicted

theorem pickEvictionKey_unprotected {order : KeyOrder} {nanos : Nat} {entries : Entries}
    {protectedKey : Option String} {key : { key : String // key ∈ entries }}
    (h : pickEvictionKey order nanos entries protectedKey = some key) :
    protectedKey ≠ some key.1 := by
  simp only [pickEvictionKey] at h
  split at h
  · cases h
  · cases h
    exact (mem_evictionCandidates.mp (List.get_mem _ _)).2

theorem pickEvictionKey_none {order : KeyOrder} {nanos : Nat} {entries : Entries}
    {protectedKey : Option String}
    (h : pickEvictionKey order nanos entries protectedKey = none) {key : String}
    (hkey : key ∈ entries) : protectedKey = some key := by
  simp only [pickEvictionKey] at h
  split at h
  · rename_i hlength
    have hnil := List.eq_nil_of_length_eq_zero hlength
    by_contra hne
    have hcandidate : key ∈ evictionCandidates order entries protectedKey :=
      mem_evictionCandidates.mpr ⟨hkey, hne⟩
    rw [hnil] at hcandidate
    cases hcandidate
  · cases h

/-- The two ways an eviction from `original` ends: within the limit, or with
    nothing but the protected key left over the limit and everything put back. -/
def EvictionOutcome (maxMemoryBytes : Nat) (protectedKey : Option String) (original : Entries) :
    Except StoreError (List (String × Entry)) × Entries → Prop
  | (.ok evicted, entries) =>
      Evicted original protectedKey entries evicted ∧
        estimatedMemoryBytes entries ≤ maxMemoryBytes
  | (.error error, entries) =>
      error = .outOfMemory ∧ entries = original ∧
        ∃ current evicted, Evicted original protectedKey current evicted ∧
          maxMemoryBytes < estimatedMemoryBytes current ∧ ∀ key ∈ current, protectedKey = some key

theorem evictLoop_outcome {original : Entries} {maxMemoryBytes : Nat}
    {protectedKey : Option String} (picks : Picks) (round : Nat) (entries : Entries)
    (evicted : List (String × Entry)) (h : Evicted original protectedKey entries evicted) :
    EvictionOutcome maxMemoryBytes protectedKey original
      (evictLoop maxMemoryBytes protectedKey picks round entries evicted) := by
  fun_induction evictLoop maxMemoryBytes protectedKey picks round entries evicted with
  | case1 round entries evicted hover hpick =>
    exact ⟨rfl, h.restored, entries, evicted, h, hover, fun key => pickEvictionKey_none hpick⟩
  | case2 round entries evicted hover key hpick entry ih =>
    exact ih (h.step (Option.some_get _).symm (pickEvictionKey_unprotected hpick))
  | case3 round entries evicted hfits =>
    exact ⟨h, Nat.le_of_not_lt hfits⟩

theorem evictUntilWithinLimit_outcome (entries : Entries) (maxMemoryBytes : Nat)
    (protectedKey : Option String) (picks : Picks) :
    EvictionOutcome maxMemoryBytes protectedKey entries
      (evictUntilWithinLimit entries maxMemoryBytes protectedKey picks) :=
  evictLoop_outcome picks 0 entries [] (.start entries protectedKey)

/-- What `enforce_memory_limit` does to a map: nothing is evicted without a limit,
    an accepted map is within the limit, a rejected one is put back. -/
theorem enforceMemoryLimit_ok {entries after : Entries} {config : StoreConfig}
    {protectedKey : Option String} {picks : Picks} {evicted : List (String × Entry)}
    (h : enforceMemoryLimit entries config protectedKey picks = (.ok evicted, after)) :
    Evicted entries protectedKey after evicted ∧
      ∀ maxMemoryBytes, config.maxMemoryBytes = some maxMemoryBytes →
        estimatedMemoryBytes after ≤ maxMemoryBytes := by
  unfold enforceMemoryLimit at h
  split at h
  · rename_i hnone
    cases h
    exact ⟨.start entries protectedKey, fun m hm => by simp [hnone] at hm⟩
  · rename_i maxMemoryBytes hsome
    split at h
    · rename_i hfits
      cases h
      refine ⟨.start entries protectedKey, fun m hm => ?_⟩
      rw [hsome] at hm
      cases hm
      exact hfits
    · split at h
      · cases h
      · have houtcome := evictUntilWithinLimit_outcome entries maxMemoryBytes protectedKey picks
        rw [h] at houtcome
        refine ⟨houtcome.1, fun m hm => ?_⟩
        rw [hsome] at hm
        cases hm
        exact houtcome.2

theorem enforceMemoryLimit_error {entries after : Entries} {config : StoreConfig}
    {protectedKey : Option String} {picks : Picks} {error : StoreError}
    (h : enforceMemoryLimit entries config protectedKey picks = (.error error, after)) :
    error = .outOfMemory ∧ after = entries := by
  unfold enforceMemoryLimit at h
  split at h
  · cases h
  · rename_i maxMemoryBytes _
    split at h
    · cases h
    · split at h
      · cases h
        exact ⟨rfl, rfl⟩
      · have houtcome := evictUntilWithinLimit_outcome entries maxMemoryBytes protectedKey picks
        rw [h] at houtcome
        exact ⟨houtcome.1, houtcome.2.1⟩

/-! ### Writing an entry under the limit

`set` and `push` end alike: the new entry goes in, the limit is enforced, and on an
error the cell is put back as it was after the expired entry was dropped. -/

namespace MemoryStore

def commitWrite (store : MemoryStore) (picks : Picks) (key : String) (old : Option Entry)
    (entry : Entry) : Except StoreError Unit × MemoryStore :=
  match enforceMemoryLimit (store.entries.insert key entry) store.config (some key) picks with
  | (.ok evicted, entries) => (.ok (), (store.withEntries entries).recordEvicted evicted.length)
  | (.error error, _) => (.error error, (store.withCell key old).recordRejectedWrite)

theorem set_eq (store : MemoryStore) (picks : Picks) (now : SystemTime) (key : String)
    (value : Bytes) :
    store.set picks now key value =
      store.commitWrite picks key (visible now (store.entries.lookup key))
        { value := .string value, expiresAt := none } := by
  simp only [set, commitWrite, removeIfExpired_eq_assign, lookup_assign_self, ← assign_some,
    assign_assign, restoreEntry_eq_assign]
  cases henforce : enforceMemoryLimit (assign store.entries key
    (some { value := .string value, expiresAt := none })) store.config (some key) picks with
  | mk result after =>
    cases result with
    | ok evicted => rfl
    | error error =>
      rw [(enforceMemoryLimit_error henforce).2]
      simp only [assign_assign, withCell, withEntries]

theorem push_eq (store : MemoryStore) (picks : Picks) (now : SystemTime) (key : String)
    (values : List Bytes) (side : Side) :
    store.push picks now key values side =
      match pushEntry side values (visible now (store.entries.lookup key)) with
      | none =>
          (.error .wrongType, store.withCell key (visible now (store.entries.lookup key)))
      | some entry =>
          let (result, store) :=
            store.commitWrite picks key (visible now (store.entries.lookup key)) entry
          (result.map fun _ => entry.value.listItems, store) := by
  have hrestore : ∀ (entry : Entry) (len : Nat),
      (match enforceMemoryLimit
          (assign (assign store.entries key (visible now (store.entries.lookup key))) key
            (some entry)) store.config (some key) picks with
        | (.ok evicted, entries) =>
            ((.ok len : Except StoreError Nat),
              (store.withEntries entries).recordEvicted evicted.length)
        | (.error error, entries) =>
            (.error error, (store.withEntries
              (assign entries key (visible now (store.entries.lookup key)))).recordRejectedWrite)) =
      ((store.commitWrite picks key (visible now (store.entries.lookup key)) entry).1.map
          fun _ => len,
        (store.commitWrite picks key (visible now (store.entries.lookup key)) entry).2) := by
    intro entry len
    rw [assign_assign, assign_some, commitWrite]
    cases henforce : enforceMemoryLimit (store.entries.insert key entry) store.config (some key)
      picks with
    | mk result after =>
      cases result with
      | ok evicted => rfl
      | error error =>
        rw [(enforceMemoryLimit_error henforce).2, ← assign_some]
        simp only [assign_assign, withCell, Except.map]
  rw [push]
  simp only [removeIfExpired_eq_assign, lookup_assign_self, restoreEntry_eq_assign]
  rcases hcell : visible now (store.entries.lookup key) with _ | ⟨_ | items, expiresAt⟩
  · rw [hcell] at hrestore
    exact hrestore _ _
  · simp [withCell, withEntries, pushEntry]
  · rw [hcell] at hrestore
    exact hrestore _ _

theorem commitWrite_error {store after : MemoryStore} {picks : Picks} {key : String}
    {old : Option Entry} {entry : Entry} {error : StoreError}
    (h : store.commitWrite picks key old entry = (.error error, after)) :
    after = (store.withCell key old).recordRejectedWrite := by
  unfold commitWrite at h
  split at h
  · cases h
  · cases h
    rfl

theorem commitWrite_ok {store after : MemoryStore} {picks : Picks} {key : String}
    {old : Option Entry} {entry : Entry}
    (h : store.commitWrite picks key old entry = (.ok (), after)) :
    ∃ evicted, Evicted (store.entries.insert key entry) (some key) after.entries evicted ∧
      ∀ maxMemoryBytes, store.config.maxMemoryBytes = some maxMemoryBytes →
        estimatedMemoryBytes after.entries ≤ maxMemoryBytes := by
  unfold commitWrite at h
  split at h
  · rename_i evicted entries henforce
    cases h
    rw [recordEvicted_entries, withEntries_entries]
    exact ⟨evicted, enforceMemoryLimit_ok henforce⟩
  · cases h

@[simp] theorem commitWrite_config (store : MemoryStore) (picks : Picks) (key : String)
    (old : Option Entry) (entry : Entry) :
    (store.commitWrite picks key old entry).2.config = store.config := by
  unfold commitWrite
  split <;> simp

@[simp] theorem push_config (store : MemoryStore) (picks : Picks) (now : SystemTime)
    (key : String) (values : List Bytes) (side : Side) :
    (store.push picks now key values side).2.config = store.config := by
  rw [push_eq]
  split
  · rfl
  · exact commitWrite_config _ _ _ _ _

/-! ### Failed writes

`Undone before key now after`: `after` is `before`, except that the entry of `key` is
gone if it had expired. -/

def Undone (before : Entries) (key : String) (now : SystemTime) (after : Entries) : Prop :=
  ∀ k, after.lookup k =
    if k = key then (before.lookup k).filter fun entry => !entry.isExpired now
    else before.lookup k

theorem undone_withCell (store : MemoryStore) (key : String) (now : SystemTime) :
    Undone store.entries key now
      (store.withCell key (visible now (store.entries.lookup key))).entries := by
  intro k
  rw [withCell_entries, lookup_assign]
  by_cases hk : k = key
  · subst hk
    rfl
  · simp [hk]

theorem set_error {store after : MemoryStore} {picks : Picks} {now : SystemTime} {key : String}
    {value : Bytes} {error : StoreError}
    (h : store.set picks now key value = (.error error, after)) :
    Undone store.entries key now after.entries := by
  rw [set_eq] at h
  rw [commitWrite_error h]
  exact undone_withCell store key now

theorem push_error {store after : MemoryStore} {picks : Picks} {now : SystemTime} {key : String}
    {values : List Bytes} {side : Side} {error : StoreError}
    (h : store.push picks now key values side = (.error error, after)) :
    Undone store.entries key now after.entries := by
  rw [push_eq] at h
  split at h
  · cases h
    exact undone_withCell store key now
  · rename_i entry _
    cases hwrite : store.commitWrite picks key (visible now (store.entries.lookup key)) entry with
    | mk result written =>
      rw [hwrite] at h
      cases result with
      | ok _ => cases h
      | error _ =>
        cases h
        rw [commitWrite_error hwrite]
        exact undone_withCell store key now

/-- **Failed writes are atomic**, for every configuration and every eviction. -/
theorem failed_write_undone (store after : MemoryStore) (picks : Picks) (now : SystemTime)
    (key : String) (error : StoreError) :
    (∀ value, store.set picks now key value = (.error error, after) →
        Undone store.entries key now after.entries) ∧
      (∀ values, store.lpush picks now key values = (.error error, after) →
        Undone store.entries key now after.entries) ∧
      ∀ values, store.rpush picks now key values = (.error error, after) →
        Undone store.entries key now after.entries :=
  ⟨fun _ => set_error, fun _ => push_error, fun _ => push_error⟩

/-- A store with room for two small entries that holds one. -/
def crowded : MemoryStore where
  entries := (∅ : Entries).insert "a" { value := .string (List.replicate 20 1), expiresAt := none }
  config := { maxMemoryBytes := some 180, evictionPolicy := .allKeysRandom }
  counters := ⟨0, 0, 0⟩

theorem failed_write_undone_crowded :
    (crowded.set (.constant 0) 5 "big" (List.replicate 200 0)).1 = .error .outOfMemory ∧
      Undone crowded.entries "big" 5
        (crowded.set (.constant 0) 5 "big" (List.replicate 200 0)).2.entries := by
  have hrejected :
      (crowded.set (.constant 0) 5 "big" (List.replicate 200 0)).1 = .error .outOfMemory := by
    decide +kernel
  refine ⟨hrejected, ?_⟩
  apply (failed_write_undone crowded _ (.constant 0) 5 "big" .outOfMemory).1
  rw [← hrejected]

end MemoryStore

end AerugoCache.Storage
