import AerugoCache.ExpiredWeight

/-!
# Eviction is exact

Whatever keys are picked, an eviction ends with the protected entry and a part of the
others, the rest being the evicted list; it takes no key more than the limit asks for,
and it fails only where the protected entry alone is too big.
-/

namespace AerugoCache.Storage

open AerugoCache.ByteText AerugoCache.KeyedMap

/-! ### What is left and what is evicted -/

namespace Evicted

variable {original current : Entries} {protectedKey : Option String}
  {evicted : List (String × Entry)}

/-- The entries of a map are those that are left and those that were evicted. -/
theorem lookup_iff (h : Evicted original protectedKey current evicted) {key : String}
    {entry : Entry} :
    original.lookup key = some entry ↔
      current.lookup key = some entry ∨ (key, entry) ∈ evicted := by
  constructor
  · intro horiginal
    by_cases hkey : key ∈ current
    · left
      rw [← h.lookup_of_mem hkey, horiginal]
    · have hvictim : ∃ victim ∈ evicted, victim.1 = key := by
        by_contra hnone
        push Not at hnone
        have hlookup := lookup_restoreEvicted hnone current
        rw [h.restored, horiginal, Finmap.lookup_eq_none.mpr hkey] at hlookup
        cases hlookup
      obtain ⟨victim, hmem, rfl⟩ := hvictim
      have hsame := (h.lookup_victim hmem).symm.trans horiginal
      right
      rw [← Option.some.inj hsame]
      exact hmem
  · rintro (hcurrent | hmem)
    · rw [h.lookup_of_mem (Finmap.mem_of_lookup_eq_some hcurrent), hcurrent]
    · exact h.lookup_victim hmem

/-- No entry is lost or evicted twice. -/
theorem length_add_size (h : Evicted original protectedKey current evicted) :
    evicted.length + size current = size original := by
  have hleft : current.keys = original.keys.filter fun key => ¬ current.lookup key = none := by
    ext key
    simp only [Finset.mem_filter, Finmap.mem_keys, Finmap.lookup_eq_none, not_not]
    constructor
    · intro hkey
      refine ⟨?_, hkey⟩
      rw [← h.restored]
      exact mem_restoreEvicted (Or.inl hkey)
    · exact And.right
  rw [h.length_eq, ← card_keys current, hleft, Finset.card_filter_add_card_filter_not, card_keys]

end Evicted

/-! ### No key too many -/

/-- The loop evicts nothing more, or the map with the last victim is over the limit. -/
theorem evictLoop_minimal {maxMemoryBytes : Nat} {protectedKey : Option String} {picks : Picks}
    {round : Nat} {entries after : Entries} {evicted all : List (String × Entry)}
    (h : evictLoop maxMemoryBytes protectedKey picks round entries evicted = (.ok all, after)) :
    (all = evicted ∧ after = entries) ∨
      ∃ earlier last, all = earlier ++ [last] ∧
        maxMemoryBytes < estimatedMemoryBytes (after.insert last.1 last.2) := by
  fun_induction evictLoop maxMemoryBytes protectedKey picks round entries evicted with
  | case1 round entries evicted hover hpick => cases h
  | case2 round entries evicted hover key hpick entry ih =>
    right
    rcases ih h with ⟨rfl, rfl⟩ | hlater
    · have hentry : entries.lookup key.1 = some entry := (Option.some_get _).symm
      refine ⟨evicted, (key.1, entry), rfl, ?_⟩
      rw [insert_erase_self, insert_of_lookup_some hentry]
      exact hover
    · exact hlater
  | case3 round entries evicted hfits =>
    cases h
    exact Or.inl ⟨rfl, rfl⟩

/-! ### The outcome -/

/-- How the eviction beside a protected entry ends.  Accepted, because that entry alone
    fits: the entry is still there, `evicted` and `entries` are the two parts of the
    original map, `entries` is within the limit, and was not with the last victim.
    Refused, because it does not: the original map is back. -/
def EvictsExactly (maxMemoryBytes : Nat) (key : String) (entry : Entry) (original : Entries) :
    Except StoreError (List (String × Entry)) × Entries → Prop
  | (.ok evicted, entries) =>
      entryEstimatedMemoryBytes key entry ≤ maxMemoryBytes ∧
        entries.lookup key = some entry ∧
        (∀ k e, original.lookup k = some e ↔ entries.lookup k = some e ∨ (k, e) ∈ evicted) ∧
        (∀ victim ∈ evicted, victim.1 ∉ entries) ∧ (evicted.map Prod.fst).Nodup ∧
        evicted.length + size entries = size original ∧
        estimatedMemoryBytes entries ≤ maxMemoryBytes ∧
        ∀ earlier last, evicted = earlier ++ [last] →
          maxMemoryBytes < estimatedMemoryBytes (entries.insert last.1 last.2)
  | (.error error, entries) =>
      maxMemoryBytes < entryEstimatedMemoryBytes key entry ∧ error = .outOfMemory ∧
        entries = original

theorem evictUntilWithinLimit_exact {entries : Entries} {key : String} {entry : Entry}
    (hkey : entries.lookup key = some entry) (maxMemoryBytes : Nat) (picks : Picks) :
    EvictsExactly maxMemoryBytes key entry entries
      (evictUntilWithinLimit entries maxMemoryBytes (some key) picks) := by
  have houtcome := evictUntilWithinLimit_outcome entries maxMemoryBytes (some key) picks
  rcases hevict : evictUntilWithinLimit entries maxMemoryBytes (some key) picks with
    ⟨error | evicted, after⟩
  · rw [hevict] at houtcome
    obtain ⟨herror, hback, current, evicted, hevicted, hover, honly⟩ := houtcome
    have hleft := hevicted.lookup_protected.trans hkey
    have halone := weigh_of_only_key entryEstimatedMemoryBytes hleft
      fun k hk => (Option.some.inj (honly k hk)).symm
    rw [estimatedMemoryBytes, halone] at hover
    exact ⟨hover, herror, hback⟩
  · rw [hevict] at houtcome
    obtain ⟨hevicted, hwithin⟩ := houtcome
    have hleft := hevicted.lookup_protected.trans hkey
    have hcost := le_weigh entryEstimatedMemoryBytes hleft
    refine ⟨Nat.le_trans hcost hwithin, hleft, fun k e => hevicted.lookup_iff, hevicted.gone,
      hevicted.distinct, hevicted.length_add_size, hwithin, ?_⟩
    intro earlier last hlast
    rcases evictLoop_minimal hevict with ⟨hnone, -⟩ | ⟨earlier', last', hlast', hover⟩
    · rw [hnone] at hlast
      exact absurd hlast.symm (List.append_ne_nil_of_right_ne_nil _ (List.cons_ne_nil _ _))
    · rw [hlast] at hlast'
      obtain ⟨-, hsame⟩ := List.append_inj' hlast' rfl
      rw [List.head_eq_of_cons_eq hsame]
      exact hover

/-! ### Whether a write is accepted -/

/-- A write commits with the same result whatever is picked. -/
theorem MemoryStore.commitWrite_picks (store : MemoryStore) (picks picks' : Picks) (key : String)
    (old : Option Entry) (entry : Entry) :
    (store.commitWrite picks key old entry).1 = (store.commitWrite picks' key old entry).1 := by
  by_cases hadmits : Admits store.config store.entries key entry
  · rw [(store.commitWrite_result picks key old entry).1 hadmits,
      (store.commitWrite_result picks' key old entry).1 hadmits]
  · rw [(store.commitWrite_result picks key old entry).2 hadmits,
      (store.commitWrite_result picks' key old entry).2 hadmits]

theorem MemoryStore.push_picks (store : MemoryStore) (picks picks' : Picks) (now : SystemTime)
    (key : String) (values : List Bytes) (side : Side) :
    (store.push picks now key values side).1 = (store.push picks' now key values side).1 := by
  rw [push_eq, push_eq]
  cases pushEntry side values (visible now (store.entries.lookup key)) with
  | none => rfl
  | some entry =>
    simp only
    rw [store.commitWrite_picks picks picks']

/-- **Eviction is exact**, for every map with the protected entry in it, every limit and
    all picks; so whether a write is accepted does not depend on the picks. -/
theorem eviction_exact {entries : Entries} {key : String} {entry : Entry}
    (hkey : entries.lookup key = some entry) (maxMemoryBytes : Nat) (picks : Picks) :
    EvictsExactly maxMemoryBytes key entry entries
        (evictUntilWithinLimit entries maxMemoryBytes (some key) picks) ∧
      ∀ (store : MemoryStore) (now : SystemTime) (k : String) (picks' : Picks),
        (∀ value, (store.set picks now k value).1 = (store.set picks' now k value).1) ∧
          (∀ values, (store.lpush picks now k values).1 = (store.lpush picks' now k values).1) ∧
          ∀ values, (store.rpush picks now k values).1 = (store.rpush picks' now k values).1 := by
  refine ⟨evictUntilWithinLimit_exact hkey maxMemoryBytes picks, ?_⟩
  intro store now k picks'
  refine ⟨?_, ?_, ?_⟩
  · intro value
    rw [MemoryStore.set_eq, MemoryStore.set_eq, store.commitWrite_picks picks picks']
  · intro values
    exact store.push_picks picks picks' now k values .left
  · intro values
    exact store.push_picks picks picks' now k values .right

/-- Three entries of 66 bytes each, of which two fit. -/
def threeEntries : Entries :=
  ((Finmap.insert "a" ⟨.string [1], none⟩ ∅).insert "b" ⟨.string [2], none⟩).insert "c"
    ⟨.string [3], none⟩

theorem eviction_exact_three :
    EvictsExactly 140 "c" ⟨.string [3], none⟩ threeEntries
      (evictUntilWithinLimit threeEntries 140 (some "c") (.constant 1)) :=
  (eviction_exact (by decide +kernel) 140 (.constant 1)).1

end AerugoCache.Storage
