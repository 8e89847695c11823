import AerugoCache.Eviction
import AerugoCache.Residues
import AerugoCache.StoreSteps

/-!
# Random eviction is fair

The pick of `pick_eviction_key` is a nanosecond reading modulo the number of candidates.
The sequences of keys that an eviction can take are those that bring the map within the
limit with their last key and no earlier; each of them is taken on nearly the same share of
the sequences of readings, in whatever order the map is walked.
-/

namespace AerugoCache.Storage

open AerugoCache.KeyedMap AerugoCache.Residues Finset

/-! ### One pick -/

/-- The number of keys an eviction may choose from. -/
def candidateCount (entries : Entries) (protectedKey : Option String) : Nat :=
  #{key ∈ entries.keys | protectedKey ≠ some key}

theorem length_evictionCandidates (order : KeyOrder) (entries : Entries)
    (protectedKey : Option String) :
    (evictionCandidates order entries protectedKey).length =
      candidateCount entries protectedKey := by
  have hkeys := congrArg (Multiset.filter fun key => protectedKey ≠ some key)
    (order.enumerates entries)
  have hcard := congrArg Multiset.card hkeys
  rw [Multiset.filter_coe, Multiset.coe_card] at hcard
  exact hcard

theorem nodup_evictionCandidates (order : KeyOrder) (entries : Entries)
    (protectedKey : Option String) :
    (evictionCandidates order entries protectedKey).Nodup := by
  apply List.Nodup.filter
  rw [← Multiset.coe_nodup, order.enumerates]
  exact entries.keys.nodup

/-- A key that is taken is a candidate no more. -/
theorem candidateCount_erase {entries : Entries} {protectedKey : Option String} {key : String}
    (hkey : key ∈ entries) (hprotected : protectedKey ≠ some key) :
    candidateCount (entries.erase key) protectedKey + 1 = candidateCount entries protectedKey := by
  have hmem : key ∈ ({k ∈ entries.keys | protectedKey ≠ some k} : Finset String) :=
    mem_filter.mpr ⟨Finmap.mem_keys.mpr hkey, hprotected⟩
  rw [candidateCount, candidateCount, Finmap.keys_erase, filter_erase]
  exact card_erase_add_one hmem

/-- A candidate is picked by the readings with one remainder. -/
theorem exists_index (order : KeyOrder) {entries : Entries} {protectedKey : Option String}
    {key : String} (hkey : key ∈ entries) (hprotected : protectedKey ≠ some key) :
    ∃ index < candidateCount entries protectedKey, ∀ nanos,
      pickEvictionKey order nanos entries protectedKey = some ⟨key, hkey⟩ ↔
        nanos % candidateCount entries protectedKey = index := by
  have hcandidate : key ∈ evictionCandidates order entries protectedKey :=
    mem_evictionCandidates.mpr ⟨hkey, hprotected⟩
  obtain ⟨index, hindex, hget⟩ := List.mem_iff_getElem.mp hcandidate
  rw [← length_evictionCandidates order]
  refine ⟨index, hindex, fun nanos => ?_⟩
  have hlength : (evictionCandidates order entries protectedKey).length ≠ 0 := by omega
  simp only [pickEvictionKey, dif_neg hlength, Option.some.injEq, Subtype.mk.injEq, ← hget,
    List.get_eq_getElem]
  exact (nodup_evictionCandidates order entries protectedKey).getElem_inj_iff

/-! ### A whole eviction -/

/-- The sequences of keys that an eviction can take: none within the limit, and over it a
    candidate before what can be taken from the rest. -/
inductive Takes (maxMemoryBytes : Nat) (protectedKey : Option String) :
    Entries → List String → Prop
  | within {entries : Entries} :
      estimatedMemoryBytes entries ≤ maxMemoryBytes → Takes maxMemoryBytes protectedKey entries []
  | exceeding {entries : Entries} {key : String} {keys : List String} :
      maxMemoryBytes < estimatedMemoryBytes entries → key ∈ entries → protectedKey ≠ some key →
        Takes maxMemoryBytes protectedKey (entries.erase key) keys →
        Takes maxMemoryBytes protectedKey entries (key :: keys)

/-- The keys that an eviction took, in order, if it brought the map within the limit. -/
def takenKeys (result : Except StoreError (List (String × Entry)) × Entries) :
    Option (List String) :=
  match result.1 with
  | .ok evicted => some (evicted.map Prod.fst)
  | .error _ => none

theorem takenKeys_eq_some {result : Except StoreError (List (String × Entry)) × Entries}
    {keys : List String} (h : takenKeys result = some keys) :
    ∃ evicted, result = (.ok evicted, result.2) ∧ evicted.map Prod.fst = keys := by
  obtain ⟨error | evicted, after⟩ := result
  · cases h
  · exact ⟨evicted, rfl, Option.some.inj h⟩

section

variable {maxMemoryBytes : Nat} {protectedKey : Option String}

/-- An eviction takes a sequence of keys that can be taken. -/
theorem takes_of_evictLoop {picks : Picks} {round : Nat} {entries after : Entries}
    {evicted all : List (String × Entry)}
    (h : evictLoop maxMemoryBytes protectedKey picks round entries evicted = (.ok all, after)) :
    ∃ keys, all.map Prod.fst = evicted.map Prod.fst ++ keys ∧
      Takes maxMemoryBytes protectedKey entries keys := by
  fun_induction evictLoop maxMemoryBytes protectedKey picks round entries evicted with
  | case1 round entries evicted hover hpick => cases h
  | case2 round entries evicted hover key hpick entry ih =>
    obtain ⟨keys, hall, htakes⟩ := ih h
    refine ⟨key.1 :: keys, ?_, .exceeding hover key.2 (pickEvictionKey_unprotected hpick) htakes⟩
    rw [hall, List.map_append, List.append_assoc]
    rfl
  | case3 round entries evicted hfits =>
    cases h
    exact ⟨[], (List.append_nil _).symm, .within (Nat.le_of_not_lt hfits)⟩

/-- The first round of an eviction over the limit takes a key if and only if it picks it. -/
theorem evictLoop_takes_cons {picks : Picks} {round : Nat} {entries : Entries}
    {evicted : List (String × Entry)} {key : String} {keys : List String}
    (hover : maxMemoryBytes < estimatedMemoryBytes entries) (hkey : key ∈ entries) :
    takenKeys (evictLoop maxMemoryBytes protectedKey picks round entries evicted) =
        some (evicted.map Prod.fst ++ key :: keys) ↔
      pickEvictionKey (picks.order round) (picks.nanos round) entries protectedKey =
          some ⟨key, hkey⟩ ∧
        takenKeys (evictLoop maxMemoryBytes protectedKey picks (round + 1) (entries.erase key)
            (evicted ++ [(key, (entries.lookup key).get (Finmap.lookup_isSome.mpr hkey))])) =
          some (evicted.map Prod.fst ++ key :: keys) := by
  rw [evictLoop, if_pos hover]
  generalize pickEvictionKey (picks.order round) (picks.nanos round) entries protectedKey = pick
  cases pick with
  | none =>
    constructor
    · intro h
      cases h
    · rintro ⟨h, -⟩
      cases h
  | some picked =>
    obtain ⟨picked, hpicked⟩ := picked
    simp only [Option.some.injEq, Subtype.mk.injEq]
    constructor
    · intro h
      -- the key that is picked stays at its place in what is taken
      obtain ⟨all, hresult, hall⟩ := takenKeys_eq_some h
      obtain ⟨more, hmore⟩ := evictLoop_isPrefix hresult
      rw [← hmore, List.map_append, List.map_append, List.append_assoc] at hall
      obtain rfl : picked = key := (List.cons.inj (List.append_cancel_left hall)).1
      exact ⟨rfl, h⟩
    · rintro ⟨rfl, h⟩
      exact h

/-- A sequence of keys that can be taken is taken on the readings with one remainder each. -/
theorem exists_indices (order : Nat → KeyOrder) {entries : Entries} {keys : List String}
    (h : Takes maxMemoryBytes protectedKey entries keys) (round : Nat) :
    ∃ index : Nat → Nat,
      (∀ i < keys.length, index i < candidateCount entries protectedKey - i) ∧
      ∀ (nanos : Nat → Nat) (evicted : List (String × Entry)),
        takenKeys (evictLoop maxMemoryBytes protectedKey ⟨order, nanos⟩ round entries evicted) =
            some (evicted.map Prod.fst ++ keys) ↔
          ∀ i < keys.length,
            nanos (round + i) % (candidateCount entries protectedKey - i) = index i := by
  induction h generalizing round with
  | @within entries hwithin =>
    refine ⟨fun _ => 0, nofun, fun nanos evicted => ⟨fun _ => nofun, fun _ => ?_⟩⟩
    rw [evictLoop, if_neg (Nat.not_lt.mpr hwithin), List.append_nil]
    rfl
  | @exceeding entries key keys hover hkey hprotected htakes ih =>
    obtain ⟨first, hfirst, hpick⟩ := exists_index (order round) hkey hprotected
    obtain ⟨index, hindex, hrest⟩ := ih (round + 1)
    have hcount := candidateCount_erase hkey hprotected
    have hless : ∀ i, candidateCount (entries.erase key) protectedKey - i =
        candidateCount entries protectedKey - (i + 1) := by
      intro i
      omega
    refine ⟨fun i => Nat.casesOn i first index, ?_, ?_⟩
    · intro i hi
      cases i with
      | zero => exact hfirst
      | succ i =>
        rw [← hless]
        exact hindex i (Nat.lt_of_succ_lt_succ hi)
    · intro nanos evicted
      rw [evictLoop_takes_cons hover hkey, hpick]
      have hlater := hrest nanos
        (evicted ++ [(key, (entries.lookup key).get (Finmap.lookup_isSome.mpr hkey))])
      rw [List.map_append, List.append_assoc] at hlater
      refine (and_congr_right fun _ => hlater).trans ?_
      constructor
      · rintro ⟨hzero, hsucc⟩ i hi
        cases i with
        | zero => exact hzero
        | succ i =>
          have hi := hsucc i (Nat.lt_of_succ_lt_succ hi)
          rwa [hless, Nat.add_right_comm] at hi
      · intro hall
        refine ⟨hall 0 (Nat.zero_lt_succ _), fun i hi => ?_⟩
        rw [hless, Nat.add_right_comm]
        exact hall (i + 1) (Nat.succ_lt_succ hi)

end

/-! ### The share of the readings -/

/-- The readings of the rounds of an eviction, as many as are listed. -/
def readings {length : Nat} (nanos : Fin length → Nat) (round : Nat) : Nat :=
  if h : round < length then nanos ⟨round, h⟩ else 0

theorem readings_at {length : Nat} (nanos : Fin length → Nat) (i : Fin length) :
    readings nanos i = nanos i := by
  rw [readings, dif_pos i.isLt]

def randomConfig (maxMemoryBytes : Nat) : StoreConfig where
  maxMemoryBytes := some maxMemoryBytes
  evictionPolicy := .allKeysRandom

/-- Within the limit, the loop stops before its first round. -/
theorem enforceMemoryLimit_random (entries : Entries) (maxMemoryBytes : Nat)
    (protectedKey : Option String) (picks : Picks) :
    enforceMemoryLimit entries (randomConfig maxMemoryBytes) protectedKey picks =
      evictLoop maxMemoryBytes protectedKey picks 0 entries [] := by
  simp only [enforceMemoryLimit, randomConfig, evictUntilWithinLimit]
  split
  · rename_i hwithin
    rw [evictLoop, if_neg (Nat.not_lt.mpr hwithin)]
  · rfl

/-- **Random eviction is fair.**  Under `allkeys-random` a write takes the keys it evicts in
    an order that brings the map within the limit with the last of them and no earlier.  Each
    such sequence, of `r` of the `n` candidates, is taken on between `∏ ⌊10⁹ / (n - i)⌋` and
    `∏ (⌊10⁹ / (n - i)⌋ + 1)` of the sequences of `r` nanosecond readings, in whatever order
    the map is walked in each round. -/
theorem eviction_fair (entries : Entries) (maxMemoryBytes : Nat) (protectedKey : Option String)
    (order : Nat → KeyOrder) (keys : List String) :
    let taking := fun nanos : Nat → Nat => takenKeys
      (enforceMemoryLimit entries (randomConfig maxMemoryBytes) protectedKey ⟨order, nanos⟩)
    let share := #{nanos ∈ numbers NANOS_PER_SEC keys.length | taking (readings nanos) = some keys}
    let n := candidateCount entries protectedKey
    (Takes maxMemoryBytes protectedKey entries keys →
        ∏ i ∈ range keys.length, NANOS_PER_SEC / (n - i) ≤ share ∧
        share ≤ ∏ i ∈ range keys.length, (NANOS_PER_SEC / (n - i) + 1)) ∧
      (¬ Takes maxMemoryBytes protectedKey entries keys → ∀ nanos, taking nanos ≠ some keys) := by
  intro taking share n
  constructor
  · intro htakes
    obtain ⟨index, hindex, htaken⟩ := exists_indices order htakes 0
    have hshare : share = #{nanos ∈ numbers NANOS_PER_SEC keys.length |
        ∀ i : Fin keys.length, nanos i % (n - i) = index i} := by
      refine congrArg card (filter_congr fun nanos _ => ?_)
      simp only [taking, enforceMemoryLimit_random]
      refine (htaken (readings nanos) []).trans ?_
      constructor
      · intro h i
        have hi := h i i.isLt
        rwa [Nat.zero_add, readings_at] at hi
      · intro h i hi
        rw [Nat.zero_add, readings_at nanos ⟨i, hi⟩]
        exact h ⟨i, hi⟩
    rw [hshare]
    exact card_residues hindex
  · intro hnot nanos htaken
    simp only [taking, enforceMemoryLimit_random] at htaken
    obtain ⟨all, hresult, hall⟩ := takenKeys_eq_some htaken
    obtain ⟨keys', hkeys, htakes⟩ := takes_of_evictLoop hresult
    rw [hall] at hkeys
    exact hnot (hkeys ▸ htakes)

/-- Of two candidates one goes: each on half the readings. -/
theorem eviction_fair_three :
    let share := #{nanos ∈ numbers NANOS_PER_SEC 1 | takenKeys
      (enforceMemoryLimit threeEntries (randomConfig 140) (some "c")
        ⟨fun _ => .ascending, readings nanos⟩) = some ["a"]}
    500000000 ≤ share ∧ share ≤ 500000001 := by
  have htakes : Takes 140 (some "c") threeEntries ["a"] :=
    .exceeding (by decide +kernel) (by decide +kernel) (by decide) (.within (by decide +kernel))
  have hcount : candidateCount threeEntries (some "c") = 2 := by decide +kernel
  have hfair := (eviction_fair threeEntries 140 (some "c") (fun _ => .ascending) ["a"]).1 htakes
  simp only [List.length_singleton, prod_range_one, hcount] at hfair
  exact hfair

end AerugoCache.Storage
