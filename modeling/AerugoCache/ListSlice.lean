import AerugoCache.LazyExpiration

/-!
# The slice of a list

`lrange` counts a negative position from the end of the list.  In unbounded integers
the slice is a filter on positions; `normalize_range` computes it on `i64`, and none of
its operations overflows on a list of at most `i64::MAX` items.
-/

namespace AerugoCache.Storage

open AerugoCache.ByteText AerugoCache.KeyedMap

/-! ### The slice in unbounded integers -/

/-- The position that an index means in a list of `len` items. -/
def position (len : Nat) (index : Int64) : Int :=
  if 0 ≤ index.toInt then index.toInt else len + index.toInt

/-- The items from one position to another, in order. -/
def redisSlice (start stop : Int64) (list : List Bytes) : List Bytes :=
  (list.zipIdx.filter fun item =>
    position list.length start ≤ item.2 ∧ (item.2 : Int) ≤ position list.length stop).map Prod.fst

/-- The items at positions of an interval are those left by `drop` and `take`. -/
theorem filter_zipIdx {α : Type} (list : List α) (offset first last : Nat) :
    ((list.zipIdx offset).filter fun item => first ≤ item.2 ∧ item.2 ≤ last).map Prod.fst =
      (list.drop (first - offset)).take (last + 1 - max first offset) := by
  induction list generalizing offset with
  | nil => simp
  | cons item list ih =>
    rw [List.zipIdx_cons, List.filter_cons]
    by_cases hfirst : first ≤ offset
    · have hmax : max first offset = offset := Nat.max_eq_right hfirst
      have hnext : max first (offset + 1) = offset + 1 := Nat.max_eq_right (by omega)
      have hdrop : first - (offset + 1) = 0 := by omega
      rw [hmax, Nat.sub_eq_zero_of_le hfirst, List.drop_zero]
      by_cases hlast : offset ≤ last
      · have htake : last + 1 - offset = (last + 1 - (offset + 1)) + 1 := by omega
        rw [if_pos (by simp [hfirst, hlast]), List.map_cons, ih, hnext, hdrop, List.drop_zero,
          htake, List.take_succ_cons]
      · have hover : last + 1 - offset = 0 := by omega
        have hnone : last + 1 - (offset + 1) = 0 := by omega
        rw [if_neg (by simp [hlast]), ih, hnext, hover, hnone, List.take_zero, List.take_zero]
    · have hmax : max first (offset + 1) = max first offset := by omega
      have hdrop : first - offset = (first - (offset + 1)) + 1 := by omega
      rw [if_neg (by simp [hfirst]), ih, hmax, hdrop, List.drop_succ_cons]

theorem redisSlice_eq_nil {start stop : Int64} {list : List Bytes} :
    redisSlice start stop list = [] ↔
      ¬ ∃ i : Nat, i < list.length ∧ position list.length start ≤ i ∧
        (i : Int) ≤ position list.length stop := by
  rw [redisSlice, List.map_eq_nil_iff, List.filter_eq_nil_iff]
  constructor
  · rintro hnone ⟨i, hi, hpositions⟩
    have hmem : (list[i], i) ∈ list.zipIdx := List.mk_mem_zipIdx_iff_getElem?.mpr (by simp [hi])
    exact hnone _ hmem (by simpa using hpositions)
  · rintro hnone ⟨item, i⟩ hmem hpositions
    have hi : i < list.length := by simpa using List.snd_lt_of_mem_zipIdx hmem
    exact hnone ⟨i, hi, by simpa using hpositions⟩

/-! ### What `normalize_range` computes -/

theorem ite_position (len : Nat) (index : Int64) :
    (if index.toInt < 0 then (len : Int) + index.toInt else index.toInt) = position len index := by
  rw [position]
  split_ifs <;> omega

theorem normalizeRange_none {len : Nat} {start stop : Int64}
    (h : normalizeRange len start stop = none) {i : Nat} (hi : i < len) :
    ¬ (position len start ≤ i ∧ (i : Int) ≤ position len stop) := by
  unfold normalizeRange at h
  simp only [ite_position] at h
  split_ifs at h <;> omega

/-- The interval that `normalize_range` gives holds just the positions of the slice. -/
theorem normalizeRange_some {len first last : Nat} {start stop : Int64}
    (h : normalizeRange len start stop = some (first, last)) :
    first ≤ last ∧ last < len ∧ ∀ i : Nat, i < len →
      ((position len start ≤ i ∧ (i : Int) ≤ position len stop) ↔ first ≤ i ∧ i ≤ last) := by
  unfold normalizeRange at h
  simp only [ite_position] at h
  split_ifs at h <;> cases h
  all_goals refine ⟨?_, ?_, ?_⟩ <;> intros <;> omega

theorem slice_eq_redisSlice (start stop : Int64) (list : List Bytes) :
    EagerStore.slice start stop list = redisSlice start stop list := by
  rw [EagerStore.slice]
  split
  · rename_i hrange
    symm
    rw [redisSlice_eq_nil]
    rintro ⟨i, hi, hpositions⟩
    exact normalizeRange_none hrange hi hpositions
  · rename_i first last hrange
    obtain ⟨hle, -, hpositions⟩ := normalizeRange_some hrange
    have hfilter : (list.zipIdx.filter fun item => decide (position list.length start ≤ item.2 ∧
          (item.2 : Int) ≤ position list.length stop)) =
        list.zipIdx.filter fun item => decide (first ≤ item.2 ∧ item.2 ≤ last) := by
      apply List.filter_congr
      intro item hitem
      have hi : item.2 < list.length := by simpa using List.snd_lt_of_mem_zipIdx hitem
      simp only [hpositions item.2 hi]
    rw [redisSlice, hfilter, filter_zipIdx, Nat.max_zero, Nat.sub_zero]
    congr 1
    omega

/-! ### Machine integers -/

/-- A result of `i64` arithmetic, `none` where it overflows. -/
def checkedI64 (value : Int) : Option Int :=
  if -2 ^ 63 ≤ value ∧ value < 2 ^ 63 then some value else none

/-- A result of `usize` arithmetic, `none` where it overflows. -/
def checkedUsize (value : Int) : Option Nat :=
  if 0 ≤ value ∧ value < 2 ^ 64 then some value.toNat else none

theorem checkedI64_eq {value : Int} (hlow : -2 ^ 63 ≤ value) (hhigh : value < 2 ^ 63) :
    checkedI64 value = some value :=
  if_pos ⟨hlow, hhigh⟩

theorem checkedUsize_eq {value : Int} (hlow : 0 ≤ value) (hhigh : value < 2 ^ 64) :
    checkedUsize value = some value.toNat :=
  if_pos ⟨hlow, hhigh⟩

/-- `normalize_range` with every operation and cast checked: `none` when one of them
    overflows. -/
def checkedNormalizeRange (len : Nat) (start stop : Int64) : Option (Option (Nat × Nat)) :=
  if len = 0 then some none
  else do
    let len ← checkedI64 len
    let start ← (if start.toInt < 0 then checkedI64 (len + start.toInt) else some start.toInt)
    let stop ← (if stop.toInt < 0 then checkedI64 (len + stop.toInt) else some stop.toInt)
    let start := if start < 0 then 0 else start
    if stop < 0 ∨ start ≥ len then some none
    else do
      let stop ← (if stop ≥ len then checkedI64 (len - 1) else some stop)
      let first ← checkedUsize start
      let last ← checkedUsize stop
      some (if start ≤ stop then some (first, last) else none)

/-- The items that `lrange` takes from a list, with `stop - start + 1` checked. -/
def checkedSlice (list : List Bytes) (start stop : Int64) : Option (List Bytes) := do
  match ← checkedNormalizeRange list.length start stop with
  | none => some []
  | some (start, stop) =>
      let span ← checkedUsize ((stop : Int) - start)
      let count ← checkedUsize (span + 1)
      some ((list.drop start).take count)

theorem position_bounds {len : Nat} (hlen : len < 2 ^ 63) (index : Int64) :
    -2 ^ 63 ≤ position len index ∧ position len index < 2 ^ 63 := by
  have hlow := index.le_toInt
  have hhigh := index.toInt_lt
  rw [position]
  split_ifs <;> omega

theorem checked_position {len : Nat} (hlen : len < 2 ^ 63) (index : Int64) :
    (if index.toInt < 0 then checkedI64 (len + index.toInt) else some index.toInt) =
      some (position len index) := by
  obtain ⟨hlow, hhigh⟩ := position_bounds hlen index
  rw [← ite_position] at hlow hhigh ⊢
  split_ifs at hlow hhigh ⊢
  · exact checkedI64_eq hlow hhigh
  · rfl

/-- On a list of at most `i64::MAX` items nothing overflows. -/
theorem checkedNormalizeRange_eq {len : Nat} (hlen : len < 2 ^ 63) (start stop : Int64) :
    checkedNormalizeRange len start stop = some (normalizeRange len start stop) := by
  have hcast : checkedI64 len = some (len : Int) := checkedI64_eq (by omega) (by omega)
  have hlast : checkedI64 ((len : Int) - 1) = some ((len : Int) - 1) :=
    checkedI64_eq (by omega) (by omega)
  have hstart := position_bounds hlen start
  have hstop := position_bounds hlen stop
  unfold checkedNormalizeRange normalizeRange
  simp only [hcast, Option.bind_eq_bind, Option.bind_some, checked_position hlen, ite_position]
  generalize position len start = first at hstart ⊢
  generalize position len stop = last at hstop ⊢
  by_cases hempty : len = 0
  · rw [if_pos hempty, if_pos hempty]
  rw [if_neg hempty, if_neg hempty]
  have hfirst : checkedUsize (if first < 0 then 0 else first) =
      some (if first < 0 then 0 else first).toNat := by
    apply checkedUsize_eq <;> split_ifs <;> omega
  by_cases hnone : last < 0 ∨ (if first < 0 then 0 else first) ≥ (len : Int)
  · rw [if_pos hnone, if_pos hnone]
  rw [if_neg hnone, if_neg hnone]
  have hclamp : (if last ≥ (len : Int) then checkedI64 ((len : Int) - 1) else some last) =
      some (if last ≥ (len : Int) then (len : Int) - 1 else last) := by
    rw [hlast]
    split_ifs <;> rfl
  have hsecond : checkedUsize (if last ≥ (len : Int) then (len : Int) - 1 else last) =
      some (if last ≥ (len : Int) then (len : Int) - 1 else last).toNat := by
    apply checkedUsize_eq <;> split_ifs <;> omega
  simp only [hclamp, hfirst, hsecond, Option.bind_some]

theorem checkedUsize_natCast {value : Nat} (h : value < 2 ^ 64) :
    checkedUsize value = some value := by
  rw [checkedUsize_eq (by omega) (by omega), Int.toNat_natCast]

theorem checkedSlice_eq {list : List Bytes} (hlen : list.length < 2 ^ 63) (start stop : Int64) :
    checkedSlice list start stop = some (redisSlice start stop list) := by
  rw [← slice_eq_redisSlice, checkedSlice, EagerStore.slice, checkedNormalizeRange_eq hlen]
  rcases hrange : normalizeRange list.length start stop with _ | ⟨first, last⟩
  · rfl
  · obtain ⟨hle, hlast, -⟩ := normalizeRange_some hrange
    have hspan : checkedUsize ((last : Int) - first) = some (last - first) := by
      rw [← Int.ofNat_sub hle, checkedUsize_natCast (by omega)]
    have hcount : checkedUsize ((last - first : Nat) + 1) = some (last - first + 1) := by
      rw [checkedUsize_eq (by omega) (by omega), Int.toNat_natCast_add_one]
    change (checkedUsize ((last : Int) - first)).bind (fun span => (checkedUsize (span + 1)).bind
      fun count => some ((list.drop first).take count)) = _
    rw [hspan, Option.bind_some, hcount, Option.bind_some]

/-- **LRANGE returns the Redis slice** of a visible list, which is empty just when no
    position lies between the two, and no operation on the way overflows. -/
theorem lrange_slice (store : MemoryStore) (now : SystemTime) (key : String) (start stop : Int64)
    {list : List Bytes} {expiresAt : Option SystemTime}
    (hvisible : visible now (store.entries.lookup key) = some ⟨.list list, expiresAt⟩)
    (hlen : list.length < 2 ^ 63) :
    (store.lrange now key start stop).1 = .ok (redisSlice start stop list) ∧
      (redisSlice start stop list = [] ↔
        ¬ ∃ i : Nat, i < list.length ∧ position list.length start ≤ i ∧
          (i : Int) ≤ position list.length stop) ∧
      checkedSlice list start stop = some (redisSlice start stop list) := by
  refine ⟨?_, redisSlice_eq_nil, checkedSlice_eq hlen start stop⟩
  rw [MemoryStore.lrange_result, hvisible, ← slice_eq_redisSlice]
  rfl

/-- A list of three items. -/
def queueStore : MemoryStore :=
  { MemoryStore.withConfig .default with
    entries := Finmap.insert "q" ⟨.list [[1], [2], [3]], none⟩ ∅ }

/-- From the second last item to the end of the range of `i64`. -/
theorem lrange_slice_tail :
    (queueStore.lrange 0 "q" (-2) 9223372036854775807).1 = .ok [[2], [3]] := by
  have hvisible : visible 0 (queueStore.entries.lookup "q") =
      some ⟨.list [[1], [2], [3]], none⟩ := by
    decide +kernel
  exact (lrange_slice queueStore 0 "q" (-2) 9223372036854775807 hvisible (by decide)).1

end AerugoCache.Storage
