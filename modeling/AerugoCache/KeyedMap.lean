import Mathlib.Data.Finmap
import Mathlib.Algebra.BigOperators.Group.Multiset.Basic

/-!
# Hash maps as finite maps

A hash map hides the order of its entries, so two maps are equal exactly when
they agree on every lookup.  `Finmap` is that type.  This module adds the three
operations a store needs beyond `insert`, `erase` and `lookup`: keeping the
entries that satisfy a predicate (`retain`), the number of entries (`size`),
and the total of a weight over all entries (`weigh`), which is how a memory
estimate is computed.
-/

namespace AerugoCache.KeyedMap

/-- A hash map from `α` to `β`, up to the order of its entries. -/
abbrev HashMap (α β : Type*) := Finmap fun _ : α => β

variable {α β : Type*}

/-! ### Number of entries and total weight -/

/-- `HashMap::len`. -/
def size (m : HashMap α β) : Nat := m.entries.card

theorem card_keys (m : HashMap α β) : m.keys.card = size m :=
  Multiset.card_map _ _

/-- The sum of a weight over all entries. -/
def weigh (w : α → β → Nat) (m : HashMap α β) : Nat :=
  (m.entries.map fun s => w s.1 s.2).sum

@[simp] theorem weigh_empty (w : α → β → Nat) : weigh w (∅ : HashMap α β) = 0 := rfl

variable [DecidableEq α]

/-! ### Lookups after an update -/

theorem lookup_insert_eq (m : HashMap α β) (k k' : α) (v : β) :
    (m.insert k v).lookup k' = if k' = k then some v else m.lookup k' := by
  by_cases h : k' = k
  · subst h
    simp [Finmap.lookup_insert]
  · simp [h, Finmap.lookup_insert_of_ne _ h]

theorem lookup_erase_eq (m : HashMap α β) (k k' : α) :
    (m.erase k).lookup k' = if k' = k then none else m.lookup k' := by
  by_cases h : k' = k
  · subst h
    simp [Finmap.lookup_erase]
  · simp [h, Finmap.lookup_erase_ne h]

theorem erase_of_lookup_none {m : HashMap α β} {k : α} (h : m.lookup k = none) :
    m.erase k = m := by
  apply Finmap.ext_lookup
  intro k'
  rw [lookup_erase_eq]
  by_cases hk : k' = k
  · subst hk
    simp [h]
  · simp [hk]

theorem insert_erase_self (m : HashMap α β) (k : α) (v : β) :
    (m.erase k).insert k v = m.insert k v := by
  apply Finmap.ext_lookup
  intro k'
  simp only [lookup_erase_eq, lookup_insert_eq]
  by_cases hk : k' = k <;> simp [hk]

theorem insert_of_lookup_some {m : HashMap α β} {k : α} {v : β} (h : m.lookup k = some v) :
    m.insert k v = m := by
  apply Finmap.ext_lookup
  intro k'
  rw [lookup_insert_eq]
  by_cases hk : k' = k
  · subst hk
    simp [h]
  · simp [hk]

/-! ### Assigning a cell

`assign m k c` makes `c` what the map holds under `k`: an entry, or nothing.  It is
the one update of a map of which inserting, replacing and removing are cases. -/

def assign (m : HashMap α β) (k : α) : Option β → HashMap α β
  | some v => m.insert k v
  | none => m.erase k

@[simp] theorem assign_some (m : HashMap α β) (k : α) (v : β) :
    assign m k (some v) = m.insert k v := rfl

@[simp] theorem assign_none (m : HashMap α β) (k : α) : assign m k none = m.erase k := rfl

theorem lookup_assign (m : HashMap α β) (k k' : α) (c : Option β) :
    (assign m k c).lookup k' = if k' = k then c else m.lookup k' := by
  cases c with
  | none => exact lookup_erase_eq m k k'
  | some v => exact lookup_insert_eq m k k' v

@[simp] theorem lookup_assign_self (m : HashMap α β) (k : α) (c : Option β) :
    (assign m k c).lookup k = c := by
  simp [lookup_assign]

@[simp] theorem assign_assign (m : HashMap α β) (k : α) (c c' : Option β) :
    assign (assign m k c) k c' = assign m k c' := by
  apply Finmap.ext_lookup
  intro k'
  simp only [lookup_assign]
  by_cases hk : k' = k <;> simp [hk]

@[simp] theorem assign_lookup (m : HashMap α β) (k : α) : assign m k (m.lookup k) = m := by
  apply Finmap.ext_lookup
  intro k'
  rw [lookup_assign]
  by_cases hk : k' = k
  · subst hk
    simp
  · simp [hk]

/-! ### Footprints

An update with the footprint `keys` reads and writes the cells of these keys only. -/

structure Acts (update : HashMap α β → HashMap α β) (keys : List α) : Prop where
  frame : ∀ m k, k ∉ keys → (update m).lookup k = m.lookup k
  cellwise : ∀ m m' k, m.lookup k = m'.lookup k → (update m).lookup k = (update m').lookup k

/-- Updates with disjoint footprints commute. -/
theorem Acts.comm {update update' : HashMap α β → HashMap α β} {keys keys' : List α}
    (h : Acts update keys) (h' : Acts update' keys') (hdisjoint : ∀ k ∈ keys, k ∉ keys')
    (m : HashMap α β) : update (update' m) = update' (update m) := by
  apply Finmap.ext_lookup
  intro k
  by_cases hk : k ∈ keys
  · have hk' := hdisjoint k hk
    rw [h'.frame _ k hk', h.cellwise (update' m) m k (h'.frame m k hk')]
  · rw [h.frame _ k hk, h'.cellwise (update m) m k (h.frame m k hk)]

theorem acts_assign (k : α) (f : Option β → Option β) :
    Acts (fun m : HashMap α β => assign m k (f (m.lookup k))) [k] where
  frame := by
    intro m k' hk'
    rw [lookup_assign, if_neg (fun heq => hk' (List.mem_singleton.mpr heq))]
  cellwise := by
    intro m m' k' hcell
    simp only [lookup_assign]
    by_cases hk : k' = k
    · rw [if_pos hk, if_pos hk, ← hk, hcell]
    · rw [if_neg hk, if_neg hk, hcell]

theorem acts_id (keys : List α) : Acts (fun m : HashMap α β => m) keys :=
  ⟨fun _ _ _ => rfl, fun _ _ _ h => h⟩

/-! ### Keeping some entries -/

/-- `HashMap::retain`: the entries that satisfy `p`. -/
def retain (p : α → β → Bool) (m : HashMap α β) : HashMap α β where
  entries := m.entries.filter fun s => p s.1 s.2
  nodupKeys := by
    rw [← Multiset.nodup_keys]
    exact Multiset.nodup_of_le (Multiset.map_le_map (Multiset.filter_le _ _))
      (Multiset.nodup_keys.mpr m.nodupKeys)

theorem lookup_retain (p : α → β → Bool) (m : HashMap α β) (k : α) :
    (retain p m).lookup k = (m.lookup k).filter (p k) := by
  apply Option.ext
  intro v
  rw [Finmap.lookup_eq_some_iff, retain, Multiset.mem_filter, Option.filter_eq_some_iff,
    Finmap.lookup_eq_some_iff]

/-! ### Collecting pairs -/

/-- `collect` into a hash map: of two pairs with one key the later counts. -/
def collect (pairs : List (α × β)) : HashMap α β :=
  pairs.foldl (fun m pair => m.insert pair.1 pair.2) ∅

theorem lookup_foldl_insert_of_notMem {pairs : List (α × β)} {k : α}
    (h : k ∉ pairs.map Prod.fst) (m : HashMap α β) :
    (pairs.foldl (fun m pair => m.insert pair.1 pair.2) m).lookup k = m.lookup k := by
  induction pairs generalizing m with
  | nil => rfl
  | cons pair pairs ih =>
    rw [List.map_cons, List.mem_cons, not_or] at h
    rw [List.foldl_cons, ih h.2, lookup_insert_eq, if_neg h.1]

theorem lookup_collect {pairs : List (α × β)} (hkeys : (pairs.map Prod.fst).Nodup) {k : α} {v : β}
    (h : (k, v) ∈ pairs) : (collect pairs).lookup k = some v := by
  unfold collect
  generalize (∅ : HashMap α β) = m
  induction pairs generalizing m with
  | nil => cases h
  | cons pair pairs ih =>
    obtain ⟨hfresh, hrest⟩ := List.nodup_cons.mp hkeys
    rw [List.foldl_cons]
    rcases List.mem_cons.mp h with rfl | hmem
    · rw [lookup_foldl_insert_of_notMem hfresh, lookup_insert_eq, if_pos rfl]
    · exact ih hrest hmem _

/-! ### Walking over the entries -/

/-- Looking up the keys in turn is a walk over the entries. -/
theorem filterMap_keys {γ : Type*} {keys : List α} {m : HashMap α β}
    (h : (keys : Multiset α) = m.keys.val) (f : α → β → γ) :
    (keys.filterMap fun k => (m.lookup k).map (f k) : Multiset γ) =
      m.entries.map fun s => f s.1 s.2 := by
  have hentry : ∀ s ∈ m.entries, (m.lookup s.1).map (f s.1) = some (f s.1 s.2) := by
    intro s hs
    rw [Finmap.lookup_eq_some_iff.mpr hs]
    rfl
  have hkeys : m.keys.val = m.entries.map Sigma.fst := rfl
  rw [← Multiset.filterMap_coe, h, hkeys, Multiset.filterMap_map]
  generalize m.entries = s at hentry ⊢
  induction s using Multiset.induction_on with
  | empty => rfl
  | cons s rest ih =>
    have hs := hentry s (Multiset.mem_cons_self s rest)
    have hrest := ih fun t ht => hentry t (Multiset.mem_cons_of_mem ht)
    rw [Multiset.map_cons, ← hrest]
    exact Multiset.filterMap_cons_some _ s rest hs

omit [DecidableEq α] in
theorem weigh_add (w w' : α → β → Nat) (m : HashMap α β) :
    weigh (fun k v => w k v + w' k v) m = weigh w m + weigh w' m :=
  Multiset.sum_map_add

omit [DecidableEq α] in
theorem weigh_mul (n : Nat) (w : α → β → Nat) (m : HashMap α β) :
    weigh (fun k v => n * w k v) m = n * weigh w m := by
  unfold weigh
  induction m.entries using Multiset.induction_on with
  | empty => rfl
  | cons s rest ih =>
    rw [Multiset.map_cons, Multiset.map_cons, Multiset.sum_cons, Multiset.sum_cons, ih,
      Nat.mul_add]

omit [DecidableEq α] in
theorem weigh_const (n : Nat) (m : HashMap α β) : weigh (fun _ _ => n) m = n * size m := by
  rw [weigh, size, Multiset.map_const', Multiset.sum_replicate, Nat.mul_comm]
  rfl

omit [DecidableEq α] in
theorem weigh_mono {w w' : α → β → Nat} (h : ∀ k v, w k v ≤ w' k v) (m : HashMap α β) :
    weigh w m ≤ weigh w' m := by
  unfold weigh
  induction m.entries using Multiset.induction_on with
  | empty => exact Nat.le_refl _
  | cons s rest ih =>
    rw [Multiset.map_cons, Multiset.map_cons, Multiset.sum_cons, Multiset.sum_cons]
    exact Nat.add_le_add (h s.1 s.2) ih

/-! ### Size and weight after an update -/

theorem size_erase_lt {m : HashMap α β} {k : α} (h : k ∈ m) : size (m.erase k) < size m := by
  rw [← card_keys, ← card_keys, Finmap.keys_erase]
  exact Finset.card_erase_lt_of_mem (Finmap.mem_keys.mpr h)

variable (w : α → β → Nat)

theorem weigh_insert_of_notMem {m : HashMap α β} {k : α} (h : k ∉ m) (v : β) :
    weigh w (m.insert k v) = w k v + weigh w m := by
  simp [weigh, Finmap.entries_insert_of_notMem h]

/-- Inserting replaces the weight of the old entry by that of the new one. -/
theorem weigh_insert (m : HashMap α β) (k : α) (v : β) :
    weigh w (m.insert k v) = w k v + weigh w (m.erase k) := by
  rw [← insert_erase_self, weigh_insert_of_notMem w Finmap.notMem_erase_self]

theorem weigh_erase_add {m : HashMap α β} {k : α} {v : β} (h : m.lookup k = some v) :
    w k v + weigh w (m.erase k) = weigh w m := by
  rw [← weigh_insert, insert_of_lookup_some h]

theorem weigh_erase_le (m : HashMap α β) (k : α) : weigh w (m.erase k) ≤ weigh w m := by
  cases h : m.lookup k with
  | none => rw [erase_of_lookup_none h]
  | some v =>
    have := weigh_erase_add w h
    omega

theorem le_weigh {m : HashMap α β} {k : α} {v : β} (h : m.lookup k = some v) :
    w k v ≤ weigh w m := by
  have := weigh_erase_add w h
  omega

/-- Replacing a cell by one that weighs no more does not add weight. -/
theorem weigh_assign_le {m : HashMap α β} {k : α} {c : Option β}
    (h : ∀ v, c = some v → ∃ old, m.lookup k = some old ∧ w k v ≤ w k old) :
    weigh w (assign m k c) ≤ weigh w m := by
  cases c with
  | none => exact weigh_erase_le w m k
  | some v =>
    obtain ⟨old, hold, hle⟩ := h v rfl
    have hnew := weigh_insert w m k v
    have hsum := weigh_erase_add w hold
    rw [assign_some]
    omega

theorem add_le_weigh {m : HashMap α β} {k k' : α} {v v' : β} (hk : m.lookup k = some v)
    (hk' : m.lookup k' = some v') (hne : k' ≠ k) : w k v + w k' v' ≤ weigh w m := by
  have hsum := weigh_erase_add w hk
  have hrest : (m.erase k).lookup k' = some v' := by
    rw [lookup_erase_eq, if_neg hne, hk']
  have hle := le_weigh w hrest
  omega

omit [DecidableEq α] in
theorem weigh_retain_le (p : α → β → Bool) (m : HashMap α β) :
    weigh w (retain p m) ≤ weigh w m := by
  have hle := Multiset.filter_le (fun s : (_ : α) × β => p s.1 s.2) m.entries
  obtain ⟨dropped, hdropped⟩ := Multiset.le_iff_exists_add.mp hle
  unfold weigh retain
  conv_rhs => rw [hdropped]
  simp

/-- A map whose only possible key is `k` weighs what its entry weighs. -/
theorem weigh_of_only_key {m : HashMap α β} {k : α} {v : β} (hk : m.lookup k = some v)
    (h : ∀ k' ∈ m, k' = k) : weigh w m = w k v := by
  have hempty : m.erase k = ∅ := by
    apply Finmap.ext_lookup
    intro k'
    rw [lookup_erase_eq, Finmap.lookup_empty]
    by_cases hk' : k' = k
    · simp [hk']
    · simpa [hk', Finmap.lookup_eq_none] using fun hmem => hk' (h k' hmem)
  have := weigh_erase_add w hk
  rw [hempty, weigh_empty] at this
  omega

end AerugoCache.KeyedMap
