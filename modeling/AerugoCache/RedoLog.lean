import Mathlib.Data.List.Nodup

/-!
# Redo logs

A log is a list of operations and redoing it applies them in order.  An operation may
be logged after operations that were executed later only if it commutes with them;
`redo_move` is that fact, and `Pending` is the invariant of a system that logs its
operations some time after it executes them.  The last part is about workers, each of
which logs the operation it executed before it executes another.
-/

namespace AerugoCache.RedoLog

variable {σ ρ : Type} (act : ρ → σ → σ)

def redo (log : List ρ) (s : σ) : σ := log.foldl (fun s r => act r s) s

@[simp] theorem redo_nil (s : σ) : redo act [] s = s := rfl

@[simp] theorem redo_cons (r : ρ) (log : List ρ) (s : σ) :
    redo act (r :: log) s = redo act log (act r s) := rfl

@[simp] theorem redo_append (log log' : List ρ) (s : σ) :
    redo act (log ++ log') s = redo act log' (redo act log s) :=
  List.foldl_append

/-- The two operations may be applied in either order. -/
def Commutes (r r' : ρ) : Prop := ∀ s, act r (act r' s) = act r' (act r s)

/-- An operation moves to the front over operations it commutes with. -/
theorem redo_move {r : ρ} {before : List ρ} (h : ∀ r' ∈ before, Commutes act r r')
    (after : List ρ) (s : σ) :
    redo act (before ++ r :: after) s = redo act (r :: (before ++ after)) s := by
  induction before generalizing s with
  | nil => rfl
  | cons r' before ih =>
    have hrest := ih (fun r'' hr'' => h r'' (List.mem_cons_of_mem _ hr''))
    simp only [List.cons_append, redo_cons] at hrest ⊢
    rw [hrest, h r' List.mem_cons_self]

/-- `live` is what the log, and then the operations executed but not yet logged, make
    of `start`. -/
def Pending (start : σ) (log pending : List ρ) (live : σ) : Prop :=
  redo act (log ++ pending) start = live

variable {act} {start live : σ} {log pending : List ρ}

theorem Pending.execute (h : Pending act start log pending live) (r : ρ) :
    Pending act start log (pending ++ [r]) (act r live) := by
  unfold Pending at h ⊢
  rw [← h]
  simp only [redo_append, redo_cons, redo_nil]

/-- A pending operation is logged: those executed before it must commute with it. -/
theorem Pending.append {r : ρ} {before after : List ρ}
    (h : Pending act start log (before ++ r :: after) live)
    (hcomm : ∀ r' ∈ before, Commutes act r r') :
    Pending act start (log ++ [r]) (before ++ after) live := by
  unfold Pending at h ⊢
  rw [← h, redo_append act log, redo_move act hcomm]
  simp only [redo_append, redo_cons, redo_nil]

/-! ### Workers -/

section Workers

variable {ι : Type*} [DecidableEq ι]

/-- The pending operations that were executed before that of worker `i`. -/
def overtaken (pending : List (ι × ρ)) (i : ι) : List ρ :=
  (pending.takeWhile fun entry => entry.1 ≠ i).map Prod.snd

/-- The pending operations of the other workers. -/
def others (pending : List (ι × ρ)) (i : ι) : List (ι × ρ) :=
  pending.filter fun entry => entry.1 ≠ i

theorem others_of_notMem {pending : List (ι × ρ)} {i : ι} (h : i ∉ pending.map Prod.fst) :
    others pending i = pending := by
  apply List.filter_eq_self.mpr
  intro entry hentry
  have hne : entry.1 ≠ i := by
    rintro rfl
    exact h (List.mem_map_of_mem hentry)
  simpa using hne

theorem exists_split {pending : List (ι × ρ)} {i : ι} {r : ρ}
    (hnodup : (pending.map Prod.fst).Nodup) (hmem : (i, r) ∈ pending) :
    ∃ before after, pending = before ++ (i, r) :: after ∧
      overtaken pending i = before.map Prod.snd ∧ others pending i = before ++ after := by
  obtain ⟨before, after, rfl⟩ := List.append_of_mem hmem
  rw [List.map_append, List.map_cons, List.nodup_middle, List.nodup_cons, List.mem_append,
    not_or] at hnodup
  obtain ⟨⟨hbefore, hafter⟩, -⟩ := hnodup
  have hbefore' : ∀ entry ∈ before, decide (entry.1 ≠ i) = true := by
    intro entry hentry
    have hne : entry.1 ≠ i := by
      intro heq
      exact hbefore (List.mem_map.mpr ⟨entry, hentry, heq⟩)
    simpa using hne
  refine ⟨before, after, rfl, ?_, ?_⟩
  · rw [overtaken, List.takeWhile_append_of_pos hbefore']
    simp
  · have hrest := others_of_notMem hafter
    unfold others at hrest ⊢
    rw [List.filter_append, List.filter_eq_self.mpr hbefore', List.filter_cons, if_neg (by simp),
      hrest]

/-- A worker logs its operation, which must commute with those it overtakes. -/
theorem Pending.logged {pending : List (ι × ρ)} {i : ι} {r : ρ}
    (h : Pending act start log (pending.map Prod.snd) live)
    (hnodup : (pending.map Prod.fst).Nodup) (hmem : (i, r) ∈ pending)
    (hcomm : ∀ r' ∈ overtaken pending i, Commutes act r r') :
    Pending act start (log ++ [r]) ((others pending i).map Prod.snd) live := by
  obtain ⟨before, after, hsplit, hovertaken, hothers⟩ := exists_split hnodup hmem
  rw [hovertaken] at hcomm
  rw [hsplit, List.map_append, List.map_cons] at h
  rw [hothers, List.map_append]
  exact h.append hcomm

end Workers

end AerugoCache.RedoLog
