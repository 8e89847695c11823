import Mathlib.Data.List.Perm.Basic

/-!
# Double-ended queues

A deque is a list, and an operation puts values in at an end of it or takes one out.
Whatever the order of the operations, the values that were put in are those that came
out and those that are left; where values go in at the back and come out at the front,
they come out in the order they went in.
-/

namespace AerugoCache.Deque

inductive End where
  | front
  | back
deriving DecidableEq, Repr

inductive Op (α : Type) where
  | push (place : End) (values : List α)
  | pop (place : End)
deriving DecidableEq, Repr

variable {α : Type}

namespace Op

/-- What an operation leaves.  Values go in one after the other, so that those put in at
    the front end up in reverse order. -/
def after : Op α → List α → List α
  | push .front values, list => values.reverse ++ list
  | push .back values, list => list ++ values
  | pop .front, list => list.tail
  | pop .back, list => list.dropLast

/-- What an operation takes out. -/
def taken : Op α → List α → Option α
  | push _ _, _ => none
  | pop .front, list => list.head?
  | pop .back, list => list.getLast?

/-- What an operation puts in. -/
def given : Op α → List α
  | push _ values => values
  | pop _ => []

/-- The operations of a queue. -/
def IsQueue : Op α → Prop
  | push place _ => place = .back
  | pop place => place = .front

/-- One operation neither loses nor doubles a value. -/
theorem conserves (op : Op α) (list : List α) :
    (op.given ++ list).Perm ((op.taken list).toList ++ op.after list) := by
  rcases op with ⟨_ | _, values⟩ | ⟨_ | _⟩
  · exact (List.reverse_perm values).symm.append_right list
  · exact List.perm_append_comm
  · cases list <;> exact List.Perm.refl _
  · rcases List.eq_nil_or_concat list with rfl | ⟨front, last, rfl⟩
    · exact List.Perm.refl _
    · simp only [given, taken, after, List.concat_eq_append, List.getLast?_concat,
        List.dropLast_concat, Option.toList_some]
      rw [List.nil_append]
      exact List.perm_append_comm

theorem IsQueue.in_order {op : Op α} (h : op.IsQueue) (list : List α) :
    list ++ op.given = (op.taken list).toList ++ op.after list := by
  cases op with
  | push place values =>
    obtain rfl : place = .back := h
    rfl
  | pop place =>
    obtain rfl : place = .front := h
    cases list <;> simp [given, taken, after]

end Op

/-! ### Runs -/

/-- The deque after a run. -/
def contents (ops : List (Op α)) (list : List α) : List α :=
  ops.foldl (fun list op => op.after list) list

/-- The values taken out by a run, in order. -/
def popped : List (Op α) → List α → List α
  | [], _ => []
  | op :: ops, list => (op.taken list).toList ++ popped ops (op.after list)

/-- The values put in by a run, in order. -/
def pushed (ops : List (Op α)) : List α := ops.flatMap Op.given

@[simp] theorem contents_nil (list : List α) : contents [] list = list := rfl

@[simp] theorem contents_cons (op : Op α) (ops : List (Op α)) (list : List α) :
    contents (op :: ops) list = contents ops (op.after list) := rfl

@[simp] theorem popped_cons (op : Op α) (ops : List (Op α)) (list : List α) :
    popped (op :: ops) list = (op.taken list).toList ++ popped ops (op.after list) := rfl

@[simp] theorem pushed_cons (op : Op α) (ops : List (Op α)) :
    pushed (op :: ops) = op.given ++ pushed ops := rfl

/-- **No value is lost and none is doubled.** -/
theorem conserves_run (ops : List (Op α)) (list : List α) :
    (pushed ops ++ list).Perm (popped ops list ++ contents ops list) := by
  induction ops generalizing list with
  | nil => exact List.Perm.refl _
  | cons op ops ih =>
    have hop : (pushed ops ++ (op.given ++ list)).Perm
        (pushed ops ++ ((op.taken list).toList ++ op.after list)) :=
      (op.conserves list).append_left (pushed ops)
    have hrest : ((op.taken list).toList ++ (pushed ops ++ op.after list)).Perm
        ((op.taken list).toList ++ (popped ops (op.after list) ++ contents ops (op.after list))) :=
      (ih (op.after list)).append_left (op.taken list).toList
    rw [pushed_cons, popped_cons, contents_cons, List.append_assoc, List.append_assoc]
    refine (List.perm_append_comm_assoc _ _ _).trans (hop.trans ?_)
    exact (List.perm_append_comm_assoc _ _ _).trans hrest

/-- **A queue is first in, first out.** -/
theorem queue_in_order {ops : List (Op α)} (h : ∀ op ∈ ops, op.IsQueue) (list : List α) :
    list ++ pushed ops = popped ops list ++ contents ops list := by
  induction ops generalizing list with
  | nil => simp [pushed, popped]
  | cons op ops ih =>
    have hop := (h op List.mem_cons_self).in_order list
    have hrest := ih (fun op' hop' => h op' (List.mem_cons_of_mem _ hop')) (op.after list)
    rw [pushed_cons, popped_cons, contents_cons, ← List.append_assoc, hop, List.append_assoc,
      hrest, List.append_assoc]

end AerugoCache.Deque
