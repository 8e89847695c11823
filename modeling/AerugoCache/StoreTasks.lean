import Mathlib.Algebra.Order.BigOperators.Group.Finset
import AerugoCache.Linearizable
import AerugoCache.StoreLocks

/-!
# Tasks that share the store

The tasks of the server, its connections and the one that cleans up, call the operations of
one `MemoryStore`.  A call takes the lock of the entries once, then the lock of the counters
if it has anything to count, and `stats` takes that once more to read them; the turns of
different tasks come in any order.  The calls are serialized by their first turns.
-/

namespace AerugoCache.Concurrent

open AerugoCache.KeyedMap AerugoCache.Storage AerugoCache.StepSystem

/-- An operation and what it reads. -/
abbrev StoreCall := StoreOp × OpEnv

/-- What a task does next: call an operation, add its counts, or read the counters for the
    report of `stats`. -/
inductive Turn where
  | idle
  | recording (counts : StoreCounters) (result : StoreResult)
  | reading (figures : StoreStats)

structure StoreTask where
  calls : List StoreCall
  turn : Turn
  results : List StoreResult

/-- What the two locks protect. -/
structure Shared where
  entries : Entries
  counters : StoreCounters

/-- An operation whose counts are added returns, but for `stats`. -/
def StoreTask.recorded (task : StoreTask) : StoreResult → StoreTask
  | .stats figures => { task with turn := .reading figures }
  | result => { task with turn := .idle, results := task.results ++ [result] }

def StoreTask.step (config : StoreConfig) (task : StoreTask) (shared : Shared) :
    Option (StoreTask × Shared) :=
  match task.turn, task.calls with
  | .idle, [] => none
  | .idle, (op, env) :: calls =>
      let (result, entries, counts) := op.locked env config shared.entries
      -- `record_expired` and `record_evicted` take no lock for a count of zero
      if counts = 0 then some ({ task with calls }.recorded result, { shared with entries })
      else some ({ task with calls, turn := .recording counts result }, { shared with entries })
  | .recording counts result, _ =>
      some (task.recorded result, { shared with counters := shared.counters + counts })
  | .reading figures, _ =>
      some ({ task with
        turn := .idle
        results := task.results ++ [.stats (figures.withCounters shared.counters)] }, shared)

/-- The call whose first turn is the next turn of the task. -/
def StoreTask.calling (task : StoreTask) : Option StoreCall :=
  match task.turn, task.calls with
  | .idle, call :: _ => some call
  | _, _ => none

structure StoreTasks (Id : Type) where
  shared : Shared
  tasks : Id → StoreTask

section

variable {Id : Type}

def StoreTasks.initial (store : MemoryStore) (calls : Id → List StoreCall) : StoreTasks Id where
  shared := ⟨store.entries, store.counters⟩
  tasks id := { calls := calls id, turn := .idle, results := [] }

/-- The calls of a history made one after another, each result with its task. -/
def callAll : List (Id × StoreCall) → MemoryStore → List (Id × StoreResult) × MemoryStore
  | [], store => ([], store)
  | (id, op, env) :: history, store =>
      let (result, store) := op.run env store
      let (results, store) := callAll history store
      ((id, result) :: results, store)

theorem callAll_concat (history : List (Id × StoreCall)) (id : Id) (op : StoreOp) (env : OpEnv)
    (store : MemoryStore) :
    callAll (history ++ [(id, op, env)]) store =
      ((callAll history store).1 ++ [(id, (op.run env (callAll history store).2).1)],
        (op.run env (callAll history store).2).2) := by
  induction history generalizing store with
  | nil => rfl
  | cons entry history ih =>
    obtain ⟨other, first, firstEnv⟩ := entry
    simp only [List.cons_append, callAll, ih]

theorem callAll_config (history : List (Id × StoreCall)) (store : MemoryStore) :
    (callAll history store).2.config = store.config := by
  induction history generalizing store with
  | nil => rfl
  | cons entry history ih =>
    obtain ⟨id, op, env⟩ := entry
    exact (ih _).trans (op.run_config env store)

/-! ### What a task has yet to do -/

/-- The counts that a task has not added yet. -/
def Turn.unrecorded : Turn → StoreCounters
  | .recording counts _ => counts
  | .idle | .reading _ => 0

/-- The result a task is about to return, its report without the counters. -/
def Turn.owed : Turn → List StoreResult
  | .idle => []
  | .recording _ result => [result]
  | .reading figures => [.stats figures]

/-- The results of a task, with the one it is about to return, without the counters. -/
def StoreTask.outcomes (task : StoreTask) : List StoreResult :=
  (task.results ++ task.turn.owed).map (StoreResult.withCounters 0)

/-- No report of the task is ahead of the counters. -/
def StoreTask.Reported (counters : StoreCounters) (task : StoreTask) : Prop :=
  ∀ figures, .stats figures ∈ task.results →
    StoreCounters.Le ⟨figures.expiredKeysCleaned, figures.evictedKeys, figures.rejectedWrites⟩
      counters

theorem StoreResult.withCounters_withCounters (counters counters' : StoreCounters)
    (result : StoreResult) :
    (result.withCounters counters').withCounters counters = result.withCounters counters := by
  cases result <;> rfl

theorem StoreTask.recorded_calls (task : StoreTask) (result : StoreResult) :
    (task.recorded result).calls = task.calls := by
  cases result <;> rfl

theorem StoreTask.calling_busy {task : StoreTask} (h : task.turn ≠ .idle) :
    task.calling = none := by
  unfold StoreTask.calling
  split
  · rename_i hturn _
    exact absurd hturn h
  · rfl

theorem StoreTask.recorded_unrecorded (task : StoreTask) (result : StoreResult) :
    (task.recorded result).turn.unrecorded = 0 := by
  cases result <;> rfl

theorem StoreTask.recorded_outcomes (task : StoreTask) (result : StoreResult) :
    (task.recorded result).outcomes =
      task.results.map (StoreResult.withCounters 0) ++ [result.withCounters 0] := by
  cases result <;> simp [StoreTask.recorded, StoreTask.outcomes, Turn.owed]

theorem StoreTask.Reported.recorded {task : StoreTask} {counters : StoreCounters}
    (h : task.Reported counters) (result : StoreResult) :
    (task.recorded result).Reported counters := by
  intro figures hmem
  cases result with
  | stats other => exact h figures hmem
  | _ =>
    rcases List.mem_append.mp hmem with hmem | hmem
    · exact h figures hmem
    · cases List.mem_singleton.mp hmem

theorem StoreTask.Reported.add {task : StoreTask} {counters : StoreCounters}
    (h : task.Reported counters) (counts : StoreCounters) : task.Reported (counters + counts) :=
  fun figures hmem => (h figures hmem).add counts

/-! ### Serialization -/

variable [Fintype Id] [DecidableEq Id]

def StoreTasks.step (config : StoreConfig) : StepFunction (StoreTasks Id) Id :=
  fun system id =>
    ((system.tasks id).step config system.shared).map fun (task, shared) =>
      { shared, tasks := Function.update system.tasks id task }

/-- The calls of a run, in the order of their first turns. -/
def StoreTasks.history (config : StoreConfig) : List Id → StoreTasks Id → List (Id × StoreCall)
  | [], _ => []
  | id :: schedule, system =>
      ((system.tasks id).calling.map (Prod.mk id)).toList ++
        match StoreTasks.step config system id with
        | some next => StoreTasks.history config schedule next
        | none => []

/-- The calls of the history, one after another, leave what the tasks share, and return
    what the tasks return; what the counters lack, the tasks have yet to add. -/
structure Serializes (start : MemoryStore) (calls : Id → List StoreCall)
    (history : List (Id × StoreCall)) (system : StoreTasks Id) : Prop where
  entries : system.shared.entries = (callAll history start).2.entries
  counters : system.shared.counters + ∑ id, (system.tasks id).turn.unrecorded =
    (callAll history start).2.counters
  order : ∀ id, own id history ++ (system.tasks id).calls = calls id
  outcomes : ∀ id, (system.tasks id).outcomes =
    (own id (callAll history start).1).map (StoreResult.withCounters 0)
  reported : ∀ id, (system.tasks id).Reported system.shared.counters

/-- The three turns of a task. -/
theorem StoreTask.step_cases {config : StoreConfig} {task next : StoreTask}
    {shared shared' : Shared} (h : task.step config shared = some (next, shared')) :
    (∃ op env calls, task.turn = .idle ∧ task.calls = (op, env) :: calls ∧
      (next = { task with calls }.recorded (op.locked env config shared.entries).1 ∧
          (op.locked env config shared.entries).2.2 = 0 ∨
        next = { task with
          calls
          turn := .recording (op.locked env config shared.entries).2.2
            (op.locked env config shared.entries).1 }) ∧
      shared' = { shared with entries := (op.locked env config shared.entries).2.1 }) ∨
    (∃ counts result, task.turn = .recording counts result ∧ next = task.recorded result ∧
      shared' = { shared with counters := shared.counters + counts }) ∨
    (∃ figures, task.turn = .reading figures ∧
      next = { task with
        turn := .idle
        results := task.results ++ [.stats (figures.withCounters shared.counters)] } ∧
      shared' = shared) := by
  unfold StoreTask.step at h
  split at h
  · cases h
  · rename_i op env calls hturn hcalls
    refine Or.inl ⟨op, env, calls, hturn, hcalls, ?_⟩
    simp only at h
    split at h
    · rename_i hzero
      cases h
      exact ⟨Or.inl ⟨rfl, hzero⟩, rfl⟩
    · cases h
      exact ⟨Or.inr rfl, rfl⟩
  · rename_i counts result hturn
    cases h
    exact Or.inr (Or.inl ⟨counts, result, hturn, rfl, rfl⟩)
  · rename_i figures hturn
    cases h
    exact Or.inr (Or.inr ⟨figures, hturn, rfl, rfl⟩)

/-- A turn that only counts or reads the counters keeps the history. -/
theorem Serializes.quiet {start : MemoryStore} {calls : Id → List StoreCall}
    {history : List (Id × StoreCall)} {system : StoreTasks Id} {id : Id}
    (h : Serializes start calls history system) (counts : StoreCounters) (task : StoreTask)
    (hcalls : task.calls = (system.tasks id).calls)
    (houtcomes : task.outcomes = (system.tasks id).outcomes)
    (hcounts : counts + task.turn.unrecorded = (system.tasks id).turn.unrecorded)
    (hreported : task.Reported (system.shared.counters + counts)) :
    Serializes start calls history
      { shared := { system.shared with counters := system.shared.counters + counts }
        tasks := Function.update system.tasks id task } := by
  constructor
  · exact h.entries
  · obtain ⟨others, hsum, hupdate⟩ :=
      sum_counts (fun task : StoreTask => task.turn.unrecorded) system.tasks id
    rw [← h.counters, hsum, hupdate, ← hcounts, add_assoc, add_assoc]
  · intro other
    by_cases hother : other = id
    · subst hother
      simp only [Function.update_self, hcalls, h.order]
    · simp only [Function.update_of_ne hother, h.order]
  · intro other
    by_cases hother : other = id
    · subst hother
      simp only [Function.update_self, houtcomes, h.outcomes]
    · simp only [Function.update_of_ne hother, h.outcomes]
  · intro other
    by_cases hother : other = id
    · subst hother
      simp only [Function.update_self, hreported]
    · simp only [Function.update_of_ne hother]
      exact (h.reported other).add counts

/-- A first turn adds its call to the history. -/
theorem Serializes.call {start : MemoryStore} {calls : Id → List StoreCall}
    {history : List (Id × StoreCall)} {system : StoreTasks Id} {id : Id} {op : StoreOp}
    {env : OpEnv} {rest : List StoreCall} {task : StoreTask}
    (h : Serializes start calls history system) (hturn : (system.tasks id).turn = .idle)
    (hcalls : (system.tasks id).calls = (op, env) :: rest) (hrest : task.calls = rest)
    (hcounts : task.turn.unrecorded =
      (op.locked env start.config system.shared.entries).2.2)
    (houtcomes : task.outcomes = (system.tasks id).results.map (StoreResult.withCounters 0) ++
      [(op.locked env start.config system.shared.entries).1.withCounters 0])
    (hreported : task.Reported system.shared.counters) :
    Serializes start calls (history ++ [(id, op, env)])
      { shared := { system.shared with
          entries := (op.locked env start.config system.shared.entries).2.1 }
        tasks := Function.update system.tasks id task } := by
  have hsplits := op.splits env (callAll history start).2
  rw [StoreOp.Splits, callAll_config, ← h.entries] at hsplits
  constructor
  · rw [callAll_concat, hsplits]
  · obtain ⟨others, hsum, hupdate⟩ :=
      sum_counts (fun task : StoreTask => task.turn.unrecorded) system.tasks id
    rw [callAll_concat, hsplits, ← h.counters, hsum, hupdate, hcounts, hturn, Turn.unrecorded,
      zero_add, add_assoc, add_comm others]
  · intro other
    have horder := h.order other
    by_cases hother : other = id
    · subst hother
      rw [hcalls] at horder
      simp only [own_append, own_self, Function.update_self, hrest, List.append_assoc,
        List.singleton_append, horder]
    · simp only [own_append, own_other (Ne.symm hother), List.append_nil,
        Function.update_of_ne hother, horder]
  · intro other
    have hbefore := h.outcomes other
    rw [callAll_concat, own_append, List.map_append]
    by_cases hother : other = id
    · subst hother
      rw [StoreTask.outcomes, hturn, Turn.owed, List.append_nil] at hbefore
      simp only [Function.update_self, houtcomes, own_self, List.map_singleton, ← hbefore, hsplits,
        StoreResult.withCounters_withCounters]
    · simp only [own_other (Ne.symm hother), List.map_nil, List.append_nil,
        Function.update_of_ne hother, hbefore]
  · intro other
    by_cases hother : other = id
    · subst hother
      simp only [Function.update_self, hreported]
    · simp only [Function.update_of_ne hother, h.reported other]

omit [Fintype Id] in
theorem StoreTasks.step_some {config : StoreConfig} {system next : StoreTasks Id} {id : Id}
    (h : StoreTasks.step config system id = some next) :
    ∃ task shared, (system.tasks id).step config system.shared = some (task, shared) ∧
      next = { shared, tasks := Function.update system.tasks id task } := by
  obtain ⟨⟨task, shared⟩, hstep, rfl⟩ := Option.map_eq_some_iff.mp h
  exact ⟨task, shared, hstep, rfl⟩

theorem Serializes.step {start : MemoryStore} {calls : Id → List StoreCall}
    {history : List (Id × StoreCall)} {system next : StoreTasks Id} {id : Id}
    (h : Serializes start calls history system)
    (hstep : StoreTasks.step start.config system id = some next) :
    Serializes start calls
      (history ++ ((system.tasks id).calling.map (Prod.mk id)).toList) next := by
  obtain ⟨task, shared, htask, rfl⟩ := StoreTasks.step_some hstep
  rcases StoreTask.step_cases htask with
    ⟨op, env, rest, hturn, hcalls, hnext, rfl⟩ | ⟨counts, result, hturn, rfl, rfl⟩ |
    ⟨figures, hturn, rfl, rfl⟩
  · have hcalling : (system.tasks id).calling = some (op, env) := by
      simp only [StoreTask.calling, hturn, hcalls]
    rw [hcalling, Option.map_some, Option.toList_some]
    rcases hnext with ⟨rfl, hzero⟩ | rfl
    · refine h.call hturn hcalls (StoreTask.recorded_calls _ _) ?_
        (StoreTask.recorded_outcomes _ _) ?_
      · rw [StoreTask.recorded_unrecorded, hzero]
      · have hsame : StoreTask.Reported system.shared.counters
            { system.tasks id with calls := rest } := h.reported id
        exact hsame.recorded _
    · refine h.call hturn hcalls rfl rfl ?_ (h.reported id)
      simp only [StoreTask.outcomes, Turn.owed, List.map_append, List.map_singleton]
  · rw [StoreTask.calling_busy (by simp [hturn]), Option.map_none, Option.toList_none,
      List.append_nil]
    refine h.quiet counts _ (StoreTask.recorded_calls _ _) ?_ ?_ ?_
    · rw [StoreTask.recorded_outcomes, StoreTask.outcomes, hturn, Turn.owed, List.map_append,
        List.map_singleton]
    · rw [StoreTask.recorded_unrecorded, hturn, Turn.unrecorded, add_zero]
    · exact ((h.reported id).recorded result).add counts
  · rw [StoreTask.calling_busy (by simp [hturn]), Option.map_none, Option.toList_none,
      List.append_nil]
    have hquiet := h.quiet 0 { system.tasks id with
      turn := .idle
      results := (system.tasks id).results ++
        [.stats (figures.withCounters system.shared.counters)] } rfl ?_ ?_ ?_
    · rwa [add_zero] at hquiet
    · simp [StoreTask.outcomes, hturn, Turn.owed, StoreResult.withCounters,
        StoreStats.withCounters]
    · rw [hturn]
      rfl
    · intro other hmem
      rw [add_zero]
      rcases List.mem_append.mp hmem with hmem | hmem
      · exact h.reported id other hmem
      · cases List.mem_singleton.mp hmem
        exact .refl _

theorem Serializes.run {start : MemoryStore} {calls : Id → List StoreCall}
    {history : List (Id × StoreCall)} {schedule : List Id} {system final : StoreTasks Id}
    (h : Serializes start calls history system)
    (hrun : run (StoreTasks.step start.config) schedule system = some final) :
    Serializes start calls (history ++ StoreTasks.history start.config schedule system) final := by
  induction schedule generalizing system history with
  | nil =>
    cases hrun
    rwa [StoreTasks.history, List.append_nil]
  | cons id schedule ih =>
    obtain ⟨next, hstep, hrest⟩ := run_cons.mp hrun
    have hfinal := ih (h.step hstep) hrest
    rw [StoreTasks.history, hstep, ← List.append_assoc]
    exact hfinal

omit [Fintype Id] in
/-- A first turn stays where it is in the history. -/
theorem StoreTasks.history_begins (config : StoreConfig) (before after : List Id)
    (system : StoreTasks Id) :
    StoreTasks.history config before system <+:
      StoreTasks.history config (before ++ after) system := by
  induction before generalizing system with
  | nil => exact List.nil_prefix
  | cons id before ih =>
    rw [List.cons_append, StoreTasks.history, StoreTasks.history]
    apply (List.prefix_append_right_inj _).mpr
    split
    · exact ih _
    · exact List.prefix_rfl

/-! ### Every call returns -/

/-- The turns a task still needs, at most. -/
def StoreTask.work (task : StoreTask) : Nat :=
  3 * task.calls.length + match task.turn with
    | .idle => 0
    | .recording _ _ => 2
    | .reading _ => 1

end

end AerugoCache.Concurrent
