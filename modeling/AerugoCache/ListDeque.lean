import AerugoCache.Deque
import AerugoCache.NonemptyLists

/-!
# Lists are double-ended queues

Where nothing is evicted, and as long as a key is not set, deleted or given a deadline,
its cell holds the deque that the accepted pushes and the pops make, or nothing if that
deque is empty.  Commands on other keys leave the cell, and so does a push that is
rejected.
-/

namespace AerugoCache.Storage

open AerugoCache.ByteText AerugoCache.KeyedMap AerugoCache.Deque

/-- The end of a deque that a side of a list is. -/
def Side.place : Side → End
  | .left => .front
  | .right => .back

/-- The cell holds the list, without a deadline.  An empty list may have no cell. -/
def HoldsList (cell : Option Entry) (list : List Bytes) : Prop :=
  cell = some ⟨.list list, none⟩ ∨ cell = none ∧ list = []

theorem foldl_pushValue_eq (side : Side) (values list : List Bytes) :
    values.foldl (pushValue side) list = (Op.push side.place values).after list := by
  cases side with
  | left => exact List.foldl_flip_cons_eq_append'
  | right =>
    change values.foldl (fun list value => list ++ [value]) list = list ++ values
    rw [List.foldl_append_eq_append, ← List.flatMap_def, List.flatMap_singleton']

theorem popValue_eq (side : Side) (list : List Bytes) :
    popValue side list =
      ((Op.pop side.place).taken list, (Op.pop side.place).after list) := by
  cases side <;> rfl

namespace HoldsList

variable {cell : Option Entry} {list : List Bytes}

/-- The cell does not expire. -/
theorem visible_eq (h : HoldsList cell list) (now : SystemTime) : visible now cell = cell := by
  rcases h with rfl | ⟨rfl, -⟩
  · rw [visible_eq_some]
    exact ⟨rfl, rfl⟩
  · rfl

theorem pushEntry_eq (h : HoldsList cell list) (side : Side) (values : List Bytes) :
    pushEntry side values cell =
      some ⟨.list ((Op.push side.place values).after list), none⟩ := by
  rcases h with rfl | ⟨rfl, rfl⟩
  · simp only [pushEntry, foldl_pushValue_eq]
  · simp only [pushEntry, foldl_pushValue_eq]

theorem popResult_eq (h : HoldsList cell list) (side : Side) :
    popResult side cell = .ok ((Op.pop side.place).taken list) := by
  rcases h with rfl | ⟨rfl, rfl⟩
  · simp only [popResult, popValue_eq]
  · cases side <;> rfl

theorem pop (h : HoldsList cell list) (side : Side) :
    HoldsList (popCell side cell) ((Op.pop side.place).after list) := by
  rcases h with rfl | ⟨rfl, rfl⟩
  · simp only [popCell, popValue_eq]
    split
    · rename_i hempty
      exact Or.inr ⟨rfl, List.isEmpty_iff.mp hempty⟩
    · exact Or.inl rfl
  · refine Or.inr ⟨rfl, ?_⟩
    cases side <;> rfl

/-- The acts that leave a list without a deadline. -/
theorem act_eq (h : HoldsList cell list) {act : KeyAct}
    (hact : act = .pass ∨ act = .look ∨ act = .undate) (now : SystemTime) :
    act.cell now cell = cell := by
  rcases hact with rfl | rfl | rfl
  · rfl
  · exact h.visible_eq now
  · change persistCell (visible now cell) = cell
    rw [h.visible_eq now]
    rcases h with rfl | ⟨rfl, -⟩
    · rfl
    · rfl

end HoldsList

/-- The store evicts nothing. -/
def MemoryStore.KeepsKeys (store : MemoryStore) : Prop :=
  store.config.maxMemoryBytes = none ∨ store.config.evictionPolicy = .noEviction

variable {store : MemoryStore} {k : String} {list : List Bytes}

/-- A push is accepted as a whole, or rejected as a whole. -/
theorem MemoryStore.push_holdsList (hkeeps : store.KeepsKeys)
    (h : HoldsList (store.entries.lookup k) list) (picks : Picks) (now : SystemTime)
    (values : List Bytes) (side : Side) :
    let pushed := (Op.push side.place values).after list
    ((store.push picks now k values side).1 = .ok pushed.length ∧
        HoldsList ((store.push picks now k values side).2.entries.lookup k) pushed) ∨
      ((store.push picks now k values side).1 = .error .outOfMemory ∧
        HoldsList ((store.push picks now k values side).2.entries.lookup k) list) := by
  intro pushed
  have hentry : pushEntry side values (visible now (store.entries.lookup k)) =
      some ⟨.list pushed, none⟩ := by
    rw [h.visible_eq now, h.pushEntry_eq]
  rw [MemoryStore.push_eq, hentry]
  obtain ⟨haccepted, hrejected⟩ := store.commitWrite_result picks k
    (visible now (store.entries.lookup k)) ⟨.list pushed, none⟩
  by_cases hadmits : Admits store.config store.entries k ⟨.list pushed, none⟩
  · left
    constructor
    · simp only [haccepted hadmits]
      rfl
    · left
      simp only [commitWrite_noEviction hkeeps hadmits]
      rw [lookup_insert_eq, if_pos rfl]
  · right
    constructor
    · simp only [hrejected hadmits]
      rfl
    · simp only [commitWrite_refused hadmits]
      rw [recordRejectedWrite_entries, withCell_entries, lookup_assign, if_pos rfl,
        h.visible_eq now]
      exact h

theorem MemoryStore.pop_holdsList (h : HoldsList (store.entries.lookup k) list)
    (now : SystemTime) (side : Side) :
    (store.pop now k side).1 = .ok ((Op.pop side.place).taken list) ∧
      HoldsList ((store.pop now k side).2.entries.lookup k) ((Op.pop side.place).after list) := by
  rw [MemoryStore.pop_eq, h.visible_eq now]
  constructor
  · exact h.popResult_eq side
  · rw [withCell_entries, lookup_assign, if_pos rfl]
    exact h.pop side

/-- An operation that does nothing to the key, or reads it, leaves its list, whatever
    becomes of the operation. -/
theorem StoreOp.run_holdsList (hkeeps : store.KeepsKeys)
    (h : HoldsList (store.entries.lookup k) list) {op : StoreOp} {env : OpEnv}
    (hact : op.act env k = .pass ∨ op.act env k = .look ∨ op.act env k = .undate) :
    HoldsList ((op.run env store).2.entries.lookup k) list := by
  by_cases hadmitted : op.Admitted env store
  · rw [StoreOp.lookup_of_noEviction hkeeps hadmitted, h.act_eq hact]
    exact h
  · rw [StoreOp.lookup_of_refused hadmitted, h.visible_eq, ite_self]
    exact h

end AerugoCache.Storage

namespace AerugoCache.Commands

open AerugoCache.ByteText AerugoCache.KeyedMap AerugoCache.Protocol AerugoCache.Storage
  AerugoCache.Deque

/-! ### What a command does to the deque -/

/-- The command does not set the key, delete it or give it a deadline. -/
def Command.Spares (k : String) : Command → Prop
  | .set key _ | .expire key _ | .expireAt key _ => key ≠ k
  | .del keys => k ∉ keys
  | _ => True

/-- The deque operation that a command is on the key `k`. -/
def Command.dequeOp (k : String) : Command → Option (Op Bytes)
  | .lpush key values => if key = k then some (.push .front values) else none
  | .rpush key values => if key = k then some (.push .back values) else none
  | .lpop key => if key = k then some (.pop .front) else none
  | .rpop key => if key = k then some (.pop .back) else none
  | _ => none

/-- The commands of a run with their replies. -/
def exchanges : List (Command × Env) → MemoryStore → List (Command × Except CommandError Frame)
  | [], _ => []
  | (command, env) :: commands, store =>
      (command, (command.execute env store).1) ::
        exchanges commands (command.execute env store).2

/-- The operation on `k`, if the reply is not an error. -/
def acceptedOp (k : String) : Command × Except CommandError Frame → Option (Op Bytes)
  | (command, .ok _) => command.dequeOp k
  | (_, .error _) => none

/-- The operations on `k` that are accepted. -/
def accepted (k : String) (exchanges : List (Command × Except CommandError Frame)) :
    List (Op Bytes) :=
  exchanges.filterMap (acceptedOp k)

/-- The value in the reply to a pop of `k`. -/
def poppedValue (k : String) : Command × Except CommandError Frame → Option Bytes
  | (.lpop key, .ok (.bulk value)) | (.rpop key, .ok (.bulk value)) =>
      if key = k then some value else none
  | _ => none

/-- The values in the replies to the pops of `k`. -/
def poppedValues (k : String) (exchanges : List (Command × Except CommandError Frame)) :
    List Bytes :=
  exchanges.filterMap (poppedValue k)

/-- What a deque replies: the new length, or the value taken out. -/
def dequeReply (op : Op Bytes) (list : List Bytes) : Frame :=
  match op with
  | .push _ _ => .integer (Int64.ofNat (op.after list).length)
  | .pop _ => bulkOrNull (op.taken list)

theorem accepted_cons (k : String) (exchange : Command × Except CommandError Frame)
    (exchanges : List (Command × Except CommandError Frame)) :
    accepted k (exchange :: exchanges) =
      (acceptedOp k exchange).toList ++ accepted k exchanges := by
  rw [accepted, List.filterMap_cons]
  cases acceptedOp k exchange with
  | none => rfl
  | some op => rfl

theorem poppedValues_cons (k : String) (exchange : Command × Except CommandError Frame)
    (exchanges : List (Command × Except CommandError Frame)) :
    poppedValues k (exchange :: exchanges) =
      (poppedValue k exchange).toList ++ poppedValues k exchanges := by
  rw [poppedValues, List.filterMap_cons]
  cases poppedValue k exchange with
  | none => rfl
  | some value => rfl

/-! ### One command -/

variable {store : MemoryStore} {k : String} {list : List Bytes}

theorem dequeOp_cases {command : Command} {op : Op Bytes} (hop : command.dequeOp k = some op) :
    (∃ values, command = .lpush k values ∧ op = .push .front values) ∨
      (∃ values, command = .rpush k values ∧ op = .push .back values) ∨
      (command = .lpop k ∧ op = .pop .front) ∨
      (command = .rpop k ∧ op = .pop .back) := by
  cases command with
  | lpush key values | rpush key values | lpop key | rpop key =>
    simp only [Command.dequeOp, Option.ite_none_right_eq_some, Option.some.injEq] at hop
    obtain ⟨rfl, rfl⟩ := hop
    simp
  | _ => cases hop

theorem act_of_spares {command : Command} (hspares : command.Spares k)
    (hother : command.dequeOp k = none) {op : StoreOp} (hop : command.storeOp = some op)
    (env : OpEnv) : op.act env k = .pass ∨ op.act env k = .look ∨ op.act env k = .undate := by
  cases command with
  | ping | echo => cases hop
  | set | expire | expireAt =>
    cases hop
    exact Or.inl (if_neg (Ne.symm hspares))
  | del keys =>
    cases hop
    exact Or.inl (if_neg hspares)
  | lpush key | rpush key | lpop key | rpop key =>
    cases hop
    have hkey : key ≠ k := by
      intro hkey
      simp [Command.dequeOp, hkey] at hother
    exact Or.inl (if_neg (Ne.symm hkey))
  | dbSize | info | aerugoStats =>
    cases hop
    exact Or.inr (Or.inl rfl)
  | _ =>
    cases hop
    simp only [StoreOp.act]
    split <;> simp

/-- A command that is no push or pop of the key leaves its list. -/
theorem execute_holdsList (hkeeps : store.KeepsKeys)
    (h : HoldsList (store.entries.lookup k) list) {command : Command}
    (hspares : command.Spares k) (hother : command.dequeOp k = none) (env : Env) :
    HoldsList ((command.execute env store).2.entries.lookup k) list := by
  rw [execute_store]
  cases hop : command.storeOp with
  | none => exact h
  | some op => exact StoreOp.run_holdsList hkeeps h (act_of_spares hspares hother hop env.opEnv)

/-- The command did what the operation does to the deque, or was rejected. -/
def Answered (k : String) (op : Op Bytes) (list : List Bytes)
    (outcome : Except CommandError Frame × MemoryStore) : Prop :=
  (outcome.1 = .ok (dequeReply op list) ∧
      HoldsList (outcome.2.entries.lookup k) (op.after list)) ∨
    (outcome.1 = .error .outOfMemory ∧ (∃ place values, op = .push place values) ∧
      HoldsList (outcome.2.entries.lookup k) list)

/-- A push or a pop of the key. -/
theorem execute_answered (hkeeps : store.KeepsKeys)
    (h : HoldsList (store.entries.lookup k) list) {command : Command} {op : Op Bytes}
    (hop : command.dequeOp k = some op) (env : Env) :
    Answered k op list (command.execute env store) := by
  have hpush : ∀ side values,
      Answered k (.push side.place values) list
        (reply (fun len => .integer (Int64.ofNat len))
            (store.push env.picks env.clock.now k values side).1,
          (store.push env.picks env.clock.now k values side).2) := by
    intro side values
    rcases MemoryStore.push_holdsList hkeeps h env.picks env.clock.now values side with
      ⟨hresult, hholds⟩ | ⟨hresult, hholds⟩
    · left
      rw [hresult]
      exact ⟨rfl, hholds⟩
    · right
      rw [hresult]
      exact ⟨rfl, ⟨side.place, values, rfl⟩, hholds⟩
  have hpop : ∀ side,
      Answered k (.pop side.place) list
        (reply bulkOrNull (store.pop env.clock.now k side).1,
          (store.pop env.clock.now k side).2) := by
    intro side
    obtain ⟨hresult, hholds⟩ := MemoryStore.pop_holdsList h env.clock.now side
    left
    rw [hresult]
    exact ⟨rfl, hholds⟩
  rcases dequeOp_cases hop with
    ⟨values, rfl, rfl⟩ | ⟨values, rfl, rfl⟩ | ⟨rfl, rfl⟩ | ⟨rfl, rfl⟩
  · exact hpush .left values
  · exact hpush .right values
  · exact hpop .left
  · exact hpop .right

theorem poppedValue_of_other {command : Command} (hother : command.dequeOp k = none)
    (result : Except CommandError Frame) : poppedValue k (command, result) = none := by
  cases command with
  | lpop key | rpop key =>
    have hkey : key ≠ k := by
      intro hkey
      simp [Command.dequeOp, hkey] at hother
    unfold poppedValue
    split <;> simp_all
  | _ => rfl

/-- A reply shows the value that is taken out. -/
theorem poppedValue_dequeReply {command : Command} {op : Op Bytes}
    (hop : command.dequeOp k = some op) (list : List Bytes) :
    poppedValue k (command, .ok (dequeReply op list)) = op.taken list := by
  have hpop : ∀ command, command = Command.lpop k ∨ command = .rpop k → ∀ value,
      poppedValue k (command, .ok (bulkOrNull value)) = value := by
    rintro command (rfl | rfl) (_ | value)
    · rfl
    · exact if_pos rfl
    · rfl
    · exact if_pos rfl
  rcases dequeOp_cases hop with
    ⟨values, rfl, rfl⟩ | ⟨values, rfl, rfl⟩ | ⟨rfl, rfl⟩ | ⟨rfl, rfl⟩
  · rfl
  · rfl
  · exact hpop _ (Or.inl rfl) _
  · exact hpop _ (Or.inr rfl) _

/-! ### Runs -/

/-- After a run the cell holds what the deque holds, and the replies showed what came out
    of it. -/
theorem run_holdsList (hkeeps : store.KeepsKeys) (h : HoldsList (store.entries.lookup k) list)
    {commands : List (Command × Env)} (hspares : ∀ command ∈ commands, command.1.Spares k) :
    HoldsList ((runCommands commands store).entries.lookup k)
        (contents (accepted k (exchanges commands store)) list) ∧
      poppedValues k (exchanges commands store) =
        popped (accepted k (exchanges commands store)) list := by
  induction commands generalizing store list with
  | nil => exact ⟨h, rfl⟩
  | cons event commands ih =>
    obtain ⟨command, env⟩ := event
    have hrest := fun event hevent => hspares event (List.mem_cons_of_mem _ hevent)
    have hkeeps' : (command.execute env store).2.KeepsKeys := by
      rw [MemoryStore.KeepsKeys, execute_config]
      exact hkeeps
    simp only [exchanges, accepted_cons, poppedValues_cons]
    cases hop : command.dequeOp k with
    | none =>
      have hspared := hspares _ List.mem_cons_self
      have haccepted : ∀ result, acceptedOp k (command, result) = none := by
        intro result
        cases result with
        | ok frame => exact hop
        | error error => rfl
      rw [haccepted, poppedValue_of_other hop]
      exact ih hkeeps' (execute_holdsList hkeeps h hspared hop env) hrest
    | some op =>
      rcases execute_answered hkeeps h hop env with ⟨hreply, hholds⟩ | ⟨hreply, -, hholds⟩
      · have haccepted : acceptedOp k (command, .ok (dequeReply op list)) = some op := hop
        obtain ⟨hcell, hpopped⟩ := ih hkeeps' hholds hrest
        rw [hreply, haccepted, poppedValue_dequeReply hop, hpopped]
        exact ⟨hcell, rfl⟩
      · have hshown : poppedValue k (command, .error .outOfMemory) = none := by
          cases command <;> rfl
        rw [hreply, hshown]
        exact ih hkeeps' hholds hrest

/-- **A list is a double-ended queue.**  After any run that spares a key which was absent,
    `LRANGE` shows the deque on which the accepted pushes and the pops acted, the next
    push or pop is answered by it unless a push is rejected, no value is lost or doubled,
    and a run that uses the list as a queue gets its values in the order they went in. -/
theorem list_deque (hkeeps : store.KeepsKeys) (habsent : k ∉ store.entries)
    (commands : List (Command × Env)) (hspares : ∀ command ∈ commands, command.1.Spares k) :
    let ops := accepted k (exchanges commands store)
    let values := poppedValues k (exchanges commands store)
    let after := runCommands commands store
    (∀ env, wholeList env after k = .ok (.array ((contents ops []).map Frame.bulk))) ∧
    (∀ (command : Command) op, command.dequeOp k = some op → ∀ env,
      (command.execute env after).1 = .ok (dequeReply op (contents ops [])) ∨
        (command.execute env after).1 = .error .outOfMemory ∧
          ∃ place values, op = .push place values) ∧
    values = popped ops [] ∧
    (pushed ops).Perm (values ++ contents ops []) ∧
    ((∀ op ∈ ops, op.IsQueue) → pushed ops = values ++ contents ops []) := by
  intro ops values after
  have hempty : HoldsList (store.entries.lookup k) [] :=
    Or.inr ⟨Finmap.lookup_eq_none.mpr habsent, rfl⟩
  obtain ⟨hholds, hvalues⟩ := run_holdsList hkeeps hempty hspares
  have hkept : after.KeepsKeys := by
    rw [MemoryStore.KeepsKeys, runCommands_config]
    exact hkeeps
  refine ⟨?_, ?_, hvalues, ?_, ?_⟩
  · intro env
    rw [wholeList_eq, hholds.visible_eq]
    rcases hholds with hcell | ⟨hcell, hnil⟩
    · rw [hcell]
    · rw [hcell, hnil]
      rfl
  · intro command op hop env
    rcases execute_answered hkept hholds hop env with ⟨hreply, -⟩ | ⟨hreply, hpush, -⟩
    · exact Or.inl hreply
    · exact Or.inr ⟨hreply, hpush⟩
  · have hconserves := conserves_run ops []
    rw [List.append_nil, ← hvalues] at hconserves
    exact hconserves
  · intro hqueue
    have horder := queue_in_order hqueue []
    rw [List.nil_append, ← hvalues] at horder
    exact horder

/-- A list is emptied and created again, after a push that is rejected. -/
def reusedList : List (Command × Env) := [
  (.rpush "k" [[1], [2]], .at 0 0), (.lpop "k", .at 1 0), (.set "other" [9], .at 2 0),
  (.lpop "k", .at 3 0), (.lpush "k" [[4], [5]], .at 4 0), (.rpush "k" [[3]], .at 5 0)]

theorem list_deque_reused :
    let store := MemoryStore.withConfig ⟨some 170, .noEviction⟩
    wholeList (.at 6 0) (runCommands reusedList store) "k" = .ok (.array [.bulk [3]]) ∧
      [[1], [2], [3]] = poppedValues "k" (exchanges reusedList store) ++ [[3]] := by
  intro store
  have hspares : ∀ command ∈ reusedList, command.1.Spares "k" := by
    intro command hcommand
    simp only [reusedList, List.mem_cons, List.not_mem_nil, or_false] at hcommand
    rcases hcommand with rfl | rfl | rfl | rfl | rfl | rfl
    all_goals simp [Command.Spares]
  have hops : accepted "k" (exchanges reusedList store) =
      [.push .back [[1], [2]], .pop .front, .pop .front, .push .back [[3]]] := by
    decide +kernel
  have hkeeps : store.KeepsKeys := Or.inr rfl
  obtain ⟨hwhole, -, -, -, horder⟩ :=
    list_deque hkeeps Finmap.notMem_empty reusedList hspares
  rw [hops] at hwhole horder
  refine ⟨hwhole (.at 6 0), horder ?_⟩
  simp [Op.IsQueue]

end AerugoCache.Commands
