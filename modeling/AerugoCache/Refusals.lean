import AerugoCache.VisibleStore

/-!
# Refusals

A write that does not fit under the memory limit is refused: it is answered with the error
for want of memory, and nothing that the store shows has changed.
-/

namespace AerugoCache.Server

open AerugoCache.ByteText AerugoCache.KeyedMap AerugoCache.Protocol AerugoCache.Storage
  AerugoCache.Commands AerugoCache.Persistence

/-- Executing the request fails for want of memory. -/
def refused (request : Request) (store : MemoryStore) : Bool :=
  match Command.fromFrame request.frame with
  | .ok command =>
      match (command.execute request.env store).1 with
      | .error .outOfMemory => true
      | _ => false
  | .error _ => false

/-- The server without its memory limit. -/
def ServerState.lifted (state : ServerState) : ServerState :=
  { state with store.config.maxMemoryBytes := none }

/-! ### Refusals -/

theorem reply_outOfMemory {α : Type} {frame : α → Frame} {result : Except StoreError α} :
    reply frame result = .error .outOfMemory ↔ result = .error .outOfMemory := by
  rcases result with error | value
  · cases error <;> simp [reply, CommandError.ofStoreError]
  · simp [reply]

theorem bytes_ne_outOfMemory (cell : Option Entry) :
    EagerStore.bytes cell ≠ .error .outOfMemory := by
  rcases cell with _ | ⟨_ | _, _⟩ <;> simp [EagerStore.bytes]

theorem popResult_ne_outOfMemory (side : Side) (cell : Option Entry) :
    popResult side cell ≠ .error .outOfMemory := by
  rcases cell with _ | ⟨_ | _, _⟩ <;> simp [popResult]

theorem items_ne_outOfMemory (slice : List Bytes → List Bytes) (cell : Option Entry) :
    (EagerStore.items cell).map slice ≠ .error .outOfMemory := by
  rcases cell with _ | ⟨_ | _, _⟩ <;> simp [EagerStore.items, Except.map]

theorem written_isOutOfMemory (result : Except StoreError Unit) :
    (StoreResult.written result).IsOutOfMemory ↔ result = .error .outOfMemory := by
  rcases result with (_ | _) | _ <;> simp [StoreResult.IsOutOfMemory]

theorem length_isOutOfMemory (result : Except StoreError Nat) :
    (StoreResult.length result).IsOutOfMemory ↔ result = .error .outOfMemory := by
  rcases result with (_ | _) | _ <;> simp [StoreResult.IsOutOfMemory]

/-- A command fails for want of memory if its operation does. -/
theorem execute_outOfMemory (command : Command) (env : Env) (store : MemoryStore) :
    (command.execute env store).1 = .error .outOfMemory ↔ ¬ Admitted command env store := by
  have hwrite : ∀ op, command.storeOp = some op →
      ((command.execute env store).1 = .error .outOfMemory ↔
        (op.run env.opEnv store).1.IsOutOfMemory) →
      ((command.execute env store).1 = .error .outOfMemory ↔ ¬ Admitted command env store) := by
    intro op hop hrun
    rw [hrun, StoreOp.isOutOfMemory_iff, Admitted, hop]
    simp
  have hread : (∀ op, command.storeOp = some op → op.written env.opEnv store = none) →
      (command.execute env store).1 ≠ .error .outOfMemory →
      ((command.execute env store).1 = .error .outOfMemory ↔ ¬ Admitted command env store) :=
    fun hwritten hne => iff_of_false hne <| not_not_intro fun op hop =>
      StoreOp.admitted_of_not_written (hwritten op hop)
  have hpop : ∀ side key, (store.pop env.clock.now key side).1 ≠ .error .outOfMemory := by
    intro side key
    rw [MemoryStore.pop_eq]
    exact popResult_ne_outOfMemory _ _
  cases command with
  | set key value => exact hwrite _ rfl (reply_outOfMemory.trans (written_isOutOfMemory _).symm)
  | lpush key values | rpush key values =>
    exact hwrite _ rfl (reply_outOfMemory.trans (length_isOutOfMemory _).symm)
  | get key =>
    refine hread (fun op hop => by cases hop; rfl) fun h => ?_
    exact bytes_ne_outOfMemory _ ((store.get_result _ _).symm.trans (reply_outOfMemory.mp h))
  | lpop key =>
    refine hread (fun op hop => by cases hop; rfl) fun h => ?_
    exact hpop .left key (reply_outOfMemory.mp h)
  | rpop key =>
    refine hread (fun op hop => by cases hop; rfl) fun h => ?_
    exact hpop .right key (reply_outOfMemory.mp h)
  | lrange key start stop =>
    refine hread (fun op hop => by cases hop; rfl) fun h => ?_
    exact items_ne_outOfMemory _ _
      ((store.lrange_result _ _ _ _).symm.trans (reply_outOfMemory.mp h))
  | ping value =>
    refine hread (fun op hop => by cases hop) ?_
    cases value <;> intro h <;> cases h
  | echo value =>
    refine hread (fun op hop => by cases hop) fun h => ?_
    cases h
  | _ =>
    refine hread (fun op hop => by cases hop; rfl) fun h => ?_
    cases h

theorem refused_iff (request : Request) (store : MemoryStore) :
    refused request store = true ↔ ¬ Request.Admitted request store := by
  unfold refused Request.Admitted
  rcases Command.fromFrame request.frame with error | command
  · simp
  · have houtcome := execute_outOfMemory command request.env store
    simp only [Except.ok.injEq, forall_eq']
    rw [← houtcome]
    split <;> simp_all

/-- A refused request is answered with the error, and leaves what the store shows. -/
theorem handleRequest_refused {request : Request} {state : ServerState}
    (h : refused request state.store = true) :
    (handleRequest request state).1 = Command.errorFrame .outOfMemory ∧
      (handleRequest request state).2 =
        { state with store := (executeRequest request state.store).2 } ∧
      SameVisible request.env.clock.now state.store.entries
        (executeRequest request state.store).2.entries := by
  rw [handleRequest_eq, handleFrame, executeRequest]
  unfold refused at h
  rcases hcommand : Command.fromFrame request.frame with error | command
  · rw [hcommand] at h
    cases h
  · rw [hcommand] at h
    simp only at h
    split at h
    · rename_i herror
      have hshown := sameVisible_of_error herror
      simp only
      generalize command.execute request.env state.store = outcome at herror hshown ⊢
      obtain ⟨result, store⟩ := outcome
      cases herror
      exact ⟨rfl, rfl, hshown⟩
    · cases h

end AerugoCache.Server
