import AerugoCache.CommandCodec
import AerugoCache.Effects
import AerugoCache.LogScan
import AerugoCache.Server

/-!
# The log of one client, and its replay

Requests handled one after another leave a log whose bytes are the records of the
commands that succeeded, in order.  Replay decodes exactly these records, so what it
does is a function of the logged commands, `replayCommands`.  A relation between the
live store and the replayed one that every step preserves then holds at the end of
the run (`lockstep`); the clients of this module only supply the step.
-/

namespace AerugoCache.Replay

open AerugoCache.ByteText AerugoCache.Protocol AerugoCache.Storage AerugoCache.Commands
  AerugoCache.Persistence AerugoCache.Server

/-! ### What a request does to the store and to the log -/

/-- The store after a request. -/
def nextStore (request : Request) (store : MemoryStore) : MemoryStore :=
  (executeRequest request store).2

/-- The record a request appends. -/
def appendedFrame (request : Request) (store : MemoryStore) : Option Frame :=
  match (executeRequest request store).1 with
  | .ok (_, aofFrame) => aofFrame
  | .error _ => none

/-- The command that replaying this record executes. -/
def loggedCommand (request : Request) (store : MemoryStore) : Option Command :=
  match Command.fromFrame request.frame with
  | .ok command =>
      if (command.execute request.env store).1.isOk ∧
          (command.toAofFrame request.env.clock).isSome then
        some (command.replayed request.env.clock)
      else none
  | .error _ => none

@[simp] theorem nextStore_config (request : Request) (store : MemoryStore) :
    (nextStore request store).config = store.config := by
  unfold nextStore executeRequest
  cases Command.fromFrame request.frame with
  | ok command => exact execute_config command request.env store
  | error error => rfl

theorem loggedCommand_some {request : Request} {store : MemoryStore} {logged : Command}
    (h : loggedCommand request store = some logged) :
    ∃ command, Command.fromFrame request.frame = .ok command ∧
      (command.execute request.env store).1.isOk = true ∧
      (command.toAofFrame request.env.clock).isSome ∧
      logged = command.replayed request.env.clock ∧
      nextStore request store = (command.execute request.env store).2 := by
  unfold loggedCommand at h
  split at h
  · rename_i command hparse
    split at h
    · rename_i hok
      cases h
      refine ⟨command, hparse, hok.1, hok.2, rfl, ?_⟩
      simp [nextStore, executeRequest, hparse]
    · cases h
  · cases h

/-- A request without a record: it does not parse, it fails, or it is not logged. -/
theorem loggedCommand_none {request : Request} {store : MemoryStore}
    (h : loggedCommand request store = none) :
    nextStore request store = store ∨
      ∃ command, Command.fromFrame request.frame = .ok command ∧
        nextStore request store = (command.execute request.env store).2 ∧
        ((command.execute request.env store).1.isOk = false ∨
          command.toAofFrame request.env.clock = none) := by
  unfold loggedCommand at h
  split at h
  · rename_i command hparse
    split at h
    · cases h
    · rename_i hnot
      refine Or.inr ⟨command, hparse, ?_, ?_⟩
      · simp [nextStore, executeRequest, hparse]
      · simpa only [not_and_or, Bool.not_eq_true, Option.isSome_eq_false_iff,
        Option.isNone_iff_eq_none] using hnot
  · rename_i hparse
    refine Or.inl ?_
    simp [nextStore, executeRequest, hparse]

def runStore : List Request → MemoryStore → MemoryStore
  | [], store => store
  | request :: requests, store => runStore requests (nextStore request store)

def appendedFrames : List Request → MemoryStore → List Frame
  | [], _ => []
  | request :: requests, store =>
      (appendedFrame request store).toList ++ appendedFrames requests (nextStore request store)

def loggedCommands : List Request → MemoryStore → List Command
  | [], _ => []
  | request :: requests, store =>
      (loggedCommand request store).toList ++ loggedCommands requests (nextStore request store)

/-- An append that succeeds adds the bytes of the record. -/
theorem handleRequest_written {request : Request} (hwritten : request.outcome = .written)
    (store : MemoryStore) (log : Bytes) :
    (handleRequest request { store, aof := some log }).2 =
      { store := nextStore request store
        aof := some (log ++ (appendedFrame request store).toList.flatMap writeFrame) } := by
  unfold handleRequest nextStore appendedFrame
  rcases executeRequest request store with ⟨_ | ⟨response, _ | frame⟩, after⟩
  · simp
  · simp [appendCommand]
  · simp [appendCommand, hwritten, append]

theorem serve_written {requests : List Request}
    (hwritten : ∀ request ∈ requests, request.outcome = .written) (store : MemoryStore)
    (log : Bytes) :
    (serve requests { store, aof := some log }).2 =
      { store := runStore requests store
        aof := some (log ++ (appendedFrames requests store).flatMap writeFrame) } := by
  induction requests generalizing store log with
  | nil => simp [serve, runStore, appendedFrames]
  | cons request requests ih =>
    have hrest := ih fun r hr => hwritten r (List.mem_cons_of_mem _ hr)
    simp only [serve, handleRequest_written (hwritten request List.mem_cons_self), hrest,
      runStore, appendedFrames, List.flatMap_append, List.append_assoc]

/-! ### Records of a run -/

/-- The appended frame of a request is the record of its logged command. -/
theorem exists_appended (request : Request) (store : MemoryStore) :
    ∃ record : Option Record, record.map Record.frame = appendedFrame request store ∧
      record.map Record.command = loggedCommand request store := by
  unfold appendedFrame loggedCommand executeRequest
  cases hparse : Command.fromFrame request.frame with
  | error error => exact ⟨none, rfl, rfl⟩
  | ok command =>
    cases hresult : (command.execute request.env store).1 with
    | error error =>
      refine ⟨none, ?_, ?_⟩
      · simp [hresult, Except.map]
      · simp [hresult, Except.isOk, Except.toBool]
    | ok response =>
      cases hlog : command.toAofFrame request.env.clock with
      | none => exact ⟨none, by simp [hresult, hlog, Except.map], by simp [hlog]⟩
      | some frame =>
        obtain ⟨record, hframe, hcommand⟩ := exists_record hparse request.held hlog
        refine ⟨some record, ?_, ?_⟩
        · simp [hresult, hlog, Except.map, hframe]
        · simp [hresult, hlog, Except.isOk, Except.toBool, hcommand]

theorem exists_records (requests : List Request) (store : MemoryStore) :
    ∃ records : List Record, records.map Record.frame = appendedFrames requests store ∧
      records.map Record.command = loggedCommands requests store := by
  induction requests generalizing store with
  | nil => exact ⟨[], rfl, rfl⟩
  | cons request requests ih =>
    obtain ⟨record, hframe, hcommand⟩ := exists_appended request store
    obtain ⟨records, hframes, hcommands⟩ := ih (nextStore request store)
    refine ⟨record.toList ++ records, ?_, ?_⟩
    · rw [List.map_append, hframes, appendedFrames, ← hframe]
      cases record <;> rfl
    · rw [List.map_append, hcommands, loggedCommands, ← hcommand]
      cases record <;> rfl

/-! ### Replaying records -/

/-- The loop of `replay` on commands that were already decoded and parsed. -/
def replayCommands (envs : Nat → Env) :
    List Command → Nat → Nat → MemoryStore → Nat × MemoryStore
  | [], _, count, store => (count, store)
  | command :: commands, round, count, store =>
      let (result, store) := command.execute (envs round) store
      replayCommands envs commands (round + 1) (if result.isOk then count + 1 else count) store

theorem replayFrame_parsed {frame : Frame} {command : Command}
    (h : Command.fromFrame frame = .ok command) (env : Env) (count : Nat) (store : MemoryStore) :
    replayFrame frame env count store =
      (if (command.execute env store).1.isOk then count + 1 else count,
        (command.execute env store).2) := by
  rw [replayFrame, h]
  rcases hexecute : command.execute env store with ⟨_ | _, after⟩ <;>
    simp [hexecute, Except.isOk, Except.toBool]

theorem replayFrames_records (envs : Nat → Env) (records : List Record) (round count : Nat)
    (store : MemoryStore) :
    replayFrames envs (records.map Record.frame) round count store =
      replayCommands envs (records.map Record.command) round count store := by
  induction records generalizing round count store with
  | nil => rfl
  | cons record records ih =>
    simp only [List.map_cons, replayFrames, replayCommands, replayFrame_parsed record.parses]
    exact ih (round + 1) _ _

/-- On the bytes of records, `replay` executes their commands and ends with `Ok`. -/
theorem replay_records (records : List Record) (envs : Nat → Env) (store : MemoryStore) :
    replay .unlimited envs (some ((records.map Record.frame).flatMap writeFrame)) store =
      (.ok (replayCommands envs (records.map Record.command) 0 0 store).1,
        (replayCommands envs (records.map Record.command) 0 0 store).2) := by
  have hread : ∀ frame ∈ records.map Record.frame, frame.Readable := by
    simpa using fun record _ => Record.readable record
  have hfits : ∀ frame ∈ records.map Record.frame, frame.Fits .unlimited := by
    simpa using fun record _ => Record.fits record
  rw [replay_scan, scanLog_whole hread hfits, replayFrames_records]
  rfl

/-- **Replay of a run.**  On the log of a run whose appends succeed, `replay` ends
    with `Ok` and does what executing the logged commands does. -/
theorem replay_serve {requests : List Request}
    (hwritten : ∀ request ∈ requests, request.outcome = .written) (config : StoreConfig)
    (envs : Nat → Env) (store : MemoryStore) :
    replay .unlimited envs (serve requests (.initial config)).2.aof store =
      (.ok (replayCommands envs (loggedCommands requests (.withConfig config)) 0 0 store).1,
        (replayCommands envs (loggedCommands requests (.withConfig config)) 0 0 store).2) := by
  obtain ⟨records, hframes, hcommands⟩ := exists_records requests (.withConfig config)
  rw [ServerState.initial, serve_written hwritten, List.nil_append, ← hframes, ← hcommands]
  exact replay_records records envs store

theorem serve_store {requests : List Request}
    (hwritten : ∀ request ∈ requests, request.outcome = .written) (config : StoreConfig) :
    (serve requests (.initial config)).2.store = runStore requests (.withConfig config) := by
  rw [ServerState.initial, serve_written hwritten]

theorem length_loggedCommands (requests : List Request) (store : MemoryStore) :
    (loggedCommands requests store).length = (appendedFrames requests store).length := by
  obtain ⟨records, hframes, hcommands⟩ := exists_records requests store
  rw [← hframes, ← hcommands, List.length_map, List.length_map]

/-! ### The live run and its replay in step

A condition on a run may look back: `next` extends a history of the run by a request
and the store it found. -/

section Lockstep

variable {γ : Type} (next : γ → Request → MemoryStore → γ)

/-- Every request of the run meets `good` when its turn comes. -/
def Along (good : γ → Request → MemoryStore → Prop) : γ → List Request → MemoryStore → Prop
  | _, [], _ => True
  | history, request :: requests, store =>
      good history request store ∧
        Along good (next history request store) requests (nextStore request store)

instance decidableAlong {good : γ → Request → MemoryStore → Prop}
    [∀ history request store, Decidable (good history request store)] :
    ∀ history requests store, Decidable (Along next good history requests store)
  | _, [], _ => isTrue trivial
  | history, request :: requests, store =>
      @instDecidableAnd _ _ (inferInstanceAs (Decidable (good history request store)))
        (decidableAlong (next history request store) requests (nextStore request store))

def historyAfter : γ → List Request → MemoryStore → γ
  | history, [], _ => history
  | history, request :: requests, store =>
      historyAfter (next history request store) requests (nextStore request store)

/-- A condition on every request of the list joins one along the run. -/
theorem Along.and_mem {good : γ → Request → MemoryStore → Prop} {P : Request → Prop} {history : γ}
    {requests : List Request} {store : MemoryStore} (hP : ∀ request ∈ requests, P request)
    (h : Along next good history requests store) :
    Along next (fun history request store => P request ∧ good history request store)
      history requests store := by
  induction requests generalizing history store with
  | nil => trivial
  | cons request requests ih =>
    exact ⟨⟨hP request List.mem_cons_self, h.1⟩,
      ih (fun r hr => hP r (List.mem_cons_of_mem _ hr)) h.2⟩

/-- A relation between the history, the live store, the number of records, the number
    of commands replayed and the replayed store holds at the end of a run if every
    step preserves it: the live store handles the request, and the replay executes
    the logged command if there is one. -/
theorem lockstep (R : γ → MemoryStore → Nat → Nat → MemoryStore → Prop) (envs : Nat → Env)
    {good : γ → Request → MemoryStore → Prop}
    (hskip : ∀ {history request live round count replayed},
      R history live round count replayed → good history request live →
      loggedCommand request live = none →
      R (next history request live) (nextStore request live) round count replayed)
    (hlog : ∀ {history request live round count replayed command},
      R history live round count replayed → good history request live →
      loggedCommand request live = some command →
      R (next history request live) (nextStore request live) (round + 1)
        (if (command.execute (envs round) replayed).1.isOk then count + 1 else count)
        (command.execute (envs round) replayed).2)
    {history : γ} {requests : List Request} {live replayed : MemoryStore} {round count : Nat}
    (hstart : R history live round count replayed) (hgood : Along next good history requests live) :
    R (historyAfter next history requests live) (runStore requests live)
      (round + (loggedCommands requests live).length)
      (replayCommands envs (loggedCommands requests live) round count replayed).1
      (replayCommands envs (loggedCommands requests live) round count replayed).2 := by
  induction requests generalizing history live replayed round count with
  | nil => exact hstart
  | cons request requests ih =>
    obtain ⟨hrequest, hrest⟩ := hgood
    cases hlogged : loggedCommand request live with
    | none =>
      have hnext := ih (hskip hstart hrequest hlogged) hrest
      simpa only [historyAfter, runStore, loggedCommands, hlogged, Option.toList_none,
        List.nil_append] using hnext
    | some command =>
      have hnext := ih (hlog hstart hrequest hlogged) hrest
      rw [Nat.add_assoc, Nat.add_comm 1] at hnext
      simpa only [historyAfter, runStore, loggedCommands, hlogged, Option.toList_some,
        List.singleton_append, List.length_cons, replayCommands] using hnext

end Lockstep

end AerugoCache.Replay
