import AerugoCache.Effects
import AerugoCache.Server
import AerugoCache.StoreSteps

/-!
# Error replies

What an operation changes of the entries that have not expired can be told from the
store before it: `StoreOp.Changes`, and `StoreOp.MayChange` where the choices of an
eviction are open.  A request that does not parse and one that fails on the store change
nothing.  A request whose record cannot be appended is answered with an error as well,
but it has been executed by then.
-/

namespace AerugoCache.Storage

open AerugoCache.ByteText AerugoCache.KeyedMap

/-- The maps show the same entries at `now`. -/
def SameVisible (now : SystemTime) (before after : Entries) : Prop :=
  ∀ key, visible now (after.lookup key) = visible now (before.lookup key)

/-- The act changes the cell of an entry that has not expired, or of no entry. -/
def KeyAct.Alters (now : SystemTime) : KeyAct → Option Entry → Prop
  | .pass, _ | .look, _ => False
  | .put value, cell => cell ≠ some { value := .string value, expiresAt := none }
  | .drop, cell => cell ≠ none
  | .date _, none | .undate, none | .pop _, none => False
  | .date deadline, some entry => deadline ≤ now ∨ entry.expiresAt ≠ some deadline
  | .undate, some entry => entry.expiresAt ≠ none
  | .push _ _, none => True
  | .push _ _, some ⟨.string _, _⟩ | .pop _, some ⟨.string _, _⟩ => False
  | .push _ values, some ⟨.list _, _⟩ => values ≠ []
  | .pop _, some ⟨.list _, _⟩ => True

/-- The write takes an entry that has not expired out of the map. -/
def StoreOp.EvictsVisible (op : StoreOp) (env : OpEnv) (store : MemoryStore) : Prop :=
  ∃ key entry, op.written env store = some (key, entry) ∧
    ∃ other kept, other ≠ key ∧ visible env.now (store.entries.lookup other) = some kept ∧
      (enforceMemoryLimit (store.entries.insert key entry) store.config (some key)
        env.picks).2.lookup other = none

/-- The operation changes what the store shows. -/
def StoreOp.Changes (op : StoreOp) (env : OpEnv) (store : MemoryStore) : Prop :=
  op.Admitted env store ∧
    ((∃ key, (op.act env key).Alters env.now (visible env.now (store.entries.lookup key))) ∨
      op.EvictsVisible env store)

/-- The write exceeds the limit, and there is another entry that has not expired. -/
def StoreOp.MayEvictVisible (op : StoreOp) (env : OpEnv) (store : MemoryStore) : Prop :=
  ∃ key entry maxMemoryBytes, op.written env store = some (key, entry) ∧
    store.config.maxMemoryBytes = some maxMemoryBytes ∧
    maxMemoryBytes < estimatedMemoryBytes (store.entries.insert key entry) ∧
    ∃ other, other ≠ key ∧ (visible env.now (store.entries.lookup other)).isSome

/-- The operation changes what the store shows, or may do so by an eviction. -/
def StoreOp.MayChange (op : StoreOp) (env : OpEnv) (store : MemoryStore) : Prop :=
  op.Admitted env store ∧
    ((∃ key, (op.act env key).Alters env.now (visible env.now (store.entries.lookup key))) ∨
      op.MayEvictVisible env store)

theorem popValue_ne {side : Side} {list : List Bytes} (h : list ≠ []) :
    (popValue side list).2 ≠ list := by
  intro heq
  have hlength := length_popValue side list
  have hpositive := List.length_pos_iff.mpr h
  rw [heq] at hlength
  omega

/-- An act that is not `pass` alters a cell exactly where it makes another one of it. -/
theorem KeyAct.alters_iff {now : SystemTime} {cell : Option Entry} (hcell : visible now cell = cell)
    (act : KeyAct) : act.Alters now cell ↔ visible now (act.update now cell) ≠ cell := by
  have hfresh : ∀ entry, cell = some entry → entry.isExpired now = false := by
    rintro entry rfl
    exact (visible_eq_some.mp hcell).2
  have hsame : ∀ value expiresAt, (∃ old, cell = some ⟨old, expiresAt⟩) →
      visible now (some ⟨value, expiresAt⟩) = some ⟨value, expiresAt⟩ := by
    rintro value expiresAt ⟨old, hold⟩
    have hexpired : Entry.isExpired ⟨old, expiresAt⟩ now = false := hfresh _ hold
    rw [visible_eq_some]
    exact ⟨rfl, hexpired⟩
  have hundated : ∀ value, visible now (some ⟨value, none⟩) = some ⟨value, none⟩ := by
    intro value
    rw [visible_eq_some]
    exact ⟨rfl, rfl⟩
  cases act with
  | pass | look =>
    simp only [KeyAct.Alters, KeyAct.update, hcell]
    simp
  | put value =>
    simp only [KeyAct.Alters, KeyAct.update, hundated]
    exact ne_comm
  | drop =>
    simp only [KeyAct.Alters, KeyAct.update, visible_none]
    exact ne_comm
  | date deadline =>
    rcases cell with _ | ⟨value, expiresAt⟩
    · simp [KeyAct.Alters, KeyAct.update, expireCell]
    · by_cases hpast : deadline ≤ now
      · simp [KeyAct.Alters, KeyAct.update, expireCell, hpast]
      · have hlive : visible now (some ⟨value, some deadline⟩) = some ⟨value, some deadline⟩ := by
          rw [visible_eq_some]
          exact ⟨rfl, by simp [Entry.isExpired, hpast]⟩
        simp only [KeyAct.Alters, KeyAct.update, expireCell, hpast, if_false, Option.map_some,
          hlive, false_or]
        simp [eq_comm]
  | undate =>
    rcases cell with _ | ⟨value, expiresAt⟩
    · simp [KeyAct.Alters, KeyAct.update, persistCell]
    · simp only [KeyAct.Alters, KeyAct.update, persistCell, Option.map_some, hundated]
      simp [eq_comm]
  | push side values =>
    rcases cell with _ | ⟨value | list, expiresAt⟩
    · simp [KeyAct.Alters, KeyAct.update, pushEntry, hundated]
    · simp [KeyAct.Alters, KeyAct.update, pushEntry, hcell]
    · simp only [KeyAct.Alters, KeyAct.update, pushEntry, Option.some_or]
      rw [hsame _ _ ⟨_, rfl⟩]
      constructor
      · intro hvalues heq
        have hlists : values.foldl (pushValue side) list = list := by simpa using heq
        have hlength := length_foldl_pushValue side values list
        rw [hlists] at hlength
        exact hvalues (List.eq_nil_of_length_eq_zero (by omega))
      · rintro hne rfl
        exact hne rfl
  | pop side =>
    rcases cell with _ | ⟨value | list, expiresAt⟩
    · simp [KeyAct.Alters, KeyAct.update, popCell]
    · simp [KeyAct.Alters, KeyAct.update, popCell, hcell]
    · simp only [KeyAct.Alters, KeyAct.update, popCell, true_iff]
      split
      · simp
      · rename_i hleft
        rw [hsame _ _ ⟨_, rfl⟩]
        intro heq
        have hlists : (popValue side list).2 = list := by simpa using heq
        refine popValue_ne ?_ hlists
        rintro rfl
        apply hleft
        cases side <;> rfl

theorem MemoryStore.Undone.sameVisible {before after : Entries} {key : String} {now : SystemTime}
    (h : MemoryStore.Undone before key now after) : SameVisible now before after := by
  intro k
  rw [h k]
  split
  · exact visible_visible now (before.lookup k)
  · rfl

theorem MemoryStore.commitWrite_entries {store : MemoryStore} {key : String} {entry : Entry}
    (h : Admits store.config store.entries key entry) (picks : Picks) (old : Option Entry) :
    (store.commitWrite picks key old entry).2.entries =
      (enforceMemoryLimit (store.entries.insert key entry) store.config (some key) picks).2 := by
  have hok := (store.commitWrite_result picks key old entry).1 h
  unfold MemoryStore.commitWrite at hok ⊢
  split
  · rename_i evicted entries henforce
    rw [henforce, MemoryStore.recordEvicted_entries, MemoryStore.withEntries_entries]
  · rename_i error entries henforce
    rw [henforce] at hok
    cases hok

/-- **What an operation changes** of the entries that have not expired. -/
theorem StoreOp.sameVisible_iff (op : StoreOp) (env : OpEnv) (store : MemoryStore) :
    SameVisible env.now store.entries (op.run env store).2.entries ↔ ¬ op.Changes env store := by
  constructor
  · rintro hsame ⟨hadmitted, ⟨key, halters⟩ | ⟨key, entry, hwritten, other, kept, -, hkept, hgone⟩⟩
    · have hact : op.act env key ≠ .pass := by
        intro hpass
        rw [hpass] at halters
        exact halters
      have hlookup := (StoreOp.lookup_of_admitted hadmitted key).resolve_right fun h => hact h.1
      have hkey := hsame key
      rw [hlookup, KeyAct.cell_of_ne_pass hact] at hkey
      exact (KeyAct.alters_iff (visible_visible _ _) _).mp halters hkey
    · have hother := hsame other
      rw [(StoreOp.run_of_written hwritten).1,
        MemoryStore.commitWrite_entries (hadmitted key entry hwritten), hgone, hkept] at hother
      cases hother
  · intro hnot key
    by_cases hadmitted : op.Admitted env store
    · rcases StoreOp.lookup_of_admitted hadmitted key with hlookup | ⟨hpass, hgone⟩
      · rw [hlookup]
        by_cases hact : op.act env key = .pass
        · rw [hact]
          rfl
        · rw [KeyAct.cell_of_ne_pass hact]
          by_contra hne
          apply hnot
          refine ⟨hadmitted, Or.inl ⟨key, ?_⟩⟩
          exact (KeyAct.alters_iff (visible_visible _ _) _).mpr hne
      · rw [hgone, visible_none]
        by_contra hne
        obtain ⟨kept, hkept⟩ := Option.ne_none_iff_exists'.mp (Ne.symm hne)
        rcases hwritten : op.written env store with _ | ⟨written, entry⟩
        · have hlookup := StoreOp.lookup_of_not_written hwritten key
          rw [hgone, hpass] at hlookup
          rw [show store.entries.lookup key = none from hlookup.symm] at hkept
          cases hkept
        · apply hnot
          refine ⟨hadmitted, Or.inr ⟨written, entry, hwritten, key, kept, ?_, hkept, ?_⟩⟩
          · exact (StoreOp.cell_of_written hwritten key).1.mp hpass
          · rw [← MemoryStore.commitWrite_entries (hadmitted written entry hwritten) env.picks
              (visible env.now (store.entries.lookup written)),
              ← (StoreOp.run_of_written hwritten).1]
            exact hgone
    · rw [StoreOp.lookup_of_refused hadmitted]
      split
      · rfl
      · exact visible_visible _ _

/-- An enforcement that takes an entry was over the limit. -/
theorem MemoryStore.over_of_taken {config : StoreConfig} {entries : Entries}
    {protectedKey : Option String} {picks : Picks} {key : String} {entry : Entry}
    (hbefore : entries.lookup key = some entry)
    (hgone : (enforceMemoryLimit entries config protectedKey picks).2.lookup key = none) :
    ∃ maxMemoryBytes, config.maxMemoryBytes = some maxMemoryBytes ∧
      maxMemoryBytes < estimatedMemoryBytes entries := by
  cases hmax : config.maxMemoryBytes with
  | none =>
    simp only [enforceMemoryLimit, hmax] at hgone
    rw [hbefore] at hgone
    cases hgone
  | some maxMemoryBytes =>
    refine ⟨maxMemoryBytes, rfl, ?_⟩
    by_contra hfits
    simp only [enforceMemoryLimit, hmax, if_pos (Nat.le_of_not_lt hfits)] at hgone
    rw [hbefore] at hgone
    cases hgone

/-- Where an operation may change what the store shows, some choices of an eviction do. -/
theorem StoreOp.mayChange_iff (op : StoreOp) (env : OpEnv) (store : MemoryStore) :
    op.MayChange env store ↔ ∃ picks, op.Changes { env with picks } store := by
  have hact : ∀ picks key, op.act { env with picks } key = op.act env key := by
    intro picks key
    cases op <;> rfl
  have hwritten : ∀ picks, op.written { env with picks } store = op.written env store := by
    intro picks
    cases op <;> rfl
  have hadmitted : ∀ picks, op.Admitted { env with picks } store ↔ op.Admitted env store := by
    intro picks
    simp only [StoreOp.Admitted, hwritten]
  constructor
  · rintro ⟨haccept, ⟨key, halters⟩ |
      ⟨key, entry, maxMemoryBytes, hsome, hmax, hover, other, hother, hlive⟩⟩
    · exact ⟨env.picks, haccept, Or.inl ⟨key, halters⟩⟩
    · obtain ⟨kept, hkept⟩ := Option.isSome_iff_exists.mp hlive
      obtain ⟨picks, later, after, henforce⟩ := MemoryStore.exists_evicted hmax
        (haccept key entry hsome) hover hother (visible_eq_some.mp hkept).1
      refine ⟨picks, (hadmitted picks).mpr haccept, Or.inr ⟨key, entry, ?_, other, kept, hother,
        hkept, ?_⟩⟩
      · rw [hwritten]
        exact hsome
      · have hgone := (enforceMemoryLimit_ok henforce).1.gone (other, kept) List.mem_cons_self
        rw [henforce]
        exact Finmap.lookup_eq_none.mpr hgone
  · rintro ⟨picks, haccept, ⟨key, halters⟩ | ⟨key, entry, hsome, other, kept, hother, hkept, hgone⟩⟩
    · refine ⟨(hadmitted picks).mp haccept, Or.inl ⟨key, ?_⟩⟩
      rw [← hact picks]
      exact halters
    · have hheld : (store.entries.insert key entry).lookup other = some kept := by
        rw [lookup_insert_eq, if_neg hother]
        exact (visible_eq_some.mp hkept).1
      obtain ⟨maxMemoryBytes, hmax, hover⟩ := MemoryStore.over_of_taken hheld hgone
      refine ⟨(hadmitted picks).mp haccept, Or.inr ⟨key, entry, maxMemoryBytes, ?_, hmax, hover,
        other, hother, ?_⟩⟩
      · rw [← hwritten picks]
        exact hsome
      · have hlive : visible env.now (store.entries.lookup other) = some kept := hkept
        rw [hlive]
        rfl

end AerugoCache.Storage

namespace AerugoCache.Server

open AerugoCache.ByteText AerugoCache.KeyedMap AerugoCache.Protocol AerugoCache.Storage
  AerugoCache.Commands AerugoCache.Persistence

/-! ### Commands -/

/-- The command changes what the store shows. -/
def Changes (command : Command) (env : Env) (store : MemoryStore) : Prop :=
  ∃ op, command.storeOp = some op ∧ op.Changes env.opEnv store

/-- The command changes what the store shows, or may do so by an eviction. -/
def MayChange (command : Command) (env : Env) (store : MemoryStore) : Prop :=
  ∃ op, command.storeOp = some op ∧ op.MayChange env.opEnv store

theorem mayChange_iff (command : Command) (env : Env) (store : MemoryStore) :
    MayChange command env store ↔ ∃ picks, Changes command { env with picks } store := by
  constructor
  · rintro ⟨op, hop, hchange⟩
    obtain ⟨picks, hchanges⟩ := (op.mayChange_iff env.opEnv store).mp hchange
    exact ⟨picks, op, hop, hchanges⟩
  · rintro ⟨picks, op, hop, hchanges⟩
    exact ⟨op, hop, (op.mayChange_iff env.opEnv store).mpr ⟨picks, hchanges⟩⟩

theorem sameVisible_execute (command : Command) (env : Env) (store : MemoryStore) :
    SameVisible env.clock.now store.entries (command.execute env store).2.entries ↔
      ¬ Changes command env store := by
  rw [execute_store]
  cases hop : command.storeOp with
  | none =>
    refine iff_of_true (fun key => rfl) ?_
    rintro ⟨op, hsome, -⟩
    rw [hop] at hsome
    cases hsome
  | some op =>
    have hchanges : Changes command env store ↔ op.Changes env.opEnv store := by
      simp [Changes, hop]
    rw [hchanges]
    exact op.sameVisible_iff env.opEnv store

theorem reply_eq_ok {α : Type} {frame : α → Frame} {result : Except StoreError α}
    {response : Frame} (h : reply frame result = .ok response) :
    ∃ value, response = frame value := by
  cases result with
  | ok value => exact ⟨value, (Except.ok.inj h).symm⟩
  | error error => cases h

/-- The reply to a command that succeeds is no error. -/
theorem execute_ne_error {command : Command} {env : Env} {store : MemoryStore} {response : Frame}
    (h : (command.execute env store).1 = .ok response) (text : String) :
    response ≠ .error text := by
  cases command with
  | ping value =>
    cases value <;>
      · cases Except.ok.inj h
        nofun
  | set | lpush | rpush | lrange =>
    obtain ⟨value, rfl⟩ := reply_eq_ok h
    nofun
  | get | lpop | rpop =>
    obtain ⟨value, rfl⟩ := reply_eq_ok h
    cases value <;> nofun
  | _ =>
    cases Except.ok.inj h
    nofun

theorem reply_eq_error {α : Type} {frame : α → Frame} {result : Except StoreError α}
    {error : CommandError} (h : reply frame result = .error error) :
    ∃ storeError, result = .error storeError := by
  cases result with
  | ok value => cases h
  | error storeError => exact ⟨storeError, rfl⟩

/-- A command that fails leaves what the store shows. -/
theorem sameVisible_of_error {command : Command} {env : Env} {store : MemoryStore}
    {error : CommandError} (h : (command.execute env store).1 = .error error) :
    SameVisible env.clock.now store.entries (command.execute env store).2.entries := by
  have hlook : ∀ key, SameVisible env.clock.now store.entries
      (store.withCell key (visible env.clock.now (store.entries.lookup key))).entries :=
    fun key => (store.undone_withCell key env.clock.now).sameVisible
  have hpop : ∀ side key, (reply bulkOrNull (store.pop env.clock.now key side).1 = .error error) →
      SameVisible env.clock.now store.entries (store.pop env.clock.now key side).2.entries := by
    intro side key herror
    obtain ⟨storeError, hpopped⟩ := reply_eq_error herror
    rw [MemoryStore.pop_eq] at hpopped ⊢
    rcases hcell : visible env.clock.now (store.entries.lookup key) with
      _ | ⟨value | list, expiresAt⟩
    · rw [hcell] at hpopped
      cases hpopped
    · have hsame := hlook key
      rw [hcell] at hsame
      exact hsame
    · rw [hcell] at hpopped
      cases hpopped
  cases command with
  | set key value =>
    obtain ⟨storeError, hset⟩ := reply_eq_error h
    exact (MemoryStore.set_error (Prod.ext hset rfl)).sameVisible
  | lpush key values =>
    obtain ⟨storeError, hpush⟩ := reply_eq_error h
    exact (MemoryStore.push_error (Prod.ext hpush rfl)).sameVisible
  | rpush key values =>
    obtain ⟨storeError, hpush⟩ := reply_eq_error h
    exact (MemoryStore.push_error (Prod.ext hpush rfl)).sameVisible
  | get key =>
    change SameVisible _ _ (store.get env.clock.now key).2.entries
    rw [MemoryStore.get_store]
    exact hlook key
  | lrange key start stop =>
    change SameVisible _ _ (store.lrange env.clock.now key start stop).2.entries
    rw [MemoryStore.lrange_store]
    exact hlook key
  | lpop key => exact hpop .left key h
  | rpop key => exact hpop .right key h
  | ping value => cases value <;> cases h
  | _ => cases h

/-- A command that is not logged changes nothing. -/
theorem not_changes_of_unlogged {command : Command} {clock : Clock}
    (h : command.toAofFrame clock = none) (env : Env) (store : MemoryStore) :
    ¬ Changes command env store := by
  rintro ⟨op, hop, -, ⟨key, halters⟩ | ⟨key, entry, hwritten, -⟩⟩
  · cases command with
    | ping | echo => cases hop
    | get | ttl | lrange | «exists» =>
      cases Option.some.inj hop
      simp only [StoreOp.act] at halters
      split at halters <;> exact halters
    | dbSize | info | aerugoStats =>
      cases Option.some.inj hop
      exact halters
    | aerugoInspect limit =>
      cases Option.some.inj hop
      simp only [StoreOp.act] at halters
      split at halters <;> exact halters
    | set | del | expire | expireAt | persist | lpush | rpush | lpop | rpop => cases h
  · cases command with
    | ping | echo => cases hop
    | get | ttl | lrange | «exists» | dbSize | info | aerugoStats | aerugoInspect =>
      cases Option.some.inj hop
      cases hwritten
    | set | del | expire | expireAt | persist | lpush | rpush | lpop | rpop => cases h

/-! ### Requests -/

/-- An error reply to the request means no effect: the store shows what it showed, and the
    log is as it was. -/
def ErrorHarmless (request : Request) (state : ServerState) : Prop :=
  ∀ text, (handleRequest request state).1 = .error text →
    SameVisible request.env.clock.now state.store.entries
        (handleRequest request state).2.store.entries ∧
      (handleRequest request state).2.aof = state.aof

/-- An error reply means no effect, whatever an eviction picks. -/
def ErrorKeeps (request : Request) (state : ServerState) : Prop :=
  ∀ picks, ErrorHarmless { request with env := { request.env with picks } } state

theorem append_fails {aof : Option Bytes} {frame : Option Frame} {outcome : AppendOutcome}
    (houtcome : outcome = .written ∨ outcome = .failed 0)
    (h : ¬ (appendCommand aof frame outcome).1 = true) :
    ∃ log logged, aof = some log ∧ frame = some logged ∧ outcome = .failed 0 := by
  rcases aof with _ | log
  · exact absurd rfl h
  · rcases frame with _ | logged
    · exact absurd rfl h
    · rcases houtcome with rfl | rfl
      · exact absurd rfl h
      · exact ⟨log, logged, rfl, rfl, rfl⟩

section

variable {request : Request} {state : ServerState} {command : Command}

theorem errorHarmless_of_unparsed {error : CommandError}
    (hparse : Command.fromFrame request.frame = .error error) : ErrorHarmless request state := by
  intro text _
  simp only [handleRequest, executeRequest, hparse]
  exact ⟨fun key => rfl, trivial⟩

theorem errorHarmless_of_failed (hparse : Command.fromFrame request.frame = .ok command)
    {error : CommandError} (hfailed : (command.execute request.env state.store).1 = .error error) :
    ErrorHarmless request state := by
  have hkept := sameVisible_of_error hfailed
  intro text _
  simp only [handleRequest, executeRequest, hparse, hfailed, Except.map]
  exact ⟨hkept, trivial⟩

/-- A command that succeeds and is in the log, or need not be, is not answered with an
    error. -/
theorem errorHarmless_of_appended (hparse : Command.fromFrame request.frame = .ok command)
    {response : Frame} (hexecute : (command.execute request.env state.store).1 = .ok response)
    (happend : (appendCommand state.aof (command.toAofFrame request.env.clock)
      request.outcome).1 = true) : ErrorHarmless request state := by
  intro text htext
  simp only [handleRequest, executeRequest, hparse, hexecute, Except.map, happend, if_true] at htext
  exact absurd htext (execute_ne_error hexecute text)

/-- The record is lost, and the effect of the command stays. -/
theorem errorHarmless_of_lost (hparse : Command.fromFrame request.frame = .ok command)
    {response : Frame} (hexecute : (command.execute request.env state.store).1 = .ok response)
    {log : Bytes} (hlog : state.aof = some log) {frame : Frame}
    (hframe : command.toAofFrame request.env.clock = some frame)
    (hfailed : request.outcome = .failed 0) :
    ErrorHarmless request state ↔ ¬ Changes command request.env state.store := by
  rw [← sameVisible_execute]
  unfold ErrorHarmless
  simp only [handleRequest, executeRequest, hparse, hexecute, hframe, hlog, hfailed, Except.map,
    appendCommand, append, Bool.false_eq_true, if_false, PERSIST_FAILURE, List.take_zero,
    List.append_nil]
  simp

/-- A command that changes something is logged, so that its append can fail. -/
theorem not_appended_of_changes (hchanges : Changes command request.env state.store)
    (haof : state.aof.isSome) (hfailed : request.outcome = .failed 0) :
    ¬ (appendCommand state.aof (command.toAofFrame request.env.clock) request.outcome).1 =
      true := by
  obtain ⟨log, hlog⟩ := Option.isSome_iff_exists.mp haof
  cases hframe : command.toAofFrame request.env.clock with
  | none => exact absurd hchanges (not_changes_of_unlogged hframe request.env state.store)
  | some frame => simp [appendCommand, append, hlog, hfailed]

end

theorem errorHarmless_iff (request : Request) (state : ServerState)
    (houtcome : request.outcome = .written ∨ request.outcome = .failed 0) :
    ErrorHarmless request state ↔
      ¬ (request.outcome = .failed 0 ∧ state.aof.isSome ∧
        ∃ command, Command.fromFrame request.frame = .ok command ∧
          Changes command request.env state.store) := by
  cases hparse : Command.fromFrame request.frame with
  | error error => exact iff_of_true (errorHarmless_of_unparsed hparse) (by simp)
  | ok command =>
    simp only [Except.ok.injEq, exists_eq_left']
    cases hexecute : (command.execute request.env state.store).1 with
    | error error =>
      refine iff_of_true (errorHarmless_of_failed hparse hexecute) ?_
      rintro ⟨-, -, hchanges⟩
      exact (sameVisible_execute _ _ _).mp (sameVisible_of_error hexecute) hchanges
    | ok response =>
      by_cases happend : (appendCommand state.aof (command.toAofFrame request.env.clock)
        request.outcome).1 = true
      · refine iff_of_true (errorHarmless_of_appended hparse hexecute happend) ?_
        rintro ⟨hfailed, haof, hchanges⟩
        exact not_appended_of_changes hchanges haof hfailed happend
      · obtain ⟨log, frame, hlog, hframe, hfailed⟩ := append_fails houtcome happend
        rw [errorHarmless_of_lost hparse hexecute hlog hframe hfailed]
        simp [hfailed, hlog]

/-- **Error replies.**  An append either succeeds or fails without writing.  An error reply
    then means no effect, unless the append fails after a command that changes what the
    store shows or may do so by an eviction. -/
theorem error_keeps_iff (request : Request) (state : ServerState)
    (houtcome : request.outcome = .written ∨ request.outcome = .failed 0) :
    ErrorKeeps request state ↔
      ¬ (request.outcome = .failed 0 ∧ state.aof.isSome ∧
        ∃ command, Command.fromFrame request.frame = .ok command ∧
          MayChange command request.env state.store) := by
  have hharmless := fun picks =>
    errorHarmless_iff { request with env := { request.env with picks } } state houtcome
  constructor
  · rintro hkeeps ⟨hfailed, haof, command, hparse, hchange⟩
    obtain ⟨picks, hchanges⟩ := (mayChange_iff command request.env state.store).mp hchange
    exact (hharmless picks).mp (hkeeps picks) ⟨hfailed, haof, command, hparse, hchanges⟩
  · intro hnot picks
    apply (hharmless picks).mpr
    rintro ⟨hfailed, haof, command, hparse, hchanges⟩
    apply hnot
    refine ⟨hfailed, haof, command, hparse, ?_⟩
    exact (mayChange_iff command request.env state.store).mpr ⟨picks, hchanges⟩

/-- A server that shows one key, and holds another one whose deadline passes at 3 s. -/
def overdue : ServerState :=
  (serve [clientRequest "SET" [utf8 "shown", [1]] (.at 0 0),
    clientRequest "SET" [utf8 "k", [2]] (.at 1 0),
    clientRequest "EXPIREAT" [utf8 "k", utf8 "3"] (.at 1 0)] (.initial .default)).2

/-- An append that fails where the command had nothing to do: the key has expired. -/
theorem error_keeps_absent :
    ErrorKeeps { clientRequest "DEL" [utf8 "k"] (.at 5000000000 0) with outcome := .failed 0 }
        overdue ∧
      overdue.aof.isSome ∧ (visible 5000000000 (overdue.store.entries.lookup "shown")).isSome ∧
      "k" ∈ overdue.store.entries := by
  refine ⟨?_, by decide +kernel⟩
  have hgone : visible (Env.at 5000000000 0).clock.now (overdue.store.entries.lookup "k") =
      none := by
    decide +kernel
  rw [error_keeps_iff _ _ (Or.inr rfl)]
  rintro ⟨-, -, command, hparse, op, hop, -, ⟨key, halters⟩ | ⟨key, entry, limit, hwritten, -⟩⟩
  · obtain rfl : command = .del ["k"] := (Except.ok.inj hparse).symm
    cases Option.some.inj hop
    simp only [StoreOp.act] at halters
    split at halters
    · rename_i hkey
      obtain rfl := List.mem_singleton.mp hkey
      exact halters hgone
    · exact halters
  · obtain rfl : command = .del ["k"] := (Except.ok.inj hparse).symm
    cases Option.some.inj hop
    cases hwritten

/-- A `SET` whose record cannot be appended is answered with an error and stays. -/
theorem error_reply_keeps_write :
    ¬ ∀ request state, request.outcome = .written ∨ request.outcome = .failed 0 →
      ErrorKeeps request state := by
  intro hall
  have hkeeps := hall { clientRequest "SET" [utf8 "k", [1]] (.at 5 0) with outcome := .failed 0 }
    (.initial .default) (Or.inr rfl) (.constant 0) "ERR failed to persist command" rfl
  have hshown := hkeeps.1 "k"
  revert hshown
  decide +kernel

end AerugoCache.Server
