import AerugoCache.CommandCodec
import AerugoCache.ErrorReplies
import AerugoCache.LazyExpiration

/-!
# No empty list is stored

A list comes into the map by a push of at least one value, which the parser sees to, and
goes when a pop takes its last item; a push that is rejected puts back the cell there
was.  So a list that is shown has an item to show.
-/

namespace AerugoCache.Storage

open AerugoCache.ByteText AerugoCache.KeyedMap

/-- The cell holds no empty list. -/
def NonemptyCell (cell : Option Entry) : Prop :=
  ∀ list expiresAt, cell = some ⟨.list list, expiresAt⟩ → list ≠ []

def NonemptyLists (entries : Entries) : Prop :=
  ∀ key, NonemptyCell (entries.lookup key)

/-- A push has values. -/
def KeyAct.PushesValues : KeyAct → Prop
  | .push _ values => values ≠ []
  | _ => True

theorem nonemptyCell_none : NonemptyCell none := nofun

theorem nonemptyCell_visible {cell : Option Entry} (h : NonemptyCell cell) (now : SystemTime) :
    NonemptyCell (visible now cell) := by
  intro list expiresAt hlist
  exact h list expiresAt (visible_eq_some.mp hlist).1

theorem nonemptyCell_string (value : Bytes) (expiresAt : Option SystemTime) :
    NonemptyCell (some ⟨.string value, expiresAt⟩) := by
  intro list deadline hlist
  cases hlist

theorem foldl_pushValue_ne_nil {side : Side} {values : List Bytes} (h : values ≠ [])
    (list : List Bytes) : values.foldl (pushValue side) list ≠ [] := by
  intro hnil
  have hlength := length_foldl_pushValue side values list
  have hpositive := List.length_pos_iff.mpr h
  rw [hnil, List.length_nil] at hlength
  omega

/-- An act leaves no empty list. -/
theorem KeyAct.nonempty_update {act : KeyAct} (hact : act.PushesValues) {cell : Option Entry}
    (h : NonemptyCell cell) (now : SystemTime) : NonemptyCell (act.update now cell) := by
  cases act with
  | pass | look => exact h
  | put value => exact nonemptyCell_string value none
  | drop => exact nonemptyCell_none
  | date deadline =>
    simp only [KeyAct.update, expireCell]
    split
    · exact nonemptyCell_none
    · intro list expiresAt hlist
      obtain ⟨⟨value, old⟩, rfl, hentry⟩ := Option.map_eq_some_iff.mp hlist
      cases hentry
      exact h list old rfl
  | undate =>
    intro list expiresAt hlist
    obtain ⟨⟨value, old⟩, rfl, hentry⟩ := Option.map_eq_some_iff.mp hlist
    cases hentry
    exact h list old rfl
  | push side values =>
    rcases cell with _ | ⟨value | list, expiresAt⟩
    · intro list deadline hlist
      cases hlist
      exact foldl_pushValue_ne_nil hact []
    · exact h
    · intro pushed deadline hlist
      cases hlist
      exact foldl_pushValue_ne_nil hact list
  | pop side =>
    rcases cell with _ | ⟨value | list, expiresAt⟩
    · exact h
    · exact h
    · intro popped deadline hlist
      simp only [KeyAct.update, popCell] at hlist
      split at hlist
      · cases hlist
      · rename_i hleft
        cases hlist
        simpa using hleft

theorem KeyAct.nonempty_cell {act : KeyAct} (hact : act.PushesValues) {cell : Option Entry}
    (h : NonemptyCell cell) (now : SystemTime) : NonemptyCell (act.cell now cell) := by
  by_cases hpass : act = .pass
  · rw [hpass]
    exact h
  · rw [KeyAct.cell_of_ne_pass hpass]
    exact KeyAct.nonempty_update hact (nonemptyCell_visible h now) now

/-- One operation leaves no empty list. -/
theorem StoreOp.nonempty_run {op : StoreOp} {env : OpEnv}
    (hact : ∀ key, (op.act env key).PushesValues) {store : MemoryStore}
    (h : NonemptyLists store.entries) : NonemptyLists (op.run env store).2.entries := by
  intro key
  by_cases hadmitted : op.Admitted env store
  · rcases StoreOp.lookup_of_admitted hadmitted key with hcell | ⟨-, hgone⟩
    · rw [hcell]
      exact KeyAct.nonempty_cell (hact key) (h key) env.now
    · rw [hgone]
      exact nonemptyCell_none
  · rw [StoreOp.lookup_of_refused hadmitted]
    split
    · exact h key
    · exact nonemptyCell_visible (h key) env.now

end AerugoCache.Storage

namespace AerugoCache.Commands

open AerugoCache.ByteText AerugoCache.KeyedMap AerugoCache.Protocol AerugoCache.Storage
  AerugoCache.Server

/-! ### What the parser sees to -/

def Command.PushesValues : Command → Prop
  | .lpush _ values | .rpush _ values => values ≠ []
  | _ => True

theorem parseCommand_pushesValues {name : String} {args : List Bytes} {command : Command}
    (hparse : parseCommand name args = .ok command) : command.PushesValues := by
  have hparse' := hparse
  unfold parseCommand at hparse
  split at hparse
  case h_1 | h_2 =>
    split at hparse
    all_goals
      first
      | cases hparse; exact trivial
      | cases hparse
  case h_3 =>
    obtain ⟨key, value, -, rfl⟩ := parseSet_ok hparse'
    trivial
  case h_4 | h_9 | h_10 | h_13 | h_14 =>
    obtain ⟨key, -, rfl⟩ := parseKeyCommand_ok hparse
    trivial
  case h_5 | h_6 =>
    obtain ⟨keys, -, -, rfl⟩ := parseKeysCommand_ok hparse
    trivial
  case h_7 | h_8 =>
    obtain ⟨key, arg, seconds, -, rfl⟩ := parseSecondsCommand_ok hparse
    trivial
  case h_11 | h_12 =>
    obtain ⟨key, values, -, hvalues, rfl⟩ := parsePushCommand_ok hparse
    exact hvalues
  case h_15 =>
    obtain ⟨key, start, stop, rfl⟩ := parseLrange_ok hparse'
    trivial
  case h_16 | h_17 | h_18 =>
    obtain rfl := parseBareCommand_ok hparse
    trivial
  case h_19 =>
    obtain ⟨limit, rfl⟩ := parseInspect_ok hparse'
    trivial
  case h_20 => cases hparse

/-- A push that parses has a value. -/
theorem fromFrame_pushesValues {frame : Frame} {command : Command}
    (h : Command.fromFrame frame = .ok command) : command.PushesValues := by
  obtain ⟨name, args, -, hparse⟩ := fromFrame_ok h
  exact parseCommand_pushesValues hparse

/-! ### Runs of commands -/

/-- The store after a run of commands. -/
def runCommands (commands : List (Command × Env)) (store : MemoryStore) : MemoryStore :=
  commands.foldl (fun store (command, env) => (command.execute env store).2) store

theorem runCommands_config (commands : List (Command × Env)) (store : MemoryStore) :
    (runCommands commands store).config = store.config := by
  induction commands generalizing store with
  | nil => rfl
  | cons event commands ih => exact (ih _).trans (execute_config event.1 event.2 store)

theorem act_pushesValues {command : Command} (h : command.PushesValues) {op : StoreOp}
    (hop : command.storeOp = some op) (env : OpEnv) (key : String) :
    (op.act env key).PushesValues := by
  cases command with
  | ping | echo => cases hop
  | lpush | rpush =>
    cases hop
    simp only [StoreOp.act]
    split
    · exact h
    · trivial
  | dbSize | info | aerugoStats =>
    cases hop
    trivial
  | _ =>
    cases hop
    simp only [StoreOp.act]
    split <;> trivial

theorem execute_nonempty {command : Command} (h : command.PushesValues) (env : Env)
    {store : MemoryStore} (hstore : NonemptyLists store.entries) :
    NonemptyLists (command.execute env store).2.entries := by
  rw [execute_store]
  cases hop : command.storeOp with
  | none => exact hstore
  | some op => exact StoreOp.nonempty_run (act_pushesValues h hop env.opEnv) hstore

theorem runCommands_nonempty {commands : List (Command × Env)}
    (hparsed : ∀ command ∈ commands, ∃ frame, Command.fromFrame frame = .ok command.1)
    {store : MemoryStore} (hstore : NonemptyLists store.entries) :
    NonemptyLists (runCommands commands store).entries := by
  induction commands generalizing store with
  | nil => exact hstore
  | cons event commands ih =>
    obtain ⟨frame, hframe⟩ := hparsed event List.mem_cons_self
    apply ih
    · intro command hcommand
      exact hparsed command (List.mem_cons_of_mem _ hcommand)
    · exact execute_nonempty (fromFrame_pushesValues hframe) event.2 hstore

/-! ### What is shown of a list -/

/-- `LRANGE key 0 -1`. -/
def wholeList (env : Env) (store : MemoryStore) (key : String) : Except CommandError Frame :=
  ((Command.lrange key 0 (-1)).execute env store).1

/-- The reply is an array with an item. -/
def HasItem (result : Except CommandError Frame) : Prop :=
  ∃ item items, result = .ok (.array (item :: items))

theorem wholeList_eq (env : Env) (store : MemoryStore) (key : String) :
    wholeList env store key =
      match visible env.clock.now (store.entries.lookup key) with
      | none => .ok (.array [])
      | some ⟨.string _, _⟩ => .error .wrongType
      | some ⟨.list list, _⟩ => .ok (.array (list.map Frame.bulk)) := by
  change reply _ (store.lrange env.clock.now key 0 (-1)).1 = _
  rw [MemoryStore.lrange_result]
  rcases visible env.clock.now (store.entries.lookup key) with _ | ⟨_ | list, _⟩
  · rfl
  · rfl
  · simp only [EagerStore.items, Except.map, EagerStore.slice_all]
    rfl

/-- The reply finds a string, or an item. -/
def showsItem : Except CommandError Frame → Bool
  | .error .wrongType => true
  | .ok (.array (_ :: _)) => true
  | _ => false

variable {store : MemoryStore} {env : Env}

theorem hasItem_of_visible (h : NonemptyLists store.entries) {key : String} {list : List Bytes}
    {expiresAt : Option SystemTime}
    (hlist : visible env.clock.now (store.entries.lookup key) = some ⟨.list list, expiresAt⟩) :
    HasItem (wholeList env store key) := by
  rw [wholeList_eq, hlist]
  have hne := nonemptyCell_visible (h key) env.clock.now list expiresAt hlist
  obtain ⟨item, items, rfl⟩ := List.exists_cons_of_ne_nil hne
  exact ⟨.bulk item, items.map Frame.bulk, rfl⟩

/-- A key is in the map exactly if it shows something. -/
theorem showsItem_eq (h : NonemptyLists store.entries) (key : String) :
    showsItem (wholeList env store key) =
      (visible env.clock.now (store.entries.lookup key)).isSome := by
  rcases hcell : visible env.clock.now (store.entries.lookup key) with _ | ⟨value | list, expiresAt⟩
  · rw [wholeList_eq, hcell]
    rfl
  · rw [wholeList_eq, hcell]
    rfl
  · obtain ⟨item, items, hitem⟩ := hasItem_of_visible h hcell
    rw [hitem]
    rfl

theorem pop_of_visible (h : NonemptyLists store.entries) {key : String} {list : List Bytes}
    {expiresAt : Option SystemTime}
    (hlist : visible env.clock.now (store.entries.lookup key) = some ⟨.list list, expiresAt⟩)
    (side : Side) :
    ∃ value, reply bulkOrNull (store.pop env.clock.now key side).1 = .ok (.bulk value) := by
  have hne := nonemptyCell_visible (h key) env.clock.now list expiresAt hlist
  rw [MemoryStore.pop_eq, hlist]
  cases side with
  | left =>
    obtain ⟨item, items, rfl⟩ := List.exists_cons_of_ne_nil hne
    exact ⟨item, rfl⟩
  | right =>
    refine ⟨list.getLast hne, ?_⟩
    simp [popResult, popValue, List.getLast?_eq_some_getLast hne, reply, bulkOrNull]

/-- A command that is not logged leaves what the keys show. -/
theorem wholeList_after (command : Command) (hunlogged : command.toAofFrame env.clock = none)
    {later : Env} (hnow : later.clock.now = env.clock.now) (key : String) :
    wholeList later (command.execute env store).2 key = wholeList env store key := by
  have hsame := (sameVisible_execute command env store).mpr
    (not_changes_of_unlogged hunlogged env store) key
  rw [wholeList_eq, wholeList_eq, hnow, hsame]

theorem exists_counts (h : NonemptyLists store.entries) {later : Env}
    (hnow : later.clock.now = env.clock.now) (keys : List String) :
    ((Command.exists keys).execute env store).1 =
      .ok (.integer (Int64.ofNat (keys.countP fun key =>
        showsItem (wholeList later ((Command.exists keys).execute env store).2 key)))) := by
  have hcount : (store.exists env.clock.now keys).1 =
      keys.countP fun key => (visible env.clock.now (store.entries.lookup key)).isSome :=
    MemoryStore.existsKeys_count env.clock.now keys store.entries
  simp only [wholeList_after (.exists keys) rfl hnow, showsItem_eq h]
  rw [← hcount]
  rfl

theorem dbSize_counts (h : NonemptyLists store.entries) {later : Env}
    (hnow : later.clock.now = env.clock.now) :
    (Command.dbSize.execute env store).1 =
        .ok (.integer (Int64.ofNat (size (Command.dbSize.execute env store).2.entries))) ∧
      ∀ key ∈ (Command.dbSize.execute env store).2.entries,
        showsItem (wholeList later (Command.dbSize.execute env store).2 key) = true := by
  have hentries : (Command.dbSize.execute env store).2.entries =
      retainUnexpired store.entries env.clock.now := store.stats_entries env.clock.now
  constructor
  · rw [hentries, ← buildStats_totalKeys _ store.config]
    rfl
  · intro key hkey
    rw [hentries, ← Finmap.lookup_isSome, lookup_retainUnexpired] at hkey
    rw [wholeList_after .dbSize rfl hnow, showsItem_eq h, hkey]

theorem inspect_rows (h : NonemptyLists store.entries) {later : Env}
    (hnow : later.clock.now = env.clock.now) (limit : Nat) :
    ∃ rows : List KeyInspection, ((Command.aerugoInspect limit).execute env store).1 =
        .ok (.array (rows.map inspectionToFrame)) ∧
      ∀ row ∈ rows,
        let after := ((Command.aerugoInspect limit).execute env store).2
        showsItem (wholeList later after row.key) = true ∧
          (row.valueType = "list" → HasItem (wholeList later after row.key)) := by
  refine ⟨(store.inspectKeys env.order env.clock.now limit).1, rfl, ?_⟩
  intro row hrow after
  have hentry : ∃ entry, visible env.clock.now (store.entries.lookup row.key) = some entry ∧
      row.valueType = entry.value.typeName := by
    unfold MemoryStore.inspectKeys at hrow
    split at hrow
    · cases hrow
    · have hmem := (List.mem_insertionSort _).mp (List.mem_of_mem_take hrow)
      obtain ⟨key, -, hinspect⟩ := List.mem_filterMap.mp hmem
      obtain ⟨entry, hlookup, rfl⟩ := Option.map_eq_some_iff.mp hinspect
      rw [lookup_retainUnexpired] at hlookup
      exact ⟨entry, hlookup, rfl⟩
  obtain ⟨⟨value, expiresAt⟩, hvisible, htype⟩ := hentry
  rw [wholeList_after (.aerugoInspect limit) rfl hnow]
  constructor
  · rw [showsItem_eq h, hvisible]
    rfl
  · intro hlist
    cases value with
    | string bytes =>
      rw [htype] at hlist
      simp [Value.typeName] at hlist
    | list list => exact hasItem_of_visible h hvisible

/-- **No empty list is stored**, in any run of commands that parse, under every
    configuration.  So a key that `EXISTS` or `DBSIZE` counts and a row that
    `AERUGO.INSPECT` lists show a string or an item, and a pop of a list finds a value. -/
theorem no_empty_list (config : StoreConfig) (commands : List (Command × Env))
    (hparsed : ∀ command ∈ commands, ∃ frame, Command.fromFrame frame = .ok command.1) :
    let store := runCommands commands (.withConfig config)
    (∀ key list expiresAt, store.entries.lookup key = some ⟨.list list, expiresAt⟩ → list ≠ []) ∧
    ∀ env later : Env, later.clock.now = env.clock.now →
      (∀ keys, ((Command.exists keys).execute env store).1 =
        .ok (.integer (Int64.ofNat (keys.countP fun key =>
          showsItem (wholeList later ((Command.exists keys).execute env store).2 key))))) ∧
      ((Command.dbSize.execute env store).1 =
          .ok (.integer (Int64.ofNat (size (Command.dbSize.execute env store).2.entries))) ∧
        ∀ key ∈ (Command.dbSize.execute env store).2.entries,
          showsItem (wholeList later (Command.dbSize.execute env store).2 key) = true) ∧
      (∀ limit, ∃ rows : List KeyInspection,
        ((Command.aerugoInspect limit).execute env store).1 =
          .ok (.array (rows.map inspectionToFrame)) ∧
        ∀ row ∈ rows,
          let after := ((Command.aerugoInspect limit).execute env store).2
          showsItem (wholeList later after row.key) = true ∧
            (row.valueType = "list" → HasItem (wholeList later after row.key))) ∧
      ∀ key list expiresAt,
        visible env.clock.now (store.entries.lookup key) = some ⟨.list list, expiresAt⟩ →
        HasItem (wholeList env store key) ∧
          (∃ value, ((Command.lpop key).execute env store).1 = .ok (.bulk value)) ∧
          ∃ value, ((Command.rpop key).execute env store).1 = .ok (.bulk value) := by
  intro store
  have h : NonemptyLists store.entries := by
    apply runCommands_nonempty hparsed
    intro key list expiresAt hlist
    rw [MemoryStore.withConfig, Finmap.lookup_empty] at hlist
    cases hlist
  refine ⟨h, ?_⟩
  intro env later hnow
  refine ⟨exists_counts h hnow, dbSize_counts h hnow, inspect_rows h hnow, ?_⟩
  intro key list expiresAt hlist
  exact ⟨hasItem_of_visible h hlist, pop_of_visible h hlist .left, pop_of_visible h hlist .right⟩

/-- A list is pushed, emptied, and pushed again. -/
theorem no_empty_list_refilled :
    let commands := [
      (Command.lpush "k" [[1]], Env.at 0 0), (.rpop "k", .at 1 0), (.rpush "k" [[2]], .at 2 0)]
    ((Command.exists ["k"]).execute (.at 3 0) (runCommands commands (.withConfig .default))).1 =
      .ok (.integer (Int64.ofNat (["k"].countP fun key =>
        showsItem (wholeList (.at 3 0) ((Command.exists ["k"]).execute (.at 3 0)
          (runCommands commands (.withConfig .default))).2 key)))) := by
  intro commands
  have hparsed : ∀ command ∈ commands, ∃ frame, Command.fromFrame frame = .ok command.1 := by
    intro command hcommand
    simp only [commands, List.mem_cons, List.not_mem_nil, or_false] at hcommand
    rcases hcommand with rfl | rfl | rfl
    · exact ⟨commandFrame "LPUSH" [utf8 "k", [1]], rfl⟩
    · exact ⟨commandFrame "RPOP" [utf8 "k"], rfl⟩
    · exact ⟨commandFrame "RPUSH" [utf8 "k", [2]], rfl⟩
  exact ((no_empty_list .default commands hparsed).2 (.at 3 0) (.at 3 0) rfl).1 ["k"]

end AerugoCache.Commands
