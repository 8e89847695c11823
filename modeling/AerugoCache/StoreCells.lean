import AerugoCache.StoreReports

/-!
# What an operation does to the cell of its key

The cell of a key is the entry the map holds under it, or nothing.  Every operation
on one key first drops the key's entry if it has expired and then updates the cell;
the operations that only read stop there.  One equation for each operation says what
it returns and what the cell becomes, so that nothing after this module unfolds it.
-/

namespace AerugoCache.Storage

open AerugoCache.ByteText AerugoCache.KeyedMap

/-! ### Expired cells -/

/-- What of a cell is left at `now`. -/
def visible (now : SystemTime) (cell : Option Entry) : Option Entry :=
  cell.filter fun entry => !entry.isExpired now

@[simp] theorem visible_none (now : SystemTime) : visible now none = none := rfl

theorem visible_some (now : SystemTime) (entry : Entry) :
    visible now (some entry) = if entry.isExpired now then none else some entry := by
  cases h : entry.isExpired now <;> simp [visible, Option.filter, h]

theorem visible_eq_some {now : SystemTime} {cell : Option Entry} {entry : Entry} :
    visible now cell = some entry ↔ cell = some entry ∧ entry.isExpired now = false := by
  simp [visible, Option.filter_eq_some_iff]

@[simp] theorem visible_visible (now : SystemTime) (cell : Option Entry) :
    visible now (visible now cell) = visible now cell := by
  cases cell with
  | none => rfl
  | some entry => cases h : entry.isExpired now <;> simp [visible_some, h]

/-- What has expired at `now` has expired later. -/
theorem visible_later {now later : SystemTime} (h : now ≤ later) (cell : Option Entry) :
    visible later (visible now cell) = visible later cell := by
  rcases cell with _ | ⟨value, _ | deadline⟩
  · rfl
  · rfl
  · by_cases hdue : deadline ≤ now
    · have hdue' : deadline ≤ later := Int.le_trans hdue h
      simp [visible_some, Entry.isExpired, hdue, hdue']
    · simp [visible_some, Entry.isExpired, hdue]

theorem restoreEntry_eq_assign (entries : Entries) (key : String) (cell : Option Entry) :
    restoreEntry entries key cell = assign entries key cell := by
  cases cell <;> rfl

theorem removeIfExpired_eq_assign (entries : Entries) (key : String) (now : SystemTime) :
    removeIfExpired entries key now = assign entries key (visible now (entries.lookup key)) := by
  cases hcell : entries.lookup key with
  | none => simp [removeIfExpired, hcell, erase_of_lookup_none hcell]
  | some entry =>
    cases hexp : entry.isExpired now with
    | true => simp [removeIfExpired, hcell, visible_some, hexp]
    | false => simp [removeIfExpired, hcell, visible_some, hexp, insert_of_lookup_some hcell]

theorem lookup_removeIfExpired (entries : Entries) (key : String) (now : SystemTime)
    (k : String) :
    (removeIfExpired entries key now).lookup k =
      if k = key then visible now (entries.lookup k) else entries.lookup k := by
  rw [removeIfExpired_eq_assign, lookup_assign]
  by_cases hk : k = key
  · subst hk
    simp
  · simp [hk]

theorem lookup_retainUnexpired (entries : Entries) (now : SystemTime) (k : String) :
    (retainUnexpired entries now).lookup k = visible now (entries.lookup k) :=
  lookup_retain _ _ _

/-! ### Cell updates -/

/-- `expire_at` on what is left of the cell. -/
def expireCell (now expiresAt : SystemTime) (cell : Option Entry) : Option Entry :=
  if expiresAt ≤ now then none else cell.map fun entry => { entry with expiresAt := some expiresAt }

/-- `persist` on what is left of the cell. -/
def persistCell (cell : Option Entry) : Option Entry :=
  cell.map fun entry => { entry with expiresAt := none }

/-- The entry a push makes of a cell, or `none` where the cell holds a string. -/
def pushEntry (side : Side) (values : List Bytes) (cell : Option Entry) : Option Entry :=
  match cell with
  | none => some { value := .list (values.foldl (pushValue side) []), expiresAt := none }
  | some ⟨.list list, expiresAt⟩ =>
      some { value := .list (values.foldl (pushValue side) list), expiresAt }
  | some ⟨.string _, _⟩ => none

/-- The cell a pop makes of a cell: a list that is emptied goes. -/
def popCell (side : Side) (cell : Option Entry) : Option Entry :=
  match cell with
  | some ⟨.list list, expiresAt⟩ =>
      let list := (popValue side list).2
      if list.isEmpty then none else some { value := .list list, expiresAt }
  | cell => cell

def popResult (side : Side) (cell : Option Entry) : Except StoreError (Option Bytes) :=
  match cell with
  | none => .ok none
  | some ⟨.string _, _⟩ => .error .wrongType
  | some ⟨.list list, _⟩ => .ok (popValue side list).1

theorem length_foldl_pushValue (side : Side) (values list : List Bytes) :
    (values.foldl (pushValue side) list).length = list.length + values.length := by
  induction values generalizing list with
  | nil => rfl
  | cons value values ih =>
    have hlength : (pushValue side list value).length = list.length + 1 := by
      cases side with
      | left => rfl
      | right => exact List.length_append
    rw [List.foldl_cons, ih, hlength, List.length_cons]
    omega

theorem length_popValue (side : Side) (list : List Bytes) :
    (popValue side list).2.length = list.length - 1 := by
  cases side with
  | left => exact List.length_tail
  | right => exact List.length_dropLast

namespace MemoryStore

/-- The store with another entries map. -/
def withEntries (store : MemoryStore) (entries : Entries) : MemoryStore := { store with entries }

/-- The store with another cell under `key`. -/
def withCell (store : MemoryStore) (key : String) (cell : Option Entry) : MemoryStore :=
  store.withEntries (assign store.entries key cell)

@[simp] theorem withEntries_entries (store : MemoryStore) (entries : Entries) :
    (store.withEntries entries).entries = entries := rfl

@[simp] theorem withEntries_config (store : MemoryStore) (entries : Entries) :
    (store.withEntries entries).config = store.config := rfl

@[simp] theorem withCell_entries (store : MemoryStore) (key : String) (cell : Option Entry) :
    (store.withCell key cell).entries = assign store.entries key cell := rfl

@[simp] theorem withCell_config (store : MemoryStore) (key : String) (cell : Option Entry) :
    (store.withCell key cell).config = store.config := rfl

@[simp] theorem recordExpired_entries (store : MemoryStore) (count : Nat) :
    (store.recordExpired count).entries = store.entries := by
  unfold recordExpired
  split <;> rfl

@[simp] theorem recordExpired_config (store : MemoryStore) (count : Nat) :
    (store.recordExpired count).config = store.config := by
  unfold recordExpired
  split <;> rfl

@[simp] theorem recordEvicted_entries (store : MemoryStore) (count : Nat) :
    (store.recordEvicted count).entries = store.entries := by
  unfold recordEvicted
  split <;> rfl

@[simp] theorem recordEvicted_config (store : MemoryStore) (count : Nat) :
    (store.recordEvicted count).config = store.config := by
  unfold recordEvicted
  split <;> rfl

@[simp] theorem recordRejectedWrite_entries (store : MemoryStore) :
    store.recordRejectedWrite.entries = store.entries := rfl

@[simp] theorem recordRejectedWrite_config (store : MemoryStore) :
    store.recordRejectedWrite.config = store.config := rfl

/-! ### Operations that read one key -/

theorem get_store (store : MemoryStore) (now : SystemTime) (key : String) :
    (store.get now key).2 = store.withCell key (visible now (store.entries.lookup key)) := by
  simp only [get, withCell, withEntries, ← removeIfExpired_eq_assign]
  rcases (removeIfExpired store.entries key now).lookup key with _ | ⟨_ | _, _⟩ <;> rfl

theorem ttl_store (store : MemoryStore) (now : SystemTime) (key : String) :
    (store.ttl now key).2 = store.withCell key (visible now (store.entries.lookup key)) := by
  simp only [ttl, withCell, withEntries, ← removeIfExpired_eq_assign]
  rcases (removeIfExpired store.entries key now).lookup key with _ | ⟨_, _ | _⟩ <;> rfl

theorem lrange_store (store : MemoryStore) (now : SystemTime) (key : String)
    (start stop : Int64) :
    (store.lrange now key start stop).2 =
      store.withCell key (visible now (store.entries.lookup key)) := by
  simp only [lrange, withCell, withEntries, ← removeIfExpired_eq_assign]
  rcases (removeIfExpired store.entries key now).lookup key with _ | ⟨_ | items, _⟩
  · rfl
  · rfl
  · simp only
    split <;> rfl

/-! ### Operations that update one key -/

theorem expireAt_eq (store : MemoryStore) (now : SystemTime) (key : String)
    (expiresAt : SystemTime) :
    store.expireAt now key expiresAt =
      ((visible now (store.entries.lookup key)).isSome,
        store.withCell key (expireCell now expiresAt (visible now (store.entries.lookup key)))) := by
  rw [expireAt]
  simp only [removeIfExpired_eq_assign, lookup_assign_self]
  by_cases hpast : expiresAt ≤ now
  · simp only [hpast, if_true, expireCell, withCell, withEntries, ← assign_none, assign_assign]
  · cases hcell : visible now (store.entries.lookup key) with
    | none => simp [hpast, expireCell, withCell, withEntries]
    | some entry =>
      simp only [hpast, if_false, expireCell, withCell, withEntries, Option.map_some,
        ← assign_some, assign_assign, Option.isSome_some]

theorem persist_eq (store : MemoryStore) (now : SystemTime) (key : String) :
    store.persist now key =
      ((visible now (store.entries.lookup key)).any fun entry => entry.expiresAt.isSome,
        store.withCell key (persistCell (visible now (store.entries.lookup key)))) := by
  rw [persist]
  simp only [removeIfExpired_eq_assign, lookup_assign_self]
  rcases hcell : visible now (store.entries.lookup key) with _ | ⟨value, expiresAt⟩
  · simp [persistCell, withCell, withEntries]
  · cases expiresAt with
    | none => simp [persistCell, withCell, withEntries]
    | some expiresAt =>
      simp only [persistCell, withCell, withEntries, Option.map_some, ← assign_some, assign_assign]
      rfl

theorem pop_eq (store : MemoryStore) (now : SystemTime) (key : String) (side : Side) :
    store.pop now key side =
      (popResult side (visible now (store.entries.lookup key)),
        store.withCell key (popCell side (visible now (store.entries.lookup key)))) := by
  rw [pop]
  simp only [removeIfExpired_eq_assign, lookup_assign_self]
  rcases hcell : visible now (store.entries.lookup key) with _ | ⟨value, expiresAt⟩
  · rfl
  · cases value with
    | string value => rfl
    | list items =>
      cases hempty : (popValue side items).2.isEmpty with
      | true =>
        simp only [popResult, popCell, withCell, withEntries, hempty, if_true, ← assign_some,
          ← assign_none, assign_assign]
      | false =>
        simp only [popResult, popCell, withCell, withEntries, hempty, Bool.false_eq_true, if_false,
          ← assign_some, assign_assign]

/-! ### Operations that walk over keys -/

theorem delKeys_entries (now : SystemTime) (keys : List String) (entries : Entries) :
    (delKeys now keys entries).2 = keys.foldl (fun entries key => entries.erase key) entries := by
  induction keys generalizing entries with
  | nil => rfl
  | cons key keys ih =>
    simp only [delKeys, ih, List.foldl_cons, removeIfExpired_eq_assign, ← assign_none,
      assign_assign]

theorem existsKeys_entries (now : SystemTime) (keys : List String) (entries : Entries) :
    (existsKeys now keys entries).2 =
      keys.foldl (fun entries key => removeIfExpired entries key now) entries := by
  induction keys generalizing entries with
  | nil => rfl
  | cons key keys ih => simp only [existsKeys, ih, List.foldl_cons]

theorem del_store (store : MemoryStore) (now : SystemTime) (keys : List String) :
    (store.del now keys).2 =
      store.withEntries (keys.foldl (fun entries key => entries.erase key) store.entries) := by
  simp only [del, delKeys_entries, withEntries]

theorem exists_store (store : MemoryStore) (now : SystemTime) (keys : List String) :
    (store.exists now keys).2 = store.withEntries
      (keys.foldl (fun entries key => removeIfExpired entries key now) store.entries) := by
  simp only [MemoryStore.exists, existsKeys_entries, withEntries]

theorem cleanupExpired_entries (store : MemoryStore) (now : SystemTime) :
    (store.cleanupExpired now).2.entries = retainUnexpired store.entries now := by
  simp [cleanupExpired]

theorem stats_entries (store : MemoryStore) (now : SystemTime) :
    (store.stats now).2.entries = retainUnexpired store.entries now := by
  simp [stats]

theorem inspectKeys_entries (store : MemoryStore) (order : KeyOrder) (now : SystemTime)
    (limit : Nat) :
    (store.inspectKeys order now limit).2.entries =
      if limit = 0 then store.entries else retainUnexpired store.entries now := by
  unfold inspectKeys
  split
  · simp_all
  · simp_all

theorem inspectKeys_config (store : MemoryStore) (order : KeyOrder) (now : SystemTime)
    (limit : Nat) : (store.inspectKeys order now limit).2.config = store.config := by
  unfold inspectKeys
  split
  · rfl
  · exact recordExpired_config _ _

end MemoryStore

theorem lookup_foldl_erase (keys : List String) (entries : Entries) (k : String) :
    (keys.foldl (fun entries key => entries.erase key) entries).lookup k =
      if k ∈ keys then none else entries.lookup k := by
  induction keys generalizing entries with
  | nil => simp
  | cons key keys ih =>
    rw [List.foldl_cons, ih, lookup_erase_eq]
    by_cases hmem : k ∈ keys <;> by_cases hk : k = key <;> simp [hmem, hk]

theorem lookup_foldl_removeIfExpired (keys : List String) (now : SystemTime) (entries : Entries)
    (k : String) :
    (keys.foldl (fun entries key => removeIfExpired entries key now) entries).lookup k =
      if k ∈ keys then visible now (entries.lookup k) else entries.lookup k := by
  induction keys generalizing entries with
  | nil => simp
  | cons key keys ih =>
    rw [List.foldl_cons, ih, lookup_removeIfExpired]
    by_cases hmem : k ∈ keys <;> by_cases hk : k = key <;> simp [hmem, hk]

end AerugoCache.Storage
