import AerugoCache.Command
import AerugoCache.StoreRun

/-!
# What a command does where nothing expires

On a map without deadlines a command needs no clock: its effect is a function of the
configuration and the map, `none` when the command is rejected.  Under a memory limit
with random eviction this holds of the writes that leave the eviction no choice.
`execute` refines these effects, whatever it reads from its environment.
-/

namespace AerugoCache.Commands

open AerugoCache.ByteText AerugoCache.KeyedMap AerugoCache.Protocol AerugoCache.Storage

/-- No entry has a deadline. -/
def Undated (entries : Entries) : Prop :=
  ∀ key entry, entries.lookup key = some entry → entry.expiresAt = none

/-! ### Effects -/

/-- Put an entry in the map, under the memory limit. -/
def place (config : StoreConfig) (key : String) (entry : Entry) (entries : Entries) :
    Option Entries :=
  match config.maxMemoryBytes with
  | none => some (entries.insert key entry)
  | some maxMemoryBytes =>
      if estimatedMemoryBytes (entries.insert key entry) ≤ maxMemoryBytes then
        some (entries.insert key entry)
      else
        match config.evictionPolicy with
        | .noEviction => none
        | .allKeysRandom =>
            if entryEstimatedMemoryBytes key entry ≤ maxMemoryBytes then
              some ((∅ : Entries).insert key entry)
            else none

/-- Replace a list by what a pop leaves of it. -/
def removeEnd (side : Side) (key : String) (entries : Entries) : Option Entries :=
  match popResult side (entries.lookup key) with
  | .ok _ => some (assign entries key (popCell side (entries.lookup key)))
  | .error _ => none

/-- What a command that changes the keyspace does to a map without deadlines. -/
def Command.effect (config : StoreConfig) (command : Command) (entries : Entries) :
    Option Entries :=
  match command with
  | .set key value => place config key { value := .string value, expiresAt := none } entries
  | .del keys => some (keys.foldl (fun entries key => entries.erase key) entries)
  | .lpush key values =>
      (pushEntry .left values (entries.lookup key)).bind fun entry =>
        place config key entry entries
  | .rpush key values =>
      (pushEntry .right values (entries.lookup key)).bind fun entry =>
        place config key entry entries
  | .lpop key => removeEnd .left key entries
  | .rpop key => removeEnd .right key entries
  | _ => some entries

/-! ### Writes that leave no choice -/

/-- An eviction for this write has no choice: there is none, or no other entry fits
    beside the written one. -/
def ForcedWrite (config : StoreConfig) (entries : Entries) (key : String) (entry : Entry) : Prop :=
  ∀ maxMemoryBytes, config.maxMemoryBytes = some maxMemoryBytes →
    config.evictionPolicy = .allKeysRandom →
    maxMemoryBytes < estimatedMemoryBytes (entries.insert key entry) →
    ∀ other otherEntry, other ≠ key → entries.lookup other = some otherEntry →
      maxMemoryBytes < entryEstimatedMemoryBytes key entry +
        entryEstimatedMemoryBytes other otherEntry

/-- An eviction that ends with room to spare for no other key takes every key but
    the written one. -/
theorem evicted_forced {entries after : Entries} {key : String} {entry : Entry}
    {evicted : List (String × Entry)} {maxMemoryBytes : Nat}
    (hevicted : Evicted (entries.insert key entry) (some key) after evicted)
    (hfits : estimatedMemoryBytes after ≤ maxMemoryBytes)
    (hforced : ∀ other otherEntry, other ≠ key → entries.lookup other = some otherEntry →
      maxMemoryBytes < entryEstimatedMemoryBytes key entry +
        entryEstimatedMemoryBytes other otherEntry) :
    after = (∅ : Entries).insert key entry := by
  have hkey : after.lookup key = some entry := by
    rw [hevicted.lookup_protected, lookup_insert_eq, if_pos rfl]
  apply Finmap.ext_lookup
  intro k
  rw [lookup_insert_eq]
  by_cases hk : k = key
  · rw [hk, if_pos rfl, hkey]
  · rw [if_neg hk, Finmap.lookup_empty]
    by_contra hsome
    obtain ⟨other, hother⟩ := Option.ne_none_iff_exists'.mp hsome
    have hbefore := hevicted.lookup_of_mem (Finmap.mem_of_lookup_eq_some hother)
    rw [lookup_insert_eq, if_neg hk, hother] at hbefore
    have htwo := add_le_weigh entryEstimatedMemoryBytes hkey hother hk
    have hover := hforced k other hk hbefore
    unfold estimatedMemoryBytes at hfits
    omega

/-- A write without a choice ends as `place` says. -/
theorem commitWrite_forced {store : MemoryStore} {key : String} {entry : Entry}
    (hforced : ForcedWrite store.config store.entries key entry) (picks : Picks)
    (old : Option Entry) :
    match place store.config key entry store.entries with
    | some entries =>
        (store.commitWrite picks key old entry).1 = .ok () ∧
          (store.commitWrite picks key old entry).2.entries = entries
    | none =>
        (store.commitWrite picks key old entry).1 = .error .outOfMemory ∧
          (store.commitWrite picks key old entry).2.entries = assign store.entries key old := by
  unfold MemoryStore.commitWrite place enforceMemoryLimit
  cases hmax : store.config.maxMemoryBytes with
  | none => simp
  | some maxMemoryBytes =>
    by_cases hfits : estimatedMemoryBytes (store.entries.insert key entry) ≤ maxMemoryBytes
    · simp [hfits]
    · cases hpolicy : store.config.evictionPolicy with
      | noEviction => simp [hfits]
      | allKeysRandom =>
        have hforced := hforced maxMemoryBytes hmax hpolicy (Nat.lt_of_not_le hfits)
        have houtcome := evictUntilWithinLimit_outcome (store.entries.insert key entry)
          maxMemoryBytes (some key) picks
        simp only [hfits, if_false]
        rcases hevict : evictUntilWithinLimit (store.entries.insert key entry) maxMemoryBytes
          (some key) picks with ⟨error | evicted, after⟩
        · rw [hevict] at houtcome
          obtain ⟨rfl, rfl, current, evicted, hevicted, hover, honly⟩ := houtcome
          have hkey : current.lookup key = some entry := by
            rw [hevicted.lookup_protected, lookup_insert_eq, if_pos rfl]
          have halone := weigh_of_only_key entryEstimatedMemoryBytes hkey
            fun k hk => (Option.some.inj (honly k hk)).symm
          have hlarge : ¬ entryEstimatedMemoryBytes key entry ≤ maxMemoryBytes := by
            rw [← halone]
            exact Nat.not_le_of_lt hover
          simp [hlarge]
        · rw [hevict] at houtcome
          obtain ⟨hevicted, hwithin⟩ := houtcome
          obtain rfl := evicted_forced hevicted hwithin hforced
          have hsmall : entryEstimatedMemoryBytes key entry ≤ maxMemoryBytes :=
            Nat.le_trans (le_weigh entryEstimatedMemoryBytes
              (by rw [lookup_insert_eq, if_pos rfl])) hwithin
          simp [hsmall]

/-! ### Commands as operations of the store -/

def Env.opEnv (env : Env) : OpEnv where
  expireNow := env.clock.expireNow
  now := env.clock.now
  order := env.order
  picks := env.picks

/-- The operation a command calls. -/
def Command.storeOp : Command → Option StoreOp
  | .ping _ | .echo _ => none
  | .set key value => some (.set key value)
  | .get key => some (.get key)
  | .del keys => some (.del keys)
  | .exists keys => some (.exists keys)
  | .expire key seconds => some (.expire key seconds)
  | .expireAt key unixSeconds => some (.expireAtUnix key unixSeconds)
  | .ttl key => some (.ttl key)
  | .persist key => some (.persist key)
  | .lpush key values => some (.lpush key values)
  | .rpush key values => some (.rpush key values)
  | .lpop key => some (.lpop key)
  | .rpop key => some (.rpop key)
  | .lrange key start stop => some (.lrange key start stop)
  | .dbSize | .info | .aerugoStats => some .stats
  | .aerugoInspect limit => some (.inspectKeys limit)

theorem execute_store (command : Command) (env : Env) (store : MemoryStore) :
    (command.execute env store).2 =
      command.storeOp.elim store fun op => (op.run env.opEnv store).2 := by
  cases command with
  | ping value => cases value <;> rfl
  | _ => rfl

@[simp] theorem execute_config (command : Command) (env : Env) (store : MemoryStore) :
    (command.execute env store).2.config = store.config := by
  rw [execute_store]
  cases command.storeOp with
  | none => rfl
  | some op => exact op.run_config env.opEnv store

/-! ### Execution refines the effects -/

theorem visible_of_undated {entries : Entries} (h : Undated entries) (now : SystemTime)
    (key : String) : visible now (entries.lookup key) = entries.lookup key := by
  cases hcell : entries.lookup key with
  | none => rfl
  | some entry => simp [visible_some, Entry.isExpired, h key entry hcell]

theorem withCell_visible {store : MemoryStore} (h : Undated store.entries) (now : SystemTime)
    (key : String) :
    (store.withCell key (visible now (store.entries.lookup key))).entries = store.entries := by
  rw [MemoryStore.withCell_entries, visible_of_undated h, assign_lookup]

theorem retainUnexpired_of_undated {entries : Entries} (h : Undated entries) (now : SystemTime) :
    retainUnexpired entries now = entries := by
  apply Finmap.ext_lookup
  intro k
  rw [lookup_retainUnexpired, visible_of_undated h]

theorem persistCell_of_undated {entries : Entries} (h : Undated entries) (key : String) :
    persistCell (entries.lookup key) = entries.lookup key := by
  rcases hcell : entries.lookup key with _ | ⟨value, expiresAt⟩
  · rfl
  · have hnone : expiresAt = none := h key _ hcell
    rw [hnone]
    rfl

def Command.isExpiry : Command → Bool
  | .expire _ _ | .expireAt _ _ => true
  | _ => false

/-- The eviction a command may cause has no choice. -/
def Command.Forced (config : StoreConfig) (entries : Entries) : Command → Prop
  | .set key value => ForcedWrite config entries key { value := .string value, expiresAt := none }
  | .lpush key values => ∀ entry, pushEntry .left values (entries.lookup key) = some entry →
      ForcedWrite config entries key entry
  | .rpush key values => ∀ entry, pushEntry .right values (entries.lookup key) = some entry →
      ForcedWrite config entries key entry
  | _ => True

/-- Without a limit, and under a limit that evicts nothing, no write has a choice. -/
theorem Command.forced_of_noEviction {config : StoreConfig}
    (h : config.maxMemoryBytes = none ∨ config.evictionPolicy = .noEviction) (command : Command)
    (entries : Entries) : command.Forced config entries := by
  have hwrite : ∀ key entry, ForcedWrite config entries key entry := by
    intro key entry maxMemoryBytes hmax hpolicy
    rcases h with hnone | hkeep
    · rw [hnone] at hmax
      cases hmax
    · rw [hkeep] at hpolicy
      cases hpolicy
  cases command with
  | set key value => exact hwrite key _
  | lpush key values => exact fun entry _ => hwrite key entry
  | rpush key values => exact fun entry _ => hwrite key entry
  | _ => trivial

/-- A command that is logged as it is, and does not depend on the clock where nothing
    expires. -/
def Command.Replayable (command : Command) : Prop :=
  command.isExpiry = false ∧ ∃ clock, (command.toAofFrame clock).isSome

/-- A result and the map after it are what an effect says. -/
def Refines {α : Type} (effect : Option Entries) (before : Entries)
    (outcome : Except CommandError α × MemoryStore) : Prop :=
  match effect with
  | some entries => outcome.1.isOk = true ∧ outcome.2.entries = entries
  | none => outcome.1.isOk = false ∧ outcome.2.entries = before

theorem reply_map {α β : Type} (frame : β → Frame) (f : α → β) (result : Except StoreError α) :
    reply frame (result.map f) = reply (frame ∘ f) result := by
  cases result <;> rfl

theorem commitWrite_refines {store : MemoryStore} (hundated : Undated store.entries)
    {key : String} {entry : Entry} (hforced : ForcedWrite store.config store.entries key entry)
    (picks : Picks) (now : SystemTime) (frame : Unit → Frame) :
    Refines (place store.config key entry store.entries) store.entries
      (reply frame
          (store.commitWrite picks key (visible now (store.entries.lookup key)) entry).1,
        (store.commitWrite picks key (visible now (store.entries.lookup key)) entry).2) := by
  have hwrite := commitWrite_forced hforced picks (visible now (store.entries.lookup key))
  cases hplace : place store.config key entry store.entries with
  | none =>
    rw [hplace] at hwrite
    refine ⟨?_, ?_⟩
    · rw [hwrite.1]
      rfl
    · rw [hwrite.2, visible_of_undated hundated, assign_lookup]
  | some entries =>
    rw [hplace] at hwrite
    refine ⟨?_, hwrite.2⟩
    rw [hwrite.1]
    rfl

theorem push_refines {store : MemoryStore} (hundated : Undated store.entries) (picks : Picks)
    (now : SystemTime) (key : String) (values : List Bytes) (side : Side)
    (hforced : ∀ entry, pushEntry side values (store.entries.lookup key) = some entry →
      ForcedWrite store.config store.entries key entry) (frame : Nat → Frame) :
    Refines
      ((pushEntry side values (store.entries.lookup key)).bind fun entry =>
        place store.config key entry store.entries)
      store.entries
      (reply frame (store.push picks now key values side).1,
        (store.push picks now key values side).2) := by
  rw [MemoryStore.push_eq]
  cases hentry : pushEntry side values (store.entries.lookup key) with
  | none =>
    rw [visible_of_undated hundated, hentry]
    refine ⟨rfl, ?_⟩
    rw [MemoryStore.withCell_entries, assign_lookup]
  | some entry =>
    have hwrite := commitWrite_refines hundated (hforced entry hentry) picks now
      (frame ∘ fun _ => entry.value.listItems)
    rw [visible_of_undated hundated] at hwrite ⊢
    simp only [hentry, reply_map]
    exact hwrite

theorem pop_refines {store : MemoryStore} (hundated : Undated store.entries) (now : SystemTime)
    (key : String) (side : Side) (frame : Option Bytes → Frame) :
    Refines (removeEnd side key store.entries) store.entries
      (reply frame (store.pop now key side).1, (store.pop now key side).2) := by
  rw [MemoryStore.pop_eq, visible_of_undated hundated, removeEnd]
  rcases hcell : store.entries.lookup key with _ | ⟨value | items, expiresAt⟩
  · exact ⟨rfl, rfl⟩
  · refine ⟨rfl, ?_⟩
    rw [MemoryStore.withCell_entries]
    exact insert_of_lookup_some hcell
  · exact ⟨rfl, rfl⟩

/-- **A logged command has its effect**, at any time and with any picks. -/
theorem execute_refines {command : Command} {store : MemoryStore}
    (hundated : Undated store.entries) (hexpiry : command.isExpiry = false)
    (hforced : command.Forced store.config store.entries) {clock : Clock}
    (hlogged : (command.toAofFrame clock).isSome) (env : Env) :
    Refines (command.effect store.config store.entries) store.entries
      (command.execute env store) := by
  cases command with
  | set key value =>
    change Refines _ _ (reply _ (store.set env.picks env.clock.now key value).1,
      (store.set env.picks env.clock.now key value).2)
    rw [MemoryStore.set_eq]
    exact commitWrite_refines hundated hforced env.picks env.clock.now _
  | del keys => exact ⟨rfl, congrArg MemoryStore.entries (store.del_store env.clock.now keys)⟩
  | persist key =>
    refine ⟨rfl, ?_⟩
    change (store.persist env.clock.now key).2.entries = store.entries
    rw [MemoryStore.persist_eq, visible_of_undated hundated, MemoryStore.withCell_entries,
      persistCell_of_undated hundated, assign_lookup]
  | lpush key values => exact push_refines hundated env.picks env.clock.now key values .left hforced _
  | rpush key values => exact push_refines hundated env.picks env.clock.now key values .right hforced _
  | lpop key => exact pop_refines hundated env.clock.now key .left _
  | rpop key => exact pop_refines hundated env.clock.now key .right _
  | expire | expireAt => cases hexpiry
  | ping | echo | get | «exists» | ttl | lrange | dbSize | info | aerugoStats | aerugoInspect =>
    cases hlogged

/-- A command that is not logged changes nothing. -/
theorem execute_unlogged {command : Command} {store : MemoryStore}
    (hundated : Undated store.entries) {clock : Clock}
    (hlogged : command.toAofFrame clock = none) (env : Env) :
    (command.execute env store).2.entries = store.entries := by
  have hretain := retainUnexpired_of_undated hundated env.clock.now
  cases command with
  | ping value => cases value <;> rfl
  | echo value => rfl
  | get key =>
    change (store.get env.clock.now key).2.entries = _
    rw [MemoryStore.get_store, withCell_visible hundated]
  | «exists» keys =>
    change (store.exists env.clock.now keys).2.entries = _
    rw [MemoryStore.exists_store, MemoryStore.withEntries_entries]
    apply Finmap.ext_lookup
    intro k
    rw [lookup_foldl_removeIfExpired, visible_of_undated hundated, ite_self]
  | ttl key =>
    change (store.ttl env.clock.now key).2.entries = _
    rw [MemoryStore.ttl_store, withCell_visible hundated]
  | lrange key start stop =>
    change (store.lrange env.clock.now key start stop).2.entries = _
    rw [MemoryStore.lrange_store, withCell_visible hundated]
  | dbSize => exact (store.stats_entries env.clock.now).trans hretain
  | info => exact (store.stats_entries env.clock.now).trans hretain
  | aerugoStats => exact (store.stats_entries env.clock.now).trans hretain
  | aerugoInspect limit =>
    change (store.inspectKeys env.order env.clock.now limit).2.entries = _
    rw [MemoryStore.inspectKeys_entries, hretain, ite_self]
  | set | del | expire | expireAt | persist | lpush | rpush | lpop | rpop => cases hlogged

/-! ### Effects set no deadline -/

theorem undated_empty : Undated ∅ := by
  intro key entry h
  rw [Finmap.lookup_empty] at h
  cases h

theorem Undated.assign {entries : Entries} (h : Undated entries) (key : String)
    {cell : Option Entry} (hcell : ∀ entry, cell = some entry → entry.expiresAt = none) :
    Undated (assign entries key cell) := by
  intro k entry hentry
  rw [lookup_assign] at hentry
  by_cases hk : k = key
  · rw [if_pos hk] at hentry
    exact hcell entry hentry
  · rw [if_neg hk] at hentry
    exact h k entry hentry

theorem undated_place {config : StoreConfig} {key : String} {entry : Entry}
    {entries after : Entries} (hundated : Undated entries) (hentry : entry.expiresAt = none)
    (h : place config key entry entries = some after) : Undated after := by
  have hinsert : ∀ before : Entries, Undated before → Undated (before.insert key entry) := by
    intro before hbefore
    have hcell : ∀ e, some entry = some e → e.expiresAt = none := by
      intro e he
      cases he
      exact hentry
    exact hbefore.assign key hcell
  unfold place at h
  split at h
  · cases h
    exact hinsert entries hundated
  · split at h
    · cases h
      exact hinsert entries hundated
    · split at h
      · cases h
      · split at h
        · cases h
          exact hinsert ∅ undated_empty
        · cases h

theorem pushEntry_expiresAt {side : Side} {values : List Bytes} {cell : Option Entry}
    {entry : Entry} (h : pushEntry side values cell = some entry) :
    entry.expiresAt = cell.bind Entry.expiresAt := by
  rcases cell with _ | ⟨value | items, expiresAt⟩
  · cases h
    rfl
  · cases h
  · cases h
    rfl

theorem popCell_expiresAt {side : Side} {cell : Option Entry} {entry : Entry}
    (h : popCell side cell = some entry) : entry.expiresAt = cell.bind Entry.expiresAt := by
  rcases cell with _ | ⟨value | items, expiresAt⟩
  · cases h
  · cases h
    rfl
  · simp only [popCell] at h
    split at h
    · cases h
    · cases h
      rfl

theorem Undated.bind_expiresAt {entries : Entries} (h : Undated entries) (key : String) :
    (entries.lookup key).bind Entry.expiresAt = none := by
  cases hcell : entries.lookup key with
  | none => rfl
  | some entry => exact h key entry hcell

theorem effect_undated {command : Command} {config : StoreConfig} {entries after : Entries}
    (hundated : Undated entries) (h : command.effect config entries = some after) :
    Undated after := by
  have hpush : ∀ side key values, ((pushEntry side values (entries.lookup key)).bind
      fun entry => place config key entry entries) = some after → Undated after := by
    intro side key values hafter
    obtain ⟨entry, hentry, hplace⟩ := Option.bind_eq_some_iff.mp hafter
    refine undated_place hundated ?_ hplace
    rw [pushEntry_expiresAt hentry, hundated.bind_expiresAt]
  have hpop : ∀ side key, removeEnd side key entries = some after → Undated after := by
    intro side key hafter
    unfold removeEnd at hafter
    split at hafter
    · cases hafter
      refine hundated.assign key fun entry hentry => ?_
      rw [popCell_expiresAt hentry, hundated.bind_expiresAt]
    · cases hafter
  cases command with
  | set key value => exact undated_place hundated rfl h
  | del keys =>
    cases h
    intro k entry hentry
    rw [lookup_foldl_erase] at hentry
    split at hentry
    · cases hentry
    · exact hundated k entry hentry
  | lpush key values => exact hpush .left key values h
  | rpush key values => exact hpush .right key values h
  | lpop key => exact hpop .left key h
  | rpop key => exact hpop .right key h
  | _ =>
    cases h
    exact hundated

/-! ### Effects as updates of the map

A rejected command leaves the map as it is.  Without a memory limit the update of a
command has the keys it names as footprint. -/

def Command.update (config : StoreConfig) (command : Command) (entries : Entries) : Entries :=
  (command.effect config entries).getD entries

def Command.keys : Command → List String
  | .set key _ | .lpush key _ | .rpush key _ | .lpop key | .rpop key => [key]
  | .del keys => keys
  | _ => []

theorem Refines.update {α : Type} {command : Command} {config : StoreConfig} {before : Entries}
    {outcome : Except CommandError α × MemoryStore}
    (h : Refines (command.effect config before) before outcome) :
    outcome.2.entries = command.update config before := by
  unfold Refines at h
  unfold Command.update
  split at h
  · rename_i entries heffect
    rw [heffect]
    exact h.2
  · rename_i heffect
    rw [heffect]
    exact h.2

theorem update_undated {command : Command} {config : StoreConfig} {entries : Entries}
    (hundated : Undated entries) : Undated (command.update config entries) := by
  unfold Command.update
  cases heffect : command.effect config entries with
  | none => exact hundated
  | some after => exact effect_undated hundated heffect

theorem acts_update {config : StoreConfig} (hlimit : config.maxMemoryBytes = none)
    (command : Command) : Acts (command.update config) command.keys := by
  have hplace : ∀ key entry entries, place config key entry entries =
      some (assign entries key (some entry)) := by
    intro key entry entries
    simp only [place, hlimit, assign_some]
  have hpush : ∀ side key values, Acts (fun entries : Entries =>
      ((pushEntry side values (entries.lookup key)).bind fun entry =>
        place config key entry entries).getD entries) [key] := by
    intro side key values
    have hassign := acts_assign key fun cell : Option Entry =>
      (pushEntry side values cell).elim cell some
    convert hassign using 2 with entries
    cases hentry : pushEntry side values (entries.lookup key) with
    | none => simp
    | some entry => simp [hplace]
  have hpop : ∀ side key, Acts (fun entries : Entries =>
      (removeEnd side key entries).getD entries) [key] := by
    intro side key
    convert acts_assign key (popCell side) using 2 with entries
    unfold removeEnd
    rcases hcell : entries.lookup key with _ | ⟨value | items, expiresAt⟩
    · rfl
    · exact (insert_of_lookup_some hcell).symm
    · rfl
  cases command with
  | set key value =>
    have hassign := acts_assign key fun _ : Option Entry =>
      some { value := .string value, expiresAt := none }
    change Acts _ [key]
    convert hassign using 2 with entries
    simp [Command.update, Command.effect, hplace]
  | del keys =>
    constructor
    · intro entries k hk
      have hk : k ∉ keys := hk
      change (keys.foldl (fun entries key => entries.erase key) entries).lookup k = _
      rw [lookup_foldl_erase, if_neg hk]
    · intro entries entries' k hcell
      change (keys.foldl (fun entries key => entries.erase key) entries).lookup k =
        (keys.foldl (fun entries key => entries.erase key) entries').lookup k
      rw [lookup_foldl_erase, lookup_foldl_erase, hcell]
  | lpush key values => exact hpush .left key values
  | rpush key values => exact hpush .right key values
  | lpop key => exact hpop .left key
  | rpop key => exact hpop .right key
  | _ => exact acts_id _

end AerugoCache.Commands
