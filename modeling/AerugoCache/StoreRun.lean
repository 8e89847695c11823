import Mathlib.Algebra.Order.BigOperators.Group.List
import AerugoCache.StoreMemory

/-!
# Runs of the store

The public operations of `MemoryStore` as data, so that a run is a list.  The
estimate of the map is within the limit after every operation of every run: a write
is checked, and no other operation makes a cell cost more.
-/

namespace AerugoCache.Storage

open AerugoCache.ByteText AerugoCache.KeyedMap

/-- What one operation reads besides its arguments and the store. -/
structure OpEnv where
  expireNow : SystemTime
  now : SystemTime
  order : KeyOrder
  picks : Picks

/-- All the readings of an operation at one instant. -/
def OpEnv.at (now : SystemTime) : OpEnv := ⟨now, now, .ascending, .constant 0⟩

inductive StoreOp where
  | set (key : String) (value : Bytes)
  | get (key : String)
  | del (keys : List String)
  | exists (keys : List String)
  | expire (key : String) (seconds : UInt64)
  | expireAtUnix (key : String) (unixSeconds : UInt64)
  | ttl (key : String)
  | persist (key : String)
  | cleanupExpired
  | lpush (key : String) (values : List Bytes)
  | rpush (key : String) (values : List Bytes)
  | lpop (key : String)
  | rpop (key : String)
  | lrange (key : String) (start stop : Int64)
  | stats
  | inspectKeys (limit : Nat)
deriving DecidableEq, Repr

/-- What an operation returns. -/
inductive StoreResult where
  | written (result : Except StoreError Unit)
  | value (result : Except StoreError (Option Bytes))
  | count (count : Nat)
  | length (result : Except StoreError Nat)
  | done (done : Bool)
  | ttl (ttl : Ttl)
  | values (result : Except StoreError (List Bytes))
  | stats (stats : StoreStats)
  | rows (rows : List KeyInspection)

def StoreOp.run (op : StoreOp) (env : OpEnv) (store : MemoryStore) : StoreResult × MemoryStore :=
  match op with
  | .set key value => (store.set env.picks env.now key value).map .written id
  | .get key => (store.get env.now key).map .value id
  | .del keys => (store.del env.now keys).map .count id
  | .exists keys => (store.exists env.now keys).map .count id
  | .expire key seconds => (store.expire env.expireNow env.now key seconds).map .done id
  | .expireAtUnix key unixSeconds =>
      (store.expireAtUnix env.expireNow env.now key unixSeconds).map .done id
  | .ttl key => (store.ttl env.now key).map .ttl id
  | .persist key => (store.persist env.now key).map .done id
  | .cleanupExpired => (store.cleanupExpired env.now).map .count id
  | .lpush key values => (store.lpush env.picks env.now key values).map .length id
  | .rpush key values => (store.rpush env.picks env.now key values).map .length id
  | .lpop key => (store.lpop env.now key).map .value id
  | .rpop key => (store.rpop env.now key).map .value id
  | .lrange key start stop => (store.lrange env.now key start stop).map .values id
  | .stats => (store.stats env.now).map .stats id
  | .inspectKeys limit => (store.inspectKeys env.order env.now limit).map .rows id

/-- The store after a run. -/
def runOps (ops : List (StoreOp × OpEnv)) (store : MemoryStore) : MemoryStore :=
  ops.foldl (fun store (op, env) => (op.run env store).2) store

theorem runOps_append (ops ops' : List (StoreOp × OpEnv)) (store : MemoryStore) :
    runOps (ops ++ ops') store = runOps ops' (runOps ops store) := by
  simp [runOps]

/-! ### No cell costs more than before -/

/-- `cell` is empty, or costs no more than the entry that `old` holds. -/
def Cheaper (key : String) (old cell : Option Entry) : Prop :=
  ∀ entry, cell = some entry → ∃ before, old = some before ∧
    entryEstimatedMemoryBytes key entry ≤ entryEstimatedMemoryBytes key before

theorem Cheaper.withCell_le {store : MemoryStore} {key : String} {cell : Option Entry}
    (h : Cheaper key (store.entries.lookup key) cell) :
    estimatedMemoryBytes (store.withCell key cell).entries ≤ estimatedMemoryBytes store.entries :=
  weigh_assign_le _ h

theorem cheaper_visible (key : String) (now : SystemTime) (cell : Option Entry) :
    Cheaper key cell (visible now cell) := by
  intro entry hentry
  exact ⟨entry, (visible_eq_some.mp hentry).1, Nat.le_refl _⟩

theorem Cheaper.trans {key : String} {old middle cell : Option Entry}
    (h : Cheaper key old middle) (h' : Cheaper key middle cell) : Cheaper key old cell := by
  intro entry hentry
  obtain ⟨between, hbetween, hle⟩ := h' entry hentry
  obtain ⟨before, hbefore, hle'⟩ := h between hbetween
  exact ⟨before, hbefore, Nat.le_trans hle hle'⟩

theorem cheaper_expireCell (key : String) (now expiresAt : SystemTime) (cell : Option Entry) :
    Cheaper key cell (expireCell now expiresAt cell) := by
  intro entry hentry
  unfold expireCell at hentry
  split at hentry
  · cases hentry
  · obtain ⟨before, hbefore, rfl⟩ := Option.map_eq_some_iff.mp hentry
    exact ⟨before, hbefore, Nat.le_refl _⟩

theorem cheaper_persistCell (key : String) (cell : Option Entry) :
    Cheaper key cell (persistCell cell) := by
  intro entry hentry
  obtain ⟨before, hbefore, rfl⟩ := Option.map_eq_some_iff.mp hentry
  exact ⟨before, hbefore, Nat.le_refl _⟩

theorem popValue_sublist (side : Side) (items : List Bytes) :
    (popValue side items).2.Sublist items := by
  cases side with
  | left => exact List.tail_sublist items
  | right => exact List.dropLast_sublist items

theorem cheaper_popCell (key : String) (side : Side) (cell : Option Entry) :
    Cheaper key cell (popCell side cell) := by
  intro entry hentry
  rcases cell with _ | ⟨value | items, expiresAt⟩
  · cases hentry
  · cases hentry
    exact ⟨_, rfl, Nat.le_refl _⟩
  · simp only [popCell] at hentry
    split at hentry
    · cases hentry
    · cases hentry
      refine ⟨_, rfl, Nat.add_le_add_left ?_ _⟩
      exact ((popValue_sublist side items).map _).sum_le_sum (fun _ _ => Nat.zero_le _)

/-- The update of the cell follows the removal of an expired entry. -/
theorem MemoryStore.withCell_update_le (store : MemoryStore) (key : String) (now : SystemTime)
    {update : Option Entry → Option Entry} (h : ∀ cell, Cheaper key cell (update cell)) :
    estimatedMemoryBytes
        (store.withCell key (update (visible now (store.entries.lookup key)))).entries ≤
      estimatedMemoryBytes store.entries :=
  ((cheaper_visible key now _).trans (h _)).withCell_le

theorem foldl_erase_le (keys : List String) (entries : Entries) :
    estimatedMemoryBytes (keys.foldl (fun entries key => entries.erase key) entries) ≤
      estimatedMemoryBytes entries := by
  induction keys generalizing entries with
  | nil => exact Nat.le_refl _
  | cons key keys ih => exact Nat.le_trans (ih _) (weigh_erase_le _ entries key)

theorem foldl_removeIfExpired_le (keys : List String) (now : SystemTime) (entries : Entries) :
    estimatedMemoryBytes (keys.foldl (fun entries key => removeIfExpired entries key now) entries) ≤
      estimatedMemoryBytes entries := by
  induction keys generalizing entries with
  | nil => exact Nat.le_refl _
  | cons key keys ih =>
    refine Nat.le_trans (ih _) ?_
    change estimatedMemoryBytes (removeIfExpired entries key now) ≤ _
    rw [removeIfExpired_eq_assign]
    exact weigh_assign_le _ (cheaper_visible key now _)

theorem retainUnexpired_le (entries : Entries) (now : SystemTime) :
    estimatedMemoryBytes (retainUnexpired entries now) ≤ estimatedMemoryBytes entries :=
  weigh_retain_le _ _ _

/-! ### The limit is an invariant -/

/-- The map is within the limit of the configuration. -/
def MemoryStore.WithinLimit (store : MemoryStore) : Prop :=
  ∀ maxMemoryBytes, store.config.maxMemoryBytes = some maxMemoryBytes →
    estimatedMemoryBytes store.entries ≤ maxMemoryBytes

theorem MemoryStore.WithinLimit.of_le {store after : MemoryStore} (h : store.WithinLimit)
    (hconfig : after.config = store.config)
    (hle : estimatedMemoryBytes after.entries ≤ estimatedMemoryBytes store.entries) :
    after.WithinLimit := by
  intro maxMemoryBytes hmax
  rw [hconfig] at hmax
  exact Nat.le_trans hle (h maxMemoryBytes hmax)

/-- A write re-establishes the limit on its three exits: it fits, enough was evicted,
    or the cell is put back and costs no more than at the start. -/
theorem MemoryStore.WithinLimit.commitWrite {store : MemoryStore} (h : store.WithinLimit)
    (picks : Picks) (key : String) (now : SystemTime) (entry : Entry) :
    (store.commitWrite picks key (visible now (store.entries.lookup key)) entry).2.WithinLimit := by
  have hconfig := store.commitWrite_config picks key (visible now (store.entries.lookup key)) entry
  cases hwrite : store.commitWrite picks key (visible now (store.entries.lookup key)) entry with
  | mk result after =>
    rw [hwrite] at hconfig
    cases result with
    | ok _ =>
      obtain ⟨_, _, hfits⟩ := MemoryStore.commitWrite_ok hwrite
      intro maxMemoryBytes hmax
      rw [hconfig] at hmax
      exact hfits maxMemoryBytes hmax
    | error error =>
      refine h.of_le hconfig ?_
      rw [MemoryStore.commitWrite_error hwrite]
      exact (cheaper_visible key now _).withCell_le

theorem MemoryStore.WithinLimit.push {store : MemoryStore} (h : store.WithinLimit)
    (picks : Picks) (now : SystemTime) (key : String) (values : List Bytes) (side : Side) :
    (store.push picks now key values side).2.WithinLimit := by
  rw [MemoryStore.push_eq]
  split
  · exact h.of_le rfl (cheaper_visible key now _).withCell_le
  · exact h.commitWrite picks key now _

/-- One operation of any kind keeps the map within the limit. -/
theorem StoreOp.run_withinLimit (op : StoreOp) (env : OpEnv) {store : MemoryStore}
    (h : store.WithinLimit) : (op.run env store).2.WithinLimit := by
  cases op with
  | set key value =>
    change (store.set env.picks env.now key value).2.WithinLimit
    rw [MemoryStore.set_eq]
    exact h.commitWrite env.picks key env.now _
  | get key =>
    change (store.get env.now key).2.WithinLimit
    rw [MemoryStore.get_store]
    exact h.of_le rfl (cheaper_visible key env.now _).withCell_le
  | del keys =>
    change (store.del env.now keys).2.WithinLimit
    rw [MemoryStore.del_store]
    exact h.of_le rfl (foldl_erase_le keys store.entries)
  | «exists» keys =>
    change (store.exists env.now keys).2.WithinLimit
    rw [MemoryStore.exists_store]
    exact h.of_le rfl (foldl_removeIfExpired_le keys env.now store.entries)
  | expire key seconds =>
    change (store.expire env.expireNow env.now key seconds).2.WithinLimit
    rw [MemoryStore.expire, MemoryStore.expireAt_eq]
    exact h.of_le rfl (store.withCell_update_le key env.now (cheaper_expireCell key env.now _))
  | expireAtUnix key unixSeconds =>
    change (store.expireAtUnix env.expireNow env.now key unixSeconds).2.WithinLimit
    rw [MemoryStore.expireAtUnix, MemoryStore.expireAt_eq]
    exact h.of_le rfl (store.withCell_update_le key env.now (cheaper_expireCell key env.now _))
  | ttl key =>
    change (store.ttl env.now key).2.WithinLimit
    rw [MemoryStore.ttl_store]
    exact h.of_le rfl (cheaper_visible key env.now _).withCell_le
  | persist key =>
    change (store.persist env.now key).2.WithinLimit
    rw [MemoryStore.persist_eq]
    exact h.of_le rfl (store.withCell_update_le key env.now (cheaper_persistCell key))
  | cleanupExpired =>
    refine h.of_le (MemoryStore.recordExpired_config _ _) ?_
    change estimatedMemoryBytes (store.cleanupExpired env.now).2.entries ≤ _
    rw [MemoryStore.cleanupExpired_entries]
    exact retainUnexpired_le _ _
  | lpush key values => exact h.push env.picks env.now key values .left
  | rpush key values => exact h.push env.picks env.now key values .right
  | lpop key =>
    change (store.pop env.now key .left).2.WithinLimit
    rw [MemoryStore.pop_eq]
    exact h.of_le rfl (store.withCell_update_le key env.now (cheaper_popCell key .left))
  | rpop key =>
    change (store.pop env.now key .right).2.WithinLimit
    rw [MemoryStore.pop_eq]
    exact h.of_le rfl (store.withCell_update_le key env.now (cheaper_popCell key .right))
  | lrange key start stop =>
    change (store.lrange env.now key start stop).2.WithinLimit
    rw [MemoryStore.lrange_store]
    exact h.of_le rfl (cheaper_visible key env.now _).withCell_le
  | stats =>
    refine h.of_le (MemoryStore.recordExpired_config _ _) ?_
    change estimatedMemoryBytes (store.stats env.now).2.entries ≤ _
    rw [MemoryStore.stats_entries]
    exact retainUnexpired_le _ _
  | inspectKeys limit =>
    refine h.of_le (MemoryStore.inspectKeys_config _ _ _ _) ?_
    change estimatedMemoryBytes (store.inspectKeys env.order env.now limit).2.entries ≤ _
    rw [MemoryStore.inspectKeys_entries]
    split
    · exact Nat.le_refl _
    · exact retainUnexpired_le _ _

theorem runOps_withinLimit (ops : List (StoreOp × OpEnv)) {store : MemoryStore}
    (h : store.WithinLimit) : (runOps ops store).WithinLimit := by
  induction ops generalizing store with
  | nil => exact h
  | cons op ops ih => exact ih (op.1.run_withinLimit op.2 h)

theorem StoreOp.run_config (op : StoreOp) (env : OpEnv) (store : MemoryStore) :
    (op.run env store).2.config = store.config := by
  cases op <;> simp only [StoreOp.run, Prod.map, id]
  case set => rw [MemoryStore.set_eq, MemoryStore.commitWrite_config]
  case get => rw [MemoryStore.get_store, MemoryStore.withCell_config]
  case del => rw [MemoryStore.del_store, MemoryStore.withEntries_config]
  case «exists» => rw [MemoryStore.exists_store, MemoryStore.withEntries_config]
  case expire => rw [MemoryStore.expire, MemoryStore.expireAt_eq, MemoryStore.withCell_config]
  case expireAtUnix =>
    rw [MemoryStore.expireAtUnix, MemoryStore.expireAt_eq, MemoryStore.withCell_config]
  case ttl => rw [MemoryStore.ttl_store, MemoryStore.withCell_config]
  case persist => rw [MemoryStore.persist_eq, MemoryStore.withCell_config]
  case cleanupExpired => exact MemoryStore.recordExpired_config _ _
  case lpush => exact MemoryStore.push_config _ _ _ _ _ _
  case rpush => exact MemoryStore.push_config _ _ _ _ _ _
  case lpop => rw [MemoryStore.lpop, MemoryStore.pop_eq, MemoryStore.withCell_config]
  case rpop => rw [MemoryStore.rpop, MemoryStore.pop_eq, MemoryStore.withCell_config]
  case lrange => rw [MemoryStore.lrange_store, MemoryStore.withCell_config]
  case stats => exact MemoryStore.recordExpired_config _ _
  case inspectKeys => exact MemoryStore.inspectKeys_config _ _ _ _

theorem runOps_config (ops : List (StoreOp × OpEnv)) (store : MemoryStore) :
    (runOps ops store).config = store.config := by
  induction ops generalizing store with
  | nil => rfl
  | cons op ops ih => exact (ih _).trans (op.1.run_config op.2 store)

/-- **Memory limit invariant.**  Under a limit of `maxMemoryBytes` and either policy
    the estimate is within the limit after every run from the empty store, and so is
    the figure that `stats` reports at any time. -/
theorem estimate_within_limit (maxMemoryBytes : Nat) (policy : EvictionPolicy)
    (ops : List (StoreOp × OpEnv)) :
    let store := runOps ops (.withConfig ⟨some maxMemoryBytes, policy⟩)
    estimatedMemoryBytes store.entries ≤ maxMemoryBytes ∧
      ∀ now, (store.stats now).1.estimatedMemoryBytes ≤ maxMemoryBytes := by
  intro store
  have hempty : (MemoryStore.withConfig ⟨some maxMemoryBytes, policy⟩).WithinLimit := by
    intro _ _
    exact Nat.zero_le _
  have hconfig : store.config.maxMemoryBytes = some maxMemoryBytes := by
    rw [runOps_config]
    rfl
  have hlimit : estimatedMemoryBytes store.entries ≤ maxMemoryBytes :=
    runOps_withinLimit ops hempty maxMemoryBytes hconfig
  refine ⟨hlimit, fun now => ?_⟩
  change (buildStats (retainUnexpired store.entries now) store.config).estimatedMemoryBytes ≤ _
  rw [buildStats_estimatedMemoryBytes]
  exact Nat.le_trans (retainUnexpired_le store.entries now) hlimit

end AerugoCache.Storage
