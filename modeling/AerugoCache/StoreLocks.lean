import Mathlib.Algebra.BigOperators.Pi
import Mathlib.Algebra.BigOperators.Group.Finset.Basic
import Mathlib.Data.Fintype.Basic
import AerugoCache.KeyCounts
import AerugoCache.StepSystem

/-!
# The two locks of the store

`MemoryStore` keeps its entries and its counters under a lock each, and no operation holds
both.  What an operation counts it adds after it has released the entries, and `stats`
reads the counters in a third turn.  Between these turns other tasks run.  Their operations
still happen one after another, in the order in which they take the entries, and no count
is lost: the counters fall short of it by what the tasks have yet to add.
-/

namespace AerugoCache.Storage

open AerugoCache.ByteText AerugoCache.KeyedMap AerugoCache.StepSystem

/-! ### Counts -/

instance : Zero StoreCounters := ⟨⟨0, 0, 0⟩⟩

instance : Add StoreCounters where
  add counters counts :=
    { expiredKeysCleaned := counters.expiredKeysCleaned + counts.expiredKeysCleaned
      evictedKeys := counters.evictedKeys + counts.evictedKeys
      rejectedWrites := counters.rejectedWrites + counts.rejectedWrites }

theorem StoreCounters.add_def (counters counts : StoreCounters) :
    counters + counts =
      { expiredKeysCleaned := counters.expiredKeysCleaned + counts.expiredKeysCleaned
        evictedKeys := counters.evictedKeys + counts.evictedKeys
        rejectedWrites := counters.rejectedWrites + counts.rejectedWrites } := rfl

theorem StoreCounters.zero_def : (0 : StoreCounters) = ⟨0, 0, 0⟩ := rfl

instance : AddCommMonoid StoreCounters where
  add_assoc a b c := by simp only [StoreCounters.add_def, Nat.add_assoc]
  zero_add a := by simp only [StoreCounters.add_def, StoreCounters.zero_def, Nat.zero_add]
  add_zero a := by simp only [StoreCounters.add_def, StoreCounters.zero_def, Nat.add_zero]
  add_comm a b := by
    simp only [StoreCounters.add_def, Nat.add_comm a.expiredKeysCleaned,
      Nat.add_comm a.evictedKeys, Nat.add_comm a.rejectedWrites]
  nsmul := nsmulRec

/-- No counter is ahead of the other's. -/
structure StoreCounters.Le (counters later : StoreCounters) : Prop where
  expired : counters.expiredKeysCleaned ≤ later.expiredKeysCleaned
  evicted : counters.evictedKeys ≤ later.evictedKeys
  rejected : counters.rejectedWrites ≤ later.rejectedWrites

theorem StoreCounters.Le.refl (counters : StoreCounters) : counters.Le counters :=
  ⟨Nat.le_refl _, Nat.le_refl _, Nat.le_refl _⟩

theorem StoreCounters.Le.add {counters later : StoreCounters} (h : counters.Le later)
    (counts : StoreCounters) : counters.Le (later + counts) :=
  ⟨Nat.le_add_right_of_le h.expired, Nat.le_add_right_of_le h.evicted,
    Nat.le_add_right_of_le h.rejected⟩

theorem StoreCounters.Le.trans {counters middle later : StoreCounters} (h : counters.Le middle)
    (h' : middle.Le later) : counters.Le later :=
  ⟨h.expired.trans h'.expired, h.evicted.trans h'.evicted, h.rejected.trans h'.rejected⟩

/-- What is ahead of some counts is ahead by some counts. -/
theorem StoreCounters.Le.exists_add {counts counters : StoreCounters} (h : counts.Le counters) :
    ∃ others, counters = others + counts := by
  refine ⟨⟨counters.expiredKeysCleaned - counts.expiredKeysCleaned,
    counters.evictedKeys - counts.evictedKeys,
    counters.rejectedWrites - counts.rejectedWrites⟩, ?_⟩
  rw [StoreCounters.add_def]
  simp only [Nat.sub_add_cancel h.expired, Nat.sub_add_cancel h.evicted,
    Nat.sub_add_cancel h.rejected]

theorem StoreCounters.le_add_left (counts others : StoreCounters) : counts.Le (others + counts) :=
  ⟨Nat.le_add_left _ _, Nat.le_add_left _ _, Nat.le_add_left _ _⟩

/-- What the other tasks count does not depend on the task. -/
theorem sum_counts {Id Task : Type} [Fintype Id] [DecidableEq Id] (counts : Task → StoreCounters)
    (tasks : Id → Task) (id : Id) :
    ∃ others : StoreCounters, (∑ other, counts (tasks other) = counts (tasks id) + others) ∧
      ∀ task, ∑ other, counts (Function.update tasks id task other) = counts task + others := by
  refine ⟨∑ other ∈ Finset.univ.erase id, counts (tasks other), ?_, fun task => ?_⟩
  · exact (Finset.add_sum_erase _ _ (Finset.mem_univ id)).symm
  · rw [← Finset.add_sum_erase _ _ (Finset.mem_univ id), Function.update_self]
    congr 1
    refine Finset.sum_congr rfl fun other hother => ?_
    rw [Function.update_of_ne (Finset.ne_of_mem_erase hother)]

/-! ### The part under the lock of the entries -/

/-- The counters as `stats` reads them. -/
def StoreStats.withCounters (stats : StoreStats) (counters : StoreCounters) : StoreStats :=
  { stats with
    expiredKeysCleaned := counters.expiredKeysCleaned
    evictedKeys := counters.evictedKeys
    rejectedWrites := counters.rejectedWrites }

def StoreResult.withCounters (counters : StoreCounters) : StoreResult → StoreResult
  | .stats figures => .stats (figures.withCounters counters)
  | result => result

/-- An operation up to the release of the entries: what it returns, the entries, and what
    it has to add to the counters, which it cannot see. -/
def StoreOp.locked (op : StoreOp) (env : OpEnv) (config : StoreConfig) (entries : Entries) :
    StoreResult × Entries × StoreCounters :=
  let (result, store) := op.run env { entries, config, counters := 0 }
  (result, store.entries, store.counters)

/-- The store with other counters. -/
def MemoryStore.withCounters (store : MemoryStore) (counters : StoreCounters) : MemoryStore :=
  { store with counters }

/-- An operation adds to the counters what it would add to blank ones, and is otherwise
    the same whatever they are. -/
def Adds {α : Type} (operation : MemoryStore → α × MemoryStore) : Prop :=
  ∀ (store : MemoryStore) (counters : StoreCounters), operation (store.withCounters counters) =
    ((operation (store.withCounters 0)).1,
      (operation (store.withCounters 0)).2.withCounters
        (counters + (operation (store.withCounters 0)).2.counters))

namespace MemoryStore

theorem adds_get (now : SystemTime) (key : String) : Adds fun store => store.get now key := by
  intro store counters
  simp only [get, withCounters]
  rcases (removeIfExpired store.entries key now).lookup key with _ | ⟨_ | _, _⟩ <;> rfl

theorem adds_ttl (now : SystemTime) (key : String) : Adds fun store => store.ttl now key := by
  intro store counters
  simp only [ttl, withCounters]
  rcases (removeIfExpired store.entries key now).lookup key with _ | ⟨_, _ | _⟩ <;> rfl

theorem adds_lrange (now : SystemTime) (key : String) (start stop : Int64) :
    Adds fun store => store.lrange now key start stop := by
  intro store counters
  simp only [lrange, withCounters]
  rcases (removeIfExpired store.entries key now).lookup key with _ | ⟨_ | list, _⟩
  · rfl
  · rfl
  · simp only
    cases normalizeRange list.length start stop <;> rfl

theorem adds_expireAt (now : SystemTime) (key : String) (expiresAt : SystemTime) :
    Adds fun store => store.expireAt now key expiresAt := by
  intro store counters
  simp only [expireAt_eq]
  rfl

theorem adds_persist (now : SystemTime) (key : String) :
    Adds fun store => store.persist now key := by
  intro store counters
  simp only [persist_eq]
  rfl

theorem adds_pop (now : SystemTime) (key : String) (side : Side) :
    Adds fun store => store.pop now key side := by
  intro store counters
  simp only [pop_eq]
  rfl

theorem adds_del (now : SystemTime) (keys : List String) :
    Adds fun store => store.del now keys := fun _ _ => rfl

theorem adds_exists (now : SystemTime) (keys : List String) :
    Adds fun store => store.exists now keys := fun _ _ => rfl

/-- A sweep: what it drops does not depend on the counters. -/
theorem adds_recordExpired (entries : MemoryStore → Entries) (count : MemoryStore → Nat)
    (hentries : ∀ (store : MemoryStore) counters,
      entries (store.withCounters counters) = entries store)
    (hcount : ∀ (store : MemoryStore) counters, count (store.withCounters counters) = count store) :
    Adds fun store =>
      (count store, (store.withEntries (entries store)).recordExpired (count store)) := by
  intro store counters
  simp only [hentries, hcount, recordExpired]
  split
  · rfl
  · simp only [withCounters, withEntries, StoreCounters.add_def, StoreCounters.zero_def,
      Nat.zero_add, Nat.add_zero]

theorem adds_cleanupExpired (now : SystemTime) : Adds fun store => store.cleanupExpired now :=
  adds_recordExpired _ _ (fun _ _ => rfl) fun _ _ => rfl

theorem commitWrite_withCounters (store : MemoryStore) (counters : StoreCounters) (picks : Picks)
    (key : String) (old : Option Entry) (entry : Entry) :
    (store.withCounters counters).commitWrite picks key old entry =
      (((store.withCounters 0).commitWrite picks key old entry).1,
        ((store.withCounters 0).commitWrite picks key old entry).2.withCounters
          (counters + ((store.withCounters 0).commitWrite picks key old entry).2.counters)) := by
  have hentries : ∀ counters, (store.withCounters counters).entries = store.entries :=
    fun _ => rfl
  have hconfig : ∀ counters, (store.withCounters counters).config = store.config := fun _ => rfl
  simp only [commitWrite, hentries, hconfig]
  rcases enforceMemoryLimit (store.entries.insert key entry) store.config (some key) picks with
    ⟨error | evicted, entries⟩
  · rfl
  · simp only [recordEvicted]
    split
    · rfl
    · simp only [withCounters, withEntries, StoreCounters.add_def, StoreCounters.zero_def,
        Nat.zero_add, Nat.add_zero]

theorem adds_set (picks : Picks) (now : SystemTime) (key : String) (value : Bytes) :
    Adds fun store => store.set picks now key value := by
  intro store counters
  simp only [set_eq]
  exact commitWrite_withCounters store counters picks key _ _

theorem adds_push (picks : Picks) (now : SystemTime) (key : String) (values : List Bytes)
    (side : Side) : Adds fun store => store.push picks now key values side := by
  intro store counters
  have hentries : ∀ counters, (store.withCounters counters).entries = store.entries :=
    fun _ => rfl
  simp only [push_eq, hentries]
  cases pushEntry side values (visible now (store.entries.lookup key)) with
  | none => rfl
  | some entry => simp only [commitWrite_withCounters store counters]

theorem adds_inspectKeys (order : KeyOrder) (now : SystemTime) (limit : Nat) :
    Adds fun store => store.inspectKeys order now limit := by
  intro store counters
  simp only [inspectKeys]
  split
  · rfl
  · have hrecord := adds_recordExpired (fun store => retainUnexpired store.entries now)
      (fun store => size store.entries - size (retainUnexpired store.entries now))
      (fun _ _ => rfl) (fun _ _ => rfl) store counters
    exact congrArg (fun outcome => (_, outcome.2)) hrecord

end MemoryStore

/-- The turn under the lock of the entries is all of the operation but its counts. -/
def StoreOp.Splits (op : StoreOp) (env : OpEnv) (store : MemoryStore) : Prop :=
  op.run env store =
    ((op.locked env store.config store.entries).1.withCounters
        (store.counters + (op.locked env store.config store.entries).2.2),
      { entries := (op.locked env store.config store.entries).2.1
        config := store.config
        counters := store.counters + (op.locked env store.config store.entries).2.2 })

theorem Adds.splits {α : Type} {operation : MemoryStore → α × MemoryStore}
    (h : Adds operation) {op : StoreOp} {env : OpEnv} {f : α → StoreResult}
    (hrun : ∀ store, op.run env store = (operation store).map f id)
    (hplain : ∀ value counters, (f value).withCounters counters = f value) (store : MemoryStore) :
    op.Splits env store := by
  have hlocked : op.locked env store.config store.entries =
      (f (operation (store.withCounters 0)).1, (operation (store.withCounters 0)).2.entries,
        (operation (store.withCounters 0)).2.counters) := by
    simp only [StoreOp.locked, hrun]
    rfl
  have hconfig : (operation (store.withCounters 0)).2.config = store.config := by
    have hkept := op.run_config env (store.withCounters 0)
    rwa [hrun] at hkept
  have hwhole : operation store = _ := h store store.counters
  rw [StoreOp.Splits, hlocked, hrun store, hwhole]
  simp only [hplain, ← hconfig]
  rfl

/-- `stats` reads what the counters are after it has added to them. -/
theorem StoreOp.splits_stats (env : OpEnv) (store : MemoryStore) :
    StoreOp.stats.Splits env store := by
  simp only [StoreOp.Splits, StoreOp.locked, StoreOp.run, MemoryStore.stats,
    MemoryStore.recordExpired]
  split
  · rfl
  · simp only [Prod.map, id, StoreResult.withCounters, StoreStats.withCounters,
      StoreCounters.add_def, StoreCounters.zero_def, Nat.zero_add, Nat.add_zero]

/-- Every operation releases the entries before it counts. -/
theorem StoreOp.splits (op : StoreOp) (env : OpEnv) (store : MemoryStore) :
    op.Splits env store := by
  cases op with
  | set key value =>
    exact (MemoryStore.adds_set env.picks env.now key value).splits (fun _ => rfl)
      (fun _ _ => rfl) store
  | get key =>
    exact (MemoryStore.adds_get env.now key).splits (fun _ => rfl) (fun _ _ => rfl) store
  | del keys =>
    exact (MemoryStore.adds_del env.now keys).splits (fun _ => rfl) (fun _ _ => rfl) store
  | «exists» keys =>
    exact (MemoryStore.adds_exists env.now keys).splits (fun _ => rfl) (fun _ _ => rfl) store
  | expire key seconds =>
    exact (MemoryStore.adds_expireAt env.now key _).splits (fun _ => rfl) (fun _ _ => rfl) store
  | expireAtUnix key unixSeconds =>
    exact (MemoryStore.adds_expireAt env.now key _).splits (fun _ => rfl) (fun _ _ => rfl) store
  | ttl key =>
    exact (MemoryStore.adds_ttl env.now key).splits (fun _ => rfl) (fun _ _ => rfl) store
  | persist key =>
    exact (MemoryStore.adds_persist env.now key).splits (fun _ => rfl) (fun _ _ => rfl) store
  | cleanupExpired =>
    exact (MemoryStore.adds_cleanupExpired env.now).splits (fun _ => rfl) (fun _ _ => rfl) store
  | lpush key values =>
    exact (MemoryStore.adds_push env.picks env.now key values .left).splits (fun _ => rfl)
      (fun _ _ => rfl) store
  | rpush key values =>
    exact (MemoryStore.adds_push env.picks env.now key values .right).splits (fun _ => rfl)
      (fun _ _ => rfl) store
  | lpop key =>
    exact (MemoryStore.adds_pop env.now key .left).splits (fun _ => rfl) (fun _ _ => rfl) store
  | rpop key =>
    exact (MemoryStore.adds_pop env.now key .right).splits (fun _ => rfl) (fun _ _ => rfl) store
  | lrange key start stop =>
    exact (MemoryStore.adds_lrange env.now key start stop).splits (fun _ => rfl)
      (fun _ _ => rfl) store
  | stats => exact StoreOp.splits_stats env store
  | inspectKeys limit =>
    exact (MemoryStore.adds_inspectKeys env.order env.now limit).splits (fun _ => rfl)
      (fun _ _ => rfl) store

end AerugoCache.Storage
