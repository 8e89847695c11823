import Mathlib.Algebra.GroupWithZero.Nat
import Mathlib.Data.List.Sort
import Mathlib.Data.String.Basic
import AerugoCache.KeyedMap
import AerugoCache.ByteText

/-!
# The key-value engine

`storage.rs`.  An operation is a function from the store before it to its result
and the store after it; the clock readings and the two inputs of a random
eviction (the iteration order of the hash map and the nanoseconds of the clock)
are arguments.  Sizes and counters are natural numbers: the estimate of a store
that fits in memory stays below `usize::MAX`.
-/

namespace AerugoCache.Storage

open AerugoCache.ByteText AerugoCache.KeyedMap

def ENTRY_OVERHEAD_BYTES : Nat := 64
def LIST_ITEM_OVERHEAD_BYTES : Nat := 24

/-! ### Clock

A `SystemTime` is a signed number of nanoseconds around the Unix epoch.  Its
seconds are an `i64`, which bounds `checked_add`. -/

abbrev SystemTime := Int

def NANOS_PER_SEC : Nat := 1000000000
def UNIX_EPOCH : SystemTime := 0

/-- `SystemTime::checked_add(Duration::from_secs(seconds))`. -/
def checkedAdd (time : SystemTime) (seconds : UInt64) : Option SystemTime :=
  let sum : Int := time + seconds.toNat * NANOS_PER_SEC
  if sum < 2 ^ 63 * NANOS_PER_SEC then some sum else none

/-- `SystemTime::duration_since`, in nanoseconds. -/
def durationSince (time earlier : SystemTime) : Option Nat :=
  if earlier ≤ time then some (time - earlier).toNat else none

/-! ### Entries and configuration -/

inductive Value where
  | string (value : Bytes)
  | list (list : List Bytes)
deriving DecidableEq, Repr

structure Entry where
  value : Value
  expiresAt : Option SystemTime
deriving DecidableEq, Repr

abbrev Entries := HashMap String Entry

inductive EvictionPolicy where
  | noEviction
  | allKeysRandom
deriving DecidableEq, Repr

def EvictionPolicy.asStr : EvictionPolicy → String
  | .noEviction => "noeviction"
  | .allKeysRandom => "allkeys-random"

structure StoreConfig where
  maxMemoryBytes : Option Nat
  evictionPolicy : EvictionPolicy
deriving DecidableEq, Repr

def StoreConfig.default : StoreConfig := ⟨none, .noEviction⟩

inductive StoreError where
  | wrongType
  | outOfMemory
deriving DecidableEq, Repr

inductive Ttl where
  | missing
  | noExpiration
  | seconds (seconds : Nat)
deriving DecidableEq, Repr

def Ttl.asRedisInteger : Ttl → Int64
  | .missing => -2
  | .noExpiration => -1
  | .seconds secs => Int64.ofNat (min secs (2 ^ 63 - 1))

structure StoreCounters where
  expiredKeysCleaned : Nat
  evictedKeys : Nat
  rejectedWrites : Nat
deriving DecidableEq, Repr

structure MemoryStore where
  entries : Entries
  config : StoreConfig
  counters : StoreCounters

def MemoryStore.withConfig (config : StoreConfig) : MemoryStore where
  entries := ∅
  config := config
  counters := ⟨0, 0, 0⟩

def Entry.isExpired (entry : Entry) (now : SystemTime) : Bool :=
  entry.expiresAt.any fun expiresAt => decide (expiresAt ≤ now)

/-! ### Sizes -/

def Value.typeName : Value → String
  | .string _ => "string"
  | .list _ => "list"

def Value.payloadBytes : Value → Nat
  | .string bytes => bytes.length
  | .list items => (items.map List.length).sum

def Value.estimatedMemoryBytes : Value → Nat
  | .string bytes => bytes.length
  | .list items => (items.map fun value => value.length + LIST_ITEM_OVERHEAD_BYTES).sum

def Value.listItems : Value → Nat
  | .string _ => 0
  | .list items => items.length

def entryEstimatedMemoryBytes (key : String) (entry : Entry) : Nat :=
  ENTRY_OVERHEAD_BYTES + key.utf8ByteSize + entry.value.estimatedMemoryBytes

def estimatedMemoryBytes (entries : Entries) : Nat :=
  weigh entryEstimatedMemoryBytes entries

/-! ### Eviction

`KeyOrder` is an iteration order of a hash map: it lists the keys of any map,
each once.  The loop of `evict_until_within_limit` picks with a fresh order and
a fresh clock reading every time around. -/

structure KeyOrder where
  keys : Entries → List String
  enumerates : ∀ entries, (keys entries : Multiset String) = entries.keys.val

/-- The walk over the keys in ascending order. -/
def KeyOrder.ascending : KeyOrder where
  keys entries := Quot.liftOn entries.keys.val (fun keys => keys.insertionSort (· ≤ ·)) (by
    intro keys keys' hperm
    have hsorted := (List.perm_insertionSort (· ≤ ·) keys).trans
      (List.Perm.trans hperm (List.perm_insertionSort (· ≤ ·) keys').symm)
    exact hsorted.eq_of_pairwise (fun a b _ _ => le_antisymm)
      (List.pairwise_insertionSort _ _) (List.pairwise_insertionSort _ _))
  enumerates entries := by
    generalize entries.keys.val = keys
    induction keys using Quot.ind with
    | mk keys => exact Quot.sound (List.perm_insertionSort _ keys)

structure Picks where
  order : Nat → KeyOrder
  nanos : Nat → Nat

/-- The picks of a clock that always reads `nanos` and a map walked upwards. -/
def Picks.constant (nanos : Nat) : Picks := ⟨fun _ => .ascending, fun _ => nanos⟩

theorem KeyOrder.mem_keys (order : KeyOrder) (entries : Entries) (key : String) :
    key ∈ order.keys entries ↔ key ∈ entries := by
  rw [← Multiset.mem_coe, order.enumerates]
  exact Finmap.mem_keys

/-- The keys an eviction may choose from, in iteration order. -/
def evictionCandidates (order : KeyOrder) (entries : Entries) (protectedKey : Option String) :
    List String :=
  (order.keys entries).filter fun key => protectedKey ≠ some key

theorem mem_evictionCandidates {order : KeyOrder} {entries : Entries}
    {protectedKey : Option String} {key : String} :
    key ∈ evictionCandidates order entries protectedKey ↔
      key ∈ entries ∧ protectedKey ≠ some key := by
  simp [evictionCandidates, order.mem_keys]

/-- The picked key comes with the fact that it is in the map. -/
def pickEvictionKey (order : KeyOrder) (nanos : Nat) (entries : Entries)
    (protectedKey : Option String) : Option { key : String // key ∈ entries } :=
  let candidates := evictionCandidates order entries protectedKey
  if h : candidates.length = 0 then none
  else
    let index : Fin candidates.length :=
      ⟨nanos % candidates.length, Nat.mod_lt _ (Nat.pos_of_ne_zero h)⟩
    some ⟨candidates.get index, (mem_evictionCandidates.mp (List.get_mem candidates index)).1⟩

def restoreEvicted (entries : Entries) (evicted : List (String × Entry)) : Entries :=
  evicted.foldl (fun entries (key, entry) => entries.insert key entry) entries

/-- The loop of `evict_until_within_limit`, at its `round`-th iteration. -/
def evictLoop (maxMemoryBytes : Nat) (protectedKey : Option String) (picks : Picks) (round : Nat)
    (entries : Entries) (evicted : List (String × Entry)) :
    Except StoreError (List (String × Entry)) × Entries :=
  if estimatedMemoryBytes entries > maxMemoryBytes then
    match pickEvictionKey (picks.order round) (picks.nanos round) entries protectedKey with
    | none => (.error .outOfMemory, restoreEvicted entries evicted)
    | some key =>
        let entry := (entries.lookup key.1).get (Finmap.lookup_isSome.mpr key.2)
        evictLoop maxMemoryBytes protectedKey picks (round + 1) (entries.erase key.1)
          (evicted ++ [(key.1, entry)])
  else (.ok evicted, entries)
termination_by size entries
decreasing_by exact size_erase_lt key.2

def evictUntilWithinLimit (entries : Entries) (maxMemoryBytes : Nat)
    (protectedKey : Option String) (picks : Picks) :
    Except StoreError (List (String × Entry)) × Entries :=
  evictLoop maxMemoryBytes protectedKey picks 0 entries []

def enforceMemoryLimit (entries : Entries) (config : StoreConfig) (protectedKey : Option String)
    (picks : Picks) : Except StoreError (List (String × Entry)) × Entries :=
  match config.maxMemoryBytes with
  | none => (.ok [], entries)
  | some maxMemoryBytes =>
      if estimatedMemoryBytes entries ≤ maxMemoryBytes then (.ok [], entries)
      else
        match config.evictionPolicy with
        | .noEviction => (.error .outOfMemory, entries)
        | .allKeysRandom => evictUntilWithinLimit entries maxMemoryBytes protectedKey picks

/-! ### Helpers shared by the operations -/

def removeIfExpired (entries : Entries) (key : String) (now : SystemTime) : Entries :=
  if (entries.lookup key).any fun entry => entry.isExpired now then entries.erase key else entries

def restoreEntry (entries : Entries) (key : String) : Option Entry → Entries
  | some entry => entries.insert key entry
  | none => entries.erase key

def retainUnexpired (entries : Entries) (now : SystemTime) : Entries :=
  retain (fun _ entry => !entry.isExpired now) entries

namespace MemoryStore

def recordExpired (store : MemoryStore) (count : Nat) : MemoryStore :=
  if count = 0 then store
  else { store with counters.expiredKeysCleaned := store.counters.expiredKeysCleaned + count }

def recordEvicted (store : MemoryStore) (count : Nat) : MemoryStore :=
  if count = 0 then store
  else { store with counters.evictedKeys := store.counters.evictedKeys + count }

def recordRejectedWrite (store : MemoryStore) : MemoryStore :=
  { store with counters.rejectedWrites := store.counters.rejectedWrites + 1 }

/-! ### Strings and keys -/

def set (store : MemoryStore) (picks : Picks) (now : SystemTime) (key : String) (value : Bytes) :
    Except StoreError Unit × MemoryStore :=
  let entries := removeIfExpired store.entries key now
  let old := entries.lookup key
  let entries := entries.insert key { value := .string value, expiresAt := none }
  match enforceMemoryLimit entries store.config (some key) picks with
  | (.ok evicted, entries) => (.ok (), { store with entries }.recordEvicted evicted.length)
  | (.error error, entries) =>
      (.error error, { store with entries := restoreEntry entries key old }.recordRejectedWrite)

def get (store : MemoryStore) (now : SystemTime) (key : String) :
    Except StoreError (Option Bytes) × MemoryStore :=
  let entries := removeIfExpired store.entries key now
  let store := { store with entries }
  match entries.lookup key with
  | none => (.ok none, store)
  | some entry =>
      match entry.value with
      | .string value => (.ok (some value), store)
      | .list _ => (.error .wrongType, store)

/-- The closure of `del`, run on one key after another. -/
def delKeys (now : SystemTime) : List String → Entries → Nat × Entries
  | [], entries => (0, entries)
  | key :: keys, entries =>
      let entries := removeIfExpired entries key now
      let removed := if (entries.lookup key).isSome then 1 else 0
      let (count, entries) := delKeys now keys (entries.erase key)
      (removed + count, entries)

def del (store : MemoryStore) (now : SystemTime) (keys : List String) : Nat × MemoryStore :=
  let (count, entries) := delKeys now keys store.entries
  (count, { store with entries })

/-- The closure of `exists`, run on one key after another. -/
def existsKeys (now : SystemTime) : List String → Entries → Nat × Entries
  | [], entries => (0, entries)
  | key :: keys, entries =>
      let entries := removeIfExpired entries key now
      let found := if (entries.lookup key).isSome then 1 else 0
      let (count, entries) := existsKeys now keys entries
      (found + count, entries)

def «exists» (store : MemoryStore) (now : SystemTime) (keys : List String) : Nat × MemoryStore :=
  let (count, entries) := existsKeys now keys store.entries
  (count, { store with entries })

/-! ### Expiration -/

def expireAt (store : MemoryStore) (now : SystemTime) (key : String) (expiresAt : SystemTime) :
    Bool × MemoryStore :=
  let entries := removeIfExpired store.entries key now
  if expiresAt ≤ now then
    ((entries.lookup key).isSome, { store with entries := entries.erase key })
  else
    match entries.lookup key with
    | none => (false, { store with entries })
    | some entry =>
        (true, { store with entries := entries.insert key { entry with expiresAt } })

/-- The deadline `expire` computes from its own clock reading. -/
def expireDeadline (reading : SystemTime) (seconds : UInt64) : SystemTime :=
  (checkedAdd reading seconds).getD reading

/-- `reading` is the clock reading of `expire` itself, `now` that of `expire_at`. -/
def expire (store : MemoryStore) (reading now : SystemTime) (key : String) (seconds : UInt64) :
    Bool × MemoryStore :=
  store.expireAt now key (expireDeadline reading seconds)

/-- The deadline `expire_at_unix` computes, `reading` being its fallback. -/
def unixDeadline (reading : SystemTime) (unixSeconds : UInt64) : SystemTime :=
  (checkedAdd UNIX_EPOCH unixSeconds).getD reading

def expireAtUnix (store : MemoryStore) (reading now : SystemTime) (key : String)
    (unixSeconds : UInt64) : Bool × MemoryStore :=
  store.expireAt now key (unixDeadline reading unixSeconds)

def ttl (store : MemoryStore) (now : SystemTime) (key : String) : Ttl × MemoryStore :=
  let entries := removeIfExpired store.entries key now
  let store := { store with entries }
  match entries.lookup key with
  | none => (.missing, store)
  | some entry =>
      match entry.expiresAt with
      | some expiresAt =>
          (.seconds (((durationSince expiresAt now).map (· / NANOS_PER_SEC)).getD 0), store)
      | none => (.noExpiration, store)

def persist (store : MemoryStore) (now : SystemTime) (key : String) : Bool × MemoryStore :=
  let entries := removeIfExpired store.entries key now
  match entries.lookup key with
  | none => (false, { store with entries })
  | some entry =>
      if entry.expiresAt.isNone then (false, { store with entries })
      else (true, { store with entries := entries.insert key { entry with expiresAt := none } })

def cleanupExpired (store : MemoryStore) (now : SystemTime) : Nat × MemoryStore :=
  let before := size store.entries
  let entries := retainUnexpired store.entries now
  let removed := before - size entries
  (removed, { store with entries }.recordExpired removed)

end MemoryStore

/-! ### Lists -/

inductive Side where
  | left
  | right
deriving DecidableEq, Repr

/-- One iteration of the loop of `push`. -/
def pushValue (side : Side) (list : List Bytes) (value : Bytes) : List Bytes :=
  match side with
  | .left => value :: list
  | .right => list ++ [value]

/-- `pop_front` or `pop_back`. -/
def popValue (side : Side) (list : List Bytes) : Option Bytes × List Bytes :=
  match side with
  | .left => (list.head?, list.tail)
  | .right => (list.getLast?, list.dropLast)

def normalizeRange (len : Nat) (start stop : Int64) : Option (Nat × Nat) :=
  if len = 0 then none
  else
    let len : Int := len
    let start : Int := if start.toInt < 0 then len + start.toInt else start.toInt
    let stop : Int := if stop.toInt < 0 then len + stop.toInt else stop.toInt
    let start := if start < 0 then 0 else start
    if stop < 0 ∨ start ≥ len then none
    else
      let stop := if stop ≥ len then len - 1 else stop
      if start ≤ stop then some (start.toNat, stop.toNat) else none

namespace MemoryStore

def push (store : MemoryStore) (picks : Picks) (now : SystemTime) (key : String)
    (values : List Bytes) (side : Side) : Except StoreError Nat × MemoryStore :=
  let entries := removeIfExpired store.entries key now
  let old := entries.lookup key
  -- `entry(key).or_insert_with(..)`: the entry there is, or a new empty list
  let entry := old.getD { value := .list [], expiresAt := none }
  match entry.value with
  | .string _ => (.error .wrongType, { store with entries := entries.insert key entry })
  | .list list =>
      let list := values.foldl (pushValue side) list
      let entries := entries.insert key { entry with value := .list list }
      match enforceMemoryLimit entries store.config (some key) picks with
      | (.ok evicted, entries) =>
          (.ok list.length, { store with entries }.recordEvicted evicted.length)
      | (.error error, entries) =>
          (.error error, { store with entries := restoreEntry entries key old }.recordRejectedWrite)

def pop (store : MemoryStore) (now : SystemTime) (key : String) (side : Side) :
    Except StoreError (Option Bytes) × MemoryStore :=
  let entries := removeIfExpired store.entries key now
  match entries.lookup key with
  | none => (.ok none, { store with entries })
  | some entry =>
      match entry.value with
      | .string _ => (.error .wrongType, { store with entries })
      | .list list =>
          let (value, list) := popValue side list
          let entries := entries.insert key { entry with value := .list list }
          if list.isEmpty then (.ok value, { store with entries := entries.erase key })
          else (.ok value, { store with entries })

def lpush (store : MemoryStore) (picks : Picks) (now : SystemTime) (key : String)
    (values : List Bytes) : Except StoreError Nat × MemoryStore :=
  store.push picks now key values .left

def rpush (store : MemoryStore) (picks : Picks) (now : SystemTime) (key : String)
    (values : List Bytes) : Except StoreError Nat × MemoryStore :=
  store.push picks now key values .right

def lpop (store : MemoryStore) (now : SystemTime) (key : String) :
    Except StoreError (Option Bytes) × MemoryStore :=
  store.pop now key .left

def rpop (store : MemoryStore) (now : SystemTime) (key : String) :
    Except StoreError (Option Bytes) × MemoryStore :=
  store.pop now key .right

def lrange (store : MemoryStore) (now : SystemTime) (key : String) (start stop : Int64) :
    Except StoreError (List Bytes) × MemoryStore :=
  let entries := removeIfExpired store.entries key now
  let store := { store with entries }
  match entries.lookup key with
  | none => (.ok [], store)
  | some entry =>
      match entry.value with
      | .string _ => (.error .wrongType, store)
      | .list list =>
          match normalizeRange list.length start stop with
          | none => (.ok [], store)
          | some (start, stop) => (.ok ((list.drop start).take (stop - start + 1)), store)

end MemoryStore

end AerugoCache.Storage
