import Mathlib.Data.List.Sort
import AerugoCache.Storage

/-!
# Reports on the store

`stats` and `inspect_keys` of `storage.rs`.  Both drop the expired entries first
and count them, then walk over the map; the walk of `inspect_keys` is in the
iteration order of the map and is sorted afterwards.
-/

namespace AerugoCache.Storage

open AerugoCache.ByteText AerugoCache.KeyedMap

@[ext] structure StoreStats where
  totalKeys : Nat
  stringKeys : Nat
  listKeys : Nat
  expiringKeys : Nat
  keyBytes : Nat
  payloadBytes : Nat
  estimatedMemoryBytes : Nat
  listItems : Nat
  maxMemoryBytes : Option Nat
  evictionPolicy : EvictionPolicy
  expiredKeysCleaned : Nat
  evictedKeys : Nat
  rejectedWrites : Nat
deriving DecidableEq, Repr

structure KeyInspection where
  key : String
  valueType : String
  ttlSeconds : Int64
  payloadBytes : Nat
  estimatedMemoryBytes : Nat
  listItems : Nat
deriving DecidableEq, Repr

/-! ### Statistics -/

/-- The body of the loop of `build_stats`. -/
def StoreStats.add (stats : StoreStats) (key : String) (entry : Entry) : StoreStats :=
  let stats := { stats with
    keyBytes := stats.keyBytes + key.utf8ByteSize
    payloadBytes := stats.payloadBytes + entry.value.payloadBytes
    estimatedMemoryBytes := stats.estimatedMemoryBytes + entryEstimatedMemoryBytes key entry
    listItems := stats.listItems + entry.value.listItems }
  let stats :=
    if entry.expiresAt.isSome then { stats with expiringKeys := stats.expiringKeys + 1 } else stats
  match entry.value with
  | .string _ => { stats with stringKeys := stats.stringKeys + 1 }
  | .list _ => { stats with listKeys := stats.listKeys + 1 }

/-- The loop may visit the entries in any order. -/
instance : RightCommutative fun stats (s : (_ : String) × Entry) => StoreStats.add stats s.1 s.2 where
  right_comm := by
    rintro stats ⟨k, ⟨v, d⟩⟩ ⟨k', ⟨v', d'⟩⟩
    cases v <;> cases v' <;> cases d <;> cases d' <;>
      simp [StoreStats.add, Nat.add_right_comm]

def buildStats (entries : Entries) (config : StoreConfig) : StoreStats :=
  let stats : StoreStats := {
    totalKeys := size entries
    stringKeys := 0
    listKeys := 0
    expiringKeys := 0
    keyBytes := 0
    payloadBytes := 0
    estimatedMemoryBytes := 0
    listItems := 0
    maxMemoryBytes := config.maxMemoryBytes
    evictionPolicy := config.evictionPolicy
    expiredKeysCleaned := 0
    evictedKeys := 0
    rejectedWrites := 0 }
  entries.entries.foldl (fun stats s => stats.add s.1 s.2) stats

/-! ### Key rows -/

def entryTtlSeconds (entry : Entry) (now : SystemTime) : Int64 :=
  match entry.expiresAt with
  | some expiresAt =>
      ((durationSince expiresAt now).map fun duration =>
        Int64.ofNat (min (duration / NANOS_PER_SEC) (2 ^ 63 - 1))).getD 0
  | none => -1

def inspectEntry (now : SystemTime) (key : String) (entry : Entry) : KeyInspection where
  key := key
  valueType := entry.value.typeName
  ttlSeconds := entryTtlSeconds entry now
  payloadBytes := entry.value.payloadBytes
  estimatedMemoryBytes := entryEstimatedMemoryBytes key entry
  listItems := entry.value.listItems

/-- `Ord` of strings: their bytes in lexicographic order. -/
def KeyInspection.Le (left right : KeyInspection) : Prop := utf8 left.key ≤ utf8 right.key

instance : DecidableRel KeyInspection.Le := fun left right =>
  inferInstanceAs (Decidable (utf8 left.key ≤ utf8 right.key))

def inspectRows (order : KeyOrder) (entries : Entries) (now : SystemTime) : List KeyInspection :=
  (order.keys entries).filterMap fun key => (entries.lookup key).map (inspectEntry now key)

namespace MemoryStore

def stats (store : MemoryStore) (now : SystemTime) : StoreStats × MemoryStore :=
  let before := size store.entries
  let entries := retainUnexpired store.entries now
  let expired := before - size entries
  let stats := buildStats entries store.config
  let store := { store with entries }.recordExpired expired
  ({ stats with
      expiredKeysCleaned := store.counters.expiredKeysCleaned
      evictedKeys := store.counters.evictedKeys
      rejectedWrites := store.counters.rejectedWrites },
    store)

def inspectKeys (store : MemoryStore) (order : KeyOrder) (now : SystemTime) (limit : Nat) :
    List KeyInspection × MemoryStore :=
  if limit = 0 then ([], store)
  else
    let before := size store.entries
    let entries := retainUnexpired store.entries now
    let expired := before - size entries
    let keys := (inspectRows order entries now).insertionSort KeyInspection.Le
    (keys.take limit, { store with entries }.recordExpired expired)

end MemoryStore

/-! ### The loop of `build_stats` as a sum -/

/-- What the loop adds to the figures when it comes to an entry. -/
structure StoreStats.Counts (key : String) (entry : Entry) (stats after : StoreStats) : Prop where
  totalKeys : after.totalKeys = 0 + stats.totalKeys
  typedKeys : after.stringKeys + after.listKeys = 1 + (stats.stringKeys + stats.listKeys)
  keyBytes : after.keyBytes = key.utf8ByteSize + stats.keyBytes
  payloadBytes : after.payloadBytes = entry.value.payloadBytes + stats.payloadBytes
  estimatedMemoryBytes : after.estimatedMemoryBytes =
    entryEstimatedMemoryBytes key entry + stats.estimatedMemoryBytes
  listItems : after.listItems = entry.value.listItems + stats.listItems

theorem StoreStats.add_counts (stats : StoreStats) (key : String) (entry : Entry) :
    StoreStats.Counts key entry stats (stats.add key entry) := by
  rcases entry with ⟨value, expiresAt⟩
  constructor <;> cases value <;> cases expiresAt <;> simp only [StoreStats.add] <;> simp <;> omega

/-- A figure to which every entry adds its weight is a sum. -/
theorem foldl_add (figure : StoreStats → Nat) {w : String → Entry → Nat}
    (h : ∀ stats key entry, figure (stats.add key entry) = w key entry + figure stats)
    (s : Multiset ((_ : String) × Entry)) (stats : StoreStats) :
    figure (s.foldl (fun stats s => stats.add s.1 s.2) stats) =
      (s.map fun s => w s.1 s.2).sum + figure stats := by
  induction s using Multiset.induction_on generalizing stats with
  | empty => simp
  | cons s rest ih =>
    rw [Multiset.foldl_cons, ih, h, Multiset.map_cons, Multiset.sum_cons]
    omega

/-- The figure of the report is the one the memory limit is checked against. -/
theorem buildStats_estimatedMemoryBytes (entries : Entries) (config : StoreConfig) :
    (buildStats entries config).estimatedMemoryBytes =
      Storage.estimatedMemoryBytes entries :=
  foldl_add StoreStats.estimatedMemoryBytes
    (fun stats key entry => (stats.add_counts key entry).estimatedMemoryBytes) _ _

theorem buildStats_totalKeys (entries : Entries) (config : StoreConfig) :
    (buildStats entries config).totalKeys = size entries := by
  have hfold := foldl_add StoreStats.totalKeys (w := fun _ _ => 0)
    (fun stats key entry => (stats.add_counts key entry).totalKeys)
  rw [buildStats, hfold]
  simp

end AerugoCache.Storage
