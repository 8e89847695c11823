import AerugoCache.StoreRun

/-!
# A store that expires eagerly

What a store without a memory limit is for, said without lazy expiration: an entry is
gone at the instant its deadline is reached.  Time passes between the operations, and
`EagerStore.advance` drops what falls due; an operation then finds live entries only and
never looks at a deadline except to report or to change it.
-/

namespace AerugoCache.Storage

open AerugoCache.ByteText AerugoCache.KeyedMap

/-- The state of the eager store: the map, and what its reports repeat. -/
@[ext] structure EagerStore where
  entries : Entries
  config : StoreConfig
  evictedKeys : Nat
  rejectedWrites : Nat

/-- The store with the entries and the counters of a `MemoryStore`. -/
def EagerStore.of (store : MemoryStore) : EagerStore where
  entries := store.entries
  config := store.config
  evictedKeys := store.counters.evictedKeys
  rejectedWrites := store.counters.rejectedWrites

/-- The entry is there until its deadline. -/
def Entry.LivesAfter (now : SystemTime) (entry : Entry) : Prop :=
  ∀ deadline, entry.expiresAt = some deadline → now < deadline

instance (now : SystemTime) (entry : Entry) : Decidable (entry.LivesAfter now) :=
  match h : entry.expiresAt with
  | none => isTrue (by simp [Entry.LivesAfter, h])
  | some deadline => decidable_of_iff (now < deadline) (by simp [Entry.LivesAfter, h])

namespace EagerStore

/-- Time passes: every entry whose deadline is reached goes. -/
def advance (now : SystemTime) (store : EagerStore) : EagerStore :=
  { store with entries := retain (fun _ entry => decide (entry.LivesAfter now)) store.entries }

def put (store : EagerStore) (key : String) (cell : Option Entry) : EagerStore :=
  { store with entries := assign store.entries key cell }

/-- The items of a list; a missing key is an empty list. -/
def items : Option Entry → Except StoreError (List Bytes)
  | none => .ok []
  | some ⟨.list list, _⟩ => .ok list
  | some ⟨.string _, _⟩ => .error .wrongType

def bytes : Option Entry → Except StoreError (Option Bytes)
  | none => .ok none
  | some ⟨.string value, _⟩ => .ok (some value)
  | some ⟨.list _, _⟩ => .error .wrongType

def remaining (now : SystemTime) : Option Entry → Ttl
  | none => .missing
  | some ⟨_, none⟩ => .noExpiration
  | some ⟨_, some deadline⟩ => .seconds ((deadline - now).toNat / NANOS_PER_SEC)

/-- The part of a list between two positions, counted from the end if they are negative. -/
def slice (start stop : Int64) (list : List Bytes) : List Bytes :=
  match normalizeRange list.length start stop with
  | none => []
  | some (start, stop) => (list.drop start).take (stop - start + 1)

/-- `0` and `-1` are the first and the last item. -/
theorem slice_all (list : List Bytes) : slice 0 (-1) list = list := by
  have hrange : ∀ len : Nat, normalizeRange (len + 1) 0 (-1) = some (0, len) := by
    intro len
    have hstart : (0 : Int64).toInt = 0 := by decide
    have hstop : (-1 : Int64).toInt = -1 := by decide
    have hlast : ((len + 1 : Nat) : Int) + -1 = len := by omega
    unfold normalizeRange
    simp only [hstart, hstop, hlast, Nat.succ_ne_zero, if_false, Int.lt_irrefl]
    simp
  cases list with
  | nil => rfl
  | cons item list => simp [slice, hrange]

/-- A deadline is set, and reached at once if it is in the past. -/
def date (store : EagerStore) (now : SystemTime) (key : String) (deadline : SystemTime) :
    Bool × EagerStore :=
  ((store.entries.lookup key).isSome,
    (store.put key ((store.entries.lookup key).map fun entry =>
      { entry with expiresAt := some deadline })).advance now)

def push (store : EagerStore) (side : Side) (key : String) (values : List Bytes) :
    Except StoreError Nat × EagerStore :=
  let cell := store.entries.lookup key
  match items cell with
  | .error error => (.error error, store)
  | .ok list =>
      let list := values.foldl (pushValue side) list
      (.ok list.length, store.put key (some ⟨.list list, cell.bind Entry.expiresAt⟩))

/-- A list that is emptied goes. -/
def pop (store : EagerStore) (side : Side) (key : String) :
    Except StoreError (Option Bytes) × EagerStore :=
  match store.entries.lookup key with
  | none => (.ok none, store)
  | some ⟨.string _, _⟩ => (.error .wrongType, store)
  | some ⟨.list list, expiresAt⟩ =>
      let (value, list) := popValue side list
      (.ok value, store.put key (if list = [] then none else some ⟨.list list, expiresAt⟩))

/-- The eager store has nothing to clean. -/
def report (store : EagerStore) : StoreStats :=
  { buildStats store.entries store.config with
    expiredKeysCleaned := 0
    evictedKeys := store.evictedKeys
    rejectedWrites := store.rejectedWrites }

/-- An operation on live entries. -/
def run (op : StoreOp) (env : OpEnv) (store : EagerStore) : StoreResult × EagerStore :=
  match op with
  | .set key value =>
      (.written (.ok ()), store.put key (some { value := .string value, expiresAt := none }))
  | .get key => (.value (bytes (store.entries.lookup key)), store)
  | .del keys =>
      (.count (keys.toFinset.filter (· ∈ store.entries)).card,
        { store with entries := keys.foldl (fun entries key => entries.erase key) store.entries })
  | .exists keys => (.count (keys.countP (· ∈ store.entries)), store)
  | .expire key seconds =>
      (store.date env.now key (MemoryStore.expireDeadline env.expireNow seconds)).map .done id
  | .expireAtUnix key unixSeconds =>
      (store.date env.now key (MemoryStore.unixDeadline env.expireNow unixSeconds)).map .done id
  | .ttl key => (.ttl (remaining env.now (store.entries.lookup key)), store)
  | .persist key =>
      let cell := store.entries.lookup key
      (.done (cell.any fun entry => entry.expiresAt.isSome),
        store.put key (cell.map fun entry => { entry with expiresAt := none }))
  | .cleanupExpired => (.count 0, store)
  | .lpush key values => (store.push .left key values).map .length id
  | .rpush key values => (store.push .right key values).map .length id
  | .lpop key => (store.pop .left key).map .value id
  | .rpop key => (store.pop .right key).map .value id
  | .lrange key start stop =>
      (.values ((items (store.entries.lookup key)).map (slice start stop)), store)
  | .stats => (.stats store.report, store)
  | .inspectKeys limit =>
      (.rows (((inspectRows env.order store.entries env.now).insertionSort
        KeyInspection.Le).take limit), store)

/-- Time passes up to the reading of the operation, and the operation runs. -/
def step (op : StoreOp) (env : OpEnv) (store : EagerStore) : StoreResult × EagerStore :=
  run op env (store.advance env.now)

end EagerStore

end AerugoCache.Storage
