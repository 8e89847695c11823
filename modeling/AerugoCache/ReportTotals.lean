import AerugoCache.LazyExpiration

/-!
# Totals of the reports

The memory limit, `stats`, `inspect_keys` and `ttl` go over the entries each in a loop of
its own.  The loops agree: the figures of the statistics are sums over the entries that
have not expired, the rows are those of the first of these keys, and the rows of all the
keys sum to the figures.
-/

namespace AerugoCache.Storage

open AerugoCache.ByteText AerugoCache.KeyedMap

/-! ### Statistics as sums -/

theorem sum_map_add_const (list : List Bytes) (n : Nat) :
    (list.map fun value => value.length + n).sum =
      (list.map List.length).sum + n * list.length := by
  induction list with
  | nil => rfl
  | cons value list ih =>
    simp only [List.map_cons, List.sum_cons, List.length_cons, ih, Nat.mul_add]
    omega

/-- An entry weighs its overhead, its key, its payload, and an overhead for every item. -/
theorem entryEstimatedMemoryBytes_eq (key : String) (entry : Entry) :
    entryEstimatedMemoryBytes key entry =
      64 + key.utf8ByteSize + entry.value.payloadBytes + 24 * entry.value.listItems := by
  rcases entry with ⟨_ | list, expiresAt⟩
  · rfl
  · simp only [entryEstimatedMemoryBytes, Value.estimatedMemoryBytes, Value.payloadBytes,
      Value.listItems, ENTRY_OVERHEAD_BYTES, LIST_ITEM_OVERHEAD_BYTES, sum_map_add_const]
    omega

theorem estimatedMemoryBytes_eq (entries : Entries) :
    estimatedMemoryBytes entries =
      64 * size entries + weigh (fun key _ => key.utf8ByteSize) entries +
        weigh (fun _ entry => entry.value.payloadBytes) entries +
        24 * weigh (fun _ entry => entry.value.listItems) entries := by
  have hentry : entryEstimatedMemoryBytes = fun key entry =>
      64 + key.utf8ByteSize + entry.value.payloadBytes + 24 * entry.value.listItems := by
    funext key entry
    exact entryEstimatedMemoryBytes_eq key entry
  rw [estimatedMemoryBytes, hentry, weigh_add, weigh_add, weigh_add, weigh_const, weigh_mul]

theorem buildStats_typedKeys (entries : Entries) (config : StoreConfig) :
    (buildStats entries config).stringKeys + (buildStats entries config).listKeys =
      size entries := by
  have hadd : ∀ (stats : StoreStats) (key : String) (entry : Entry),
      (stats.add key entry).stringKeys + (stats.add key entry).listKeys =
        1 + (stats.stringKeys + stats.listKeys) :=
    fun stats key entry => (stats.add_counts key entry).typedKeys
  have hone := weigh_const 1 entries
  rw [Nat.one_mul] at hone
  rw [← hone]
  exact foldl_add (fun stats => stats.stringKeys + stats.listKeys) hadd _ _

theorem buildStats_keyBytes (entries : Entries) (config : StoreConfig) :
    (buildStats entries config).keyBytes = weigh (fun key _ => key.utf8ByteSize) entries :=
  foldl_add StoreStats.keyBytes
    (fun stats key entry => (stats.add_counts key entry).keyBytes) _ _

theorem buildStats_payloadBytes (entries : Entries) (config : StoreConfig) :
    (buildStats entries config).payloadBytes =
      weigh (fun _ entry => entry.value.payloadBytes) entries :=
  foldl_add StoreStats.payloadBytes
    (fun stats key entry => (stats.add_counts key entry).payloadBytes) _ _

theorem buildStats_listItems (entries : Entries) (config : StoreConfig) :
    (buildStats entries config).listItems =
      weigh (fun _ entry => entry.value.listItems) entries :=
  foldl_add StoreStats.listItems
    (fun stats key entry => (stats.add_counts key entry).listItems) _ _

/-- The figures of a report on `entries`. -/
structure StoreStats.Totals (stats : StoreStats) (entries : Entries) : Prop where
  counted : stats.totalKeys = size entries
  typed : stats.stringKeys + stats.listKeys = stats.totalKeys
  limited : stats.estimatedMemoryBytes = Storage.estimatedMemoryBytes entries
  itemised : stats.estimatedMemoryBytes =
    64 * stats.totalKeys + stats.keyBytes + stats.payloadBytes + 24 * stats.listItems

theorem MemoryStore.stats_figures (store : MemoryStore) (now : SystemTime) :
    (store.stats now).1.Totals (retainUnexpired store.entries now) where
  counted := buildStats_totalKeys _ _
  typed := (buildStats_typedKeys _ _).trans (buildStats_totalKeys _ _).symm
  limited := buildStats_estimatedMemoryBytes _ _
  itemised := by
    change (buildStats (retainUnexpired store.entries now) store.config).estimatedMemoryBytes =
      64 * (buildStats (retainUnexpired store.entries now) store.config).totalKeys +
        (buildStats (retainUnexpired store.entries now) store.config).keyBytes +
        (buildStats (retainUnexpired store.entries now) store.config).payloadBytes +
        24 * (buildStats (retainUnexpired store.entries now) store.config).listItems
    rw [buildStats_estimatedMemoryBytes, buildStats_totalKeys, buildStats_keyBytes,
      buildStats_payloadBytes, buildStats_listItems]
    exact estimatedMemoryBytes_eq _

/-! ### Rows -/

theorem coe_inspectRows (order : KeyOrder) (entries : Entries) (now : SystemTime) :
    (inspectRows order entries now : Multiset KeyInspection) =
      entries.entries.map fun s => inspectEntry now s.1 s.2 :=
  filterMap_keys (order.enumerates entries) (inspectEntry now)

theorem length_inspectRows (order : KeyOrder) (entries : Entries) (now : SystemTime) :
    (inspectRows order entries now).length = size entries := by
  have hcard := congrArg Multiset.card (coe_inspectRows order entries now)
  rwa [Multiset.coe_card, Multiset.card_map] at hcard

/-- Of all the rows, a column sums to the weight of the entries. -/
theorem sum_inspectRows (order : KeyOrder) (entries : Entries) (now : SystemTime)
    (column : KeyInspection → Nat) :
    ((inspectRows order entries now).map column).sum =
      weigh (fun key entry => column (inspectEntry now key entry)) entries := by
  have hsum := congrArg (fun rows => (rows.map column).sum) (coe_inspectRows order entries now)
  simp only [Multiset.map_coe, Multiset.sum_coe, Multiset.map_map] at hsum
  exact hsum

theorem mem_inspectRows {order : KeyOrder} {entries : Entries} {now : SystemTime}
    {row : KeyInspection} :
    row ∈ inspectRows order entries now ↔
      ∃ entry, entries.lookup row.key = some entry ∧ row = inspectEntry now row.key entry := by
  rw [inspectRows, List.mem_filterMap]
  constructor
  · rintro ⟨key, -, hrow⟩
    obtain ⟨entry, hentry, rfl⟩ := Option.map_eq_some_iff.mp hrow
    exact ⟨entry, hentry, rfl⟩
  · rintro ⟨entry, hentry, hrow⟩
    have hmem : row.key ∈ order.keys entries :=
      (order.mem_keys entries row.key).mpr (Finmap.mem_of_lookup_eq_some hentry)
    exact ⟨row.key, hmem, by rw [hentry, Option.map_some, ← hrow]⟩

theorem nodup_keys_inspectRows (order : KeyOrder) (entries : Entries) (now : SystemTime) :
    ((inspectRows order entries now).map KeyInspection.key).Nodup := by
  have hkeys : ((inspectRows order entries now).map KeyInspection.key : Multiset String) =
      entries.keys.val := by
    rw [← Multiset.map_coe, coe_inspectRows, Multiset.map_map]
    rfl
  rw [← Multiset.coe_nodup, hkeys]
  exact entries.keys.nodup

/-! ### Their order -/

instance : Std.Total KeyInspection.Le :=
  ⟨fun left right => List.le_total (utf8 left.key) (utf8 right.key)⟩

instance : IsTrans KeyInspection KeyInspection.Le :=
  ⟨fun _ _ _ => List.le_trans⟩

/-- Rows in order are in strict order, since their keys differ. -/
theorem pairwise_sorted {rows : List KeyInspection}
    (hkeys : (rows.map KeyInspection.key).Nodup) :
    (rows.insertionSort KeyInspection.Le).Pairwise
      fun left right => utf8 left.key < utf8 right.key := by
  have hperm := List.perm_insertionSort KeyInspection.Le rows
  have hnodup : ((rows.insertionSort KeyInspection.Le).map KeyInspection.key).Nodup :=
    (hperm.map _).nodup_iff.mpr hkeys
  have hsorted := List.pairwise_insertionSort KeyInspection.Le rows
  have hne := List.pairwise_map.mp hnodup
  refine (hsorted.and hne).imp ?_
  rintro left right ⟨hle, hkey⟩
  exact Std.lt_of_le_of_ne hle fun heq => hkey (utf8_injective heq)

/-- In a list in strict order, what is not among the first comes after them. -/
theorem lt_of_mem_take {rows : List KeyInspection}
    (hrows : rows.Pairwise fun left right => utf8 left.key < utf8 right.key) {n : Nat}
    {row other : KeyInspection} (hrow : row ∈ rows.take n) (hother : other ∈ rows)
    (hnot : other ∉ rows.take n) : utf8 row.key < utf8 other.key := by
  rw [← List.take_append_drop n rows] at hrows hother
  have hdrop := (List.mem_append.mp hother).resolve_left hnot
  exact (List.pairwise_append.mp hrows).2.2 row hrow other hdrop

/-- The time to live of a row is the reply to `ttl`. -/
theorem entryTtlSeconds_eq {now : SystemTime} {entry : Entry} (h : entry.isExpired now = false) :
    entryTtlSeconds entry now = (EagerStore.remaining now (some entry)).asRedisInteger := by
  rcases entry with ⟨value, _ | deadline⟩
  · rfl
  · have hlater : now ≤ deadline := by
      have hlive : ¬ deadline ≤ now := by simpa [Entry.isExpired] using h
      exact Int.le_of_lt (Int.not_le.mp hlive)
    simp [entryTtlSeconds, EagerStore.remaining, durationSince, hlater, Ttl.asRedisInteger]

/-! ### The reports together -/

/-- `rows` are on the first `count` of the keys that have not expired. -/
structure MemoryStore.FirstRows (store : MemoryStore) (now : SystemTime) (count : Nat)
    (rows : List KeyInspection) : Prop where
  length : rows.length = count
  ascending : rows.Pairwise fun left right => utf8 left.key < utf8 right.key
  shown : ∀ row ∈ rows, ∃ entry, visible now (store.entries.lookup row.key) = some entry ∧
    row = inspectEntry now row.key entry
  first : ∀ row ∈ rows, ∀ key, (visible now (store.entries.lookup key)).isSome →
    key ∉ rows.map KeyInspection.key → utf8 row.key < utf8 key
  timed : ∀ row ∈ rows, row.ttlSeconds = (store.ttl now row.key).1.asRedisInteger

/-- The columns of the rows sum to the figures. -/
structure StoreStats.SumOf (stats : StoreStats) (rows : List KeyInspection) : Prop where
  payloadBytes : (rows.map KeyInspection.payloadBytes).sum = stats.payloadBytes
  estimatedMemoryBytes :
    (rows.map KeyInspection.estimatedMemoryBytes).sum = stats.estimatedMemoryBytes
  listItems : (rows.map KeyInspection.listItems).sum = stats.listItems

namespace MemoryStore

variable (store : MemoryStore) (order : KeyOrder) (now : SystemTime) (limit : Nat)

/-- The rows of all the keys, in order. -/
def sortedRows : List KeyInspection :=
  (inspectRows order (retainUnexpired store.entries now) now).insertionSort KeyInspection.Le

/-- No rows are the first `0` rows. -/
theorem inspectKeys_eq :
    (store.inspectKeys order now limit).1 = (store.sortedRows order now).take limit := by
  rw [inspectKeys]
  split
  · rename_i hzero
    rw [hzero]
    rfl
  · rfl

theorem mem_sortedRows {row : KeyInspection} :
    row ∈ store.sortedRows order now ↔
      ∃ entry, visible now (store.entries.lookup row.key) = some entry ∧
        row = inspectEntry now row.key entry := by
  rw [sortedRows, List.mem_insertionSort, mem_inspectRows, lookup_retainUnexpired]

theorem length_sortedRows :
    (store.sortedRows order now).length = (store.stats now).1.totalKeys := by
  rw [sortedRows, List.length_insertionSort, length_inspectRows, (store.stats_figures now).counted]

theorem sum_sortedRows (column : KeyInspection → Nat) :
    ((store.sortedRows order now).map column).sum =
      weigh (fun key entry => column (inspectEntry now key entry))
        (retainUnexpired store.entries now) := by
  rw [← sum_inspectRows order]
  exact ((List.perm_insertionSort KeyInspection.Le _).map column).sum_eq

theorem inspectKeys_first :
    store.FirstRows now (min limit (store.stats now).1.totalKeys)
      (store.inspectKeys order now limit).1 := by
  have hsorted := pairwise_sorted (nodup_keys_inspectRows order
    (retainUnexpired store.entries now) now)
  have hmem : ∀ row ∈ (store.inspectKeys order now limit).1,
      row ∈ store.sortedRows order now := by
    intro row hrow
    rw [inspectKeys_eq] at hrow
    exact List.mem_of_mem_take hrow
  constructor
  · rw [inspectKeys_eq, List.length_take, length_sortedRows]
  · rw [inspectKeys_eq]
    exact hsorted.sublist (List.take_sublist _ _)
  · intro row hrow
    exact (store.mem_sortedRows order now).mp (hmem row hrow)
  · intro row hrow key hkey hnot
    rw [inspectKeys_eq] at hrow hnot
    obtain ⟨entry, hentry⟩ := Option.isSome_iff_exists.mp hkey
    have hother : inspectEntry now key entry ∈ store.sortedRows order now :=
      (store.mem_sortedRows order now).mpr ⟨entry, hentry, rfl⟩
    exact lt_of_mem_take hsorted hrow hother fun htake =>
      hnot (List.mem_map.mpr ⟨_, htake, rfl⟩)
  · intro row hrow
    obtain ⟨entry, hentry, heq⟩ := (store.mem_sortedRows order now).mp (hmem row hrow)
    rw [ttl_result, hentry, heq]
    exact entryTtlSeconds_eq (visible_eq_some.mp hentry).2

/-- All the rows sum to the statistics. -/
theorem inspectKeys_sum (h : (store.stats now).1.totalKeys ≤ limit) :
    (store.stats now).1.SumOf (store.inspectKeys order now limit).1 := by
  have hall : (store.inspectKeys order now limit).1 = store.sortedRows order now := by
    rw [inspectKeys_eq, List.take_of_length_le]
    rw [length_sortedRows]
    exact h
  rw [hall]
  constructor
  · rw [sum_sortedRows]
    exact (buildStats_payloadBytes _ _).symm
  · rw [sum_sortedRows]
    exact (buildStats_estimatedMemoryBytes _ _).symm
  · rw [sum_sortedRows]
    exact (buildStats_listItems _ _).symm

end MemoryStore

/-- **The reports agree.**  At one reading of the clock the statistics count the entries
    that have not expired by type and weigh them as the memory limit does, the rows are on
    the first of these keys with their times to live, and the rows of all of them sum to
    the statistics. -/
theorem reports_agree (store : MemoryStore) (order : KeyOrder) (now : SystemTime) (limit : Nat) :
    (store.stats now).1.Totals (retainUnexpired store.entries now) ∧
      store.FirstRows now (min limit (store.stats now).1.totalKeys)
        (store.inspectKeys order now limit).1 ∧
      ((store.stats now).1.totalKeys ≤ limit →
        (store.stats now).1.SumOf (store.inspectKeys order now limit).1) := by
  refine ⟨store.stats_figures now, store.inspectKeys_first order now limit, ?_⟩
  exact store.inspectKeys_sum order now limit

end AerugoCache.Storage
