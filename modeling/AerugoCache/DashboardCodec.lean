import AerugoCache.Dashboard
import AerugoCache.Fallible
import AerugoCache.RespRoundTrip

/-!
# The dashboard reads what the server writes

The text of the statistics is a list of lines, the fields among which are looked up by
name.  The rows are an array of six columns each.
-/

namespace AerugoCache.Dashboard

open AerugoCache.ByteText AerugoCache.KeyedMap AerugoCache.Protocol AerugoCache.Storage
open AerugoCache.Commands AerugoCache.TextLines

/-! ### The lines of the statistics -/

def keyspaceFields (stats : StoreStats) : List (String × String) := [
  ("total_keys", toString stats.totalKeys),
  ("string_keys", toString stats.stringKeys),
  ("list_keys", toString stats.listKeys),
  ("expiring_keys", toString stats.expiringKeys),
  ("list_items", toString stats.listItems)]

def maxMemoryText : Option Nat → String
  | none => "none"
  | some bytes => toString bytes

def memoryFields (stats : StoreStats) : List (String × String) := [
  ("key_bytes", toString stats.keyBytes),
  ("payload_bytes", toString stats.payloadBytes),
  ("estimated_memory_bytes", toString stats.estimatedMemoryBytes),
  ("max_memory_bytes", maxMemoryText stats.maxMemoryBytes),
  ("eviction_policy", stats.evictionPolicy.asStr)]

def counterFields (stats : StoreStats) : List (String × String) := [
  ("expired_keys_cleaned", toString stats.expiredKeysCleaned),
  ("evicted_keys", toString stats.evictedKeys),
  ("rejected_writes", toString stats.rejectedWrites)]

def fieldNames : List String := [
  "total_keys", "string_keys", "list_keys", "expiring_keys", "list_items", "key_bytes",
  "payload_bytes", "estimated_memory_bytes", "max_memory_bytes", "eviction_policy",
  "expired_keys_cleaned", "evicted_keys", "rejected_writes"]

def fieldLine (field : String × String) : String := field.1 ++ String.singleton ':' ++ field.2

def writtenFields (stats : StoreStats) : List (String × String) :=
  keyspaceFields stats ++ memoryFields stats ++ counterFields stats

theorem map_fst_writtenFields (stats : StoreStats) :
    (writtenFields stats).map Prod.fst = fieldNames := rfl

def statLines (stats : StoreStats) : List String :=
  "# Keyspace" :: (keyspaceFields stats).map fieldLine ++
    "" :: "# Memory" :: (memoryFields stats).map fieldLine ++
    "" :: "# Counters" :: (counterFields stats).map fieldLine

theorem formatStats_eq (stats : StoreStats) :
    formatStats stats = utf8 (writeLines (statLines stats)) := by
  unfold formatStats statLines keyspaceFields memoryFields counterFields
  apply congrArg utf8
  have htext : ∀ text : String, toString text = text := fun _ => rfl
  have hcolon : String.singleton ':' = ":" := rfl
  -- the literals of the source are cut where the lines and the names end
  cases stats.maxMemoryBytes
  all_goals
    simp only [writeLines, fieldLine, maxMemoryText, List.map_cons, List.map_nil, List.cons_append,
      List.nil_append, htext, hcolon, String.reduceAppend]
    simp only [String.append_assoc, String.append_empty, -String.reduceAppend]

theorem newline_notMem_natText (n : Nat) : '\n' ∉ (toString n).toList :=
  newline_notMem_toString (n : Int)

/-- No field breaks its line, and no name ends before its colon. -/
structure Plain (field : String × String) : Prop where
  colon : ':' ∉ field.1.toList
  newline : '\n' ∉ (fieldLine field).toList

theorem plain_writtenFields (stats : StoreStats) : ∀ field ∈ writtenFields stats, Plain field := by
  have hmax : '\n' ∉ (maxMemoryText stats.maxMemoryBytes).toList := by
    cases stats.maxMemoryBytes with
    | none => decide
    | some bytes => exact newline_notMem_natText bytes
  have hpolicy : '\n' ∉ stats.evictionPolicy.asStr.toList := by
    cases stats.evictionPolicy <;> decide
  have hvalues : ∀ field ∈ writtenFields stats, '\n' ∉ field.2.toList := by
    simp only [writtenFields, keyspaceFields, memoryFields, counterFields, List.forall_mem_append,
      List.forall_mem_cons, newline_notMem_natText, hmax, hpolicy]
    simp
  have hnames : ∀ name ∈ fieldNames, ':' ∉ name.toList ∧ '\n' ∉ name.toList := by decide
  intro field hfield
  have hname : field.1 ∈ fieldNames := by
    rw [← map_fst_writtenFields stats]
    exact List.mem_map_of_mem hfield
  obtain ⟨hcolon, hnewline⟩ := hnames field.1 hname
  constructor
  · exact hcolon
  · simp [fieldLine, hnewline, hvalues field hfield]

theorem lines_statLines (stats : StoreStats) :
    lines (writeLines (statLines stats)) = statLines stats := by
  obtain ⟨hrest, hcounters⟩ := List.forall_mem_append.mp (plain_writtenFields stats)
  obtain ⟨hkeyspace, hmemory⟩ := List.forall_mem_append.mp hrest
  apply lines_writeLines
  simp only [statLines, List.cons_append, List.forall_mem_cons, List.forall_mem_append,
    List.forall_mem_map]
  refine ⟨by decide, ⟨fun field hfield => (hkeyspace field hfield).newline, ?_⟩, ?_⟩
  · exact ⟨by decide, by decide, fun field hfield => (hmemory field hfield).newline⟩
  · exact ⟨by decide, by decide, fun field hfield => (hcounters field hfield).newline⟩

theorem filterMap_fieldLines {fields : List (String × String)}
    (h : ∀ field ∈ fields, Plain field) :
    (fields.map fieldLine).filterMap (splitOnce ':') = fields := by
  induction fields with
  | nil => rfl
  | cons field fields ih =>
    have hfield : splitOnce ':' (fieldLine field) = some field :=
      splitOnce_field (h field List.mem_cons_self).colon field.2
    have hrest := ih fun other hother => h other (List.mem_cons_of_mem _ hother)
    rw [List.map_cons, List.filterMap_cons_some hfield, hrest]

/-- The titles and the blank lines are no fields. -/
theorem filterMap_statLines (stats : StoreStats) :
    (statLines stats).filterMap (splitOnce ':') = writtenFields stats := by
  obtain ⟨hrest, hcounters⟩ := List.forall_mem_append.mp (plain_writtenFields stats)
  obtain ⟨hkeyspace, hmemory⟩ := List.forall_mem_append.mp hrest
  have htitle : ∀ {line : String}, ':' ∉ line.toList → ∀ rest,
      (line :: rest).filterMap (splitOnce ':') = rest.filterMap (splitOnce ':') :=
    fun hline rest => List.filterMap_cons_none (splitOnce_eq_none hline)
  rw [statLines, List.filterMap_append, List.filterMap_append, htitle (by decide),
    htitle (by decide), htitle (by decide), htitle (by decide), htitle (by decide),
    filterMap_fieldLines hkeyspace, filterMap_fieldLines hmemory, filterMap_fieldLines hcounters]
  rfl

theorem lookup_statFields {stats : StoreStats} {name value : String}
    (h : (name, value) ∈ writtenFields stats) :
    (statFields (writeLines (statLines stats))).lookup name = some value := by
  rw [statFields, lines_statLines, filterMap_statLines]
  apply lookup_collect _ h
  rw [map_fst_writtenFields]
  decide

/-! ### The statistics -/

/-- The fields that are always a number, of the type `usize` or `u64`. -/
def numberFields (stats : StoreStats) : List (String × Nat) := [
  ("total_keys", stats.totalKeys),
  ("string_keys", stats.stringKeys),
  ("list_keys", stats.listKeys),
  ("expiring_keys", stats.expiringKeys),
  ("list_items", stats.listItems),
  ("key_bytes", stats.keyBytes),
  ("payload_bytes", stats.payloadBytes),
  ("estimated_memory_bytes", stats.estimatedMemoryBytes),
  ("expired_keys_cleaned", stats.expiredKeysCleaned),
  ("evicted_keys", stats.evictedKeys),
  ("rejected_writes", stats.rejectedWrites)]

def figures (stats : StoreStats) : List Nat :=
  (numberFields stats).map Prod.snd ++ stats.maxMemoryBytes.toList

/-- The figures are values of their types. -/
def WordSized (stats : StoreStats) : Prop := ∀ figure ∈ figures stats, figure < 2 ^ 64

instance (stats : StoreStats) : Decidable (WordSized stats) :=
  inferInstanceAs (Decidable (∀ figure ∈ figures stats, figure < 2 ^ 64))

/-- What the dashboard is to show of a report. -/
def DashboardStats.of (stats : StoreStats) : DashboardStats where
  totalKeys := stats.totalKeys
  stringKeys := stats.stringKeys
  listKeys := stats.listKeys
  expiringKeys := stats.expiringKeys
  listItems := stats.listItems
  keyBytes := stats.keyBytes
  payloadBytes := stats.payloadBytes
  estimatedMemoryBytes := stats.estimatedMemoryBytes
  maxMemoryBytes := stats.maxMemoryBytes
  evictionPolicy := stats.evictionPolicy.asStr
  expiredKeysCleaned := stats.expiredKeysCleaned
  evictedKeys := stats.evictedKeys
  rejectedWrites := stats.rejectedWrites

section Fields

variable {fields : HashMap String String} {name : String}

theorem parseStatString_ok {value : String} (h : fields.lookup name = some value) :
    parseStatString fields name = .ok value := by
  rw [parseStatString, h]

theorem parseStatNumber_ok {n : Nat} (h : fields.lookup name = some (toString n))
    (hn : n < 2 ^ 64) (kind : String) : parseStatNumber kind fields name = .ok n := by
  rw [parseStatNumber, parseStatString_ok h]
  simp only [bind, Except.bind, parseUnsigned_toString hn]

theorem natText_ne_none (n : Nat) : toString n ≠ "none" := by
  intro heq
  have hparse := parseUnsigned_toString (Nat.lt_add_one n)
  have hnone : parseUnsigned (n + 1) "none" = none :=
    parseUnsigned_eq_none (c := 'n') (by decide) (by decide) (by decide)
  rw [heq, hnone] at hparse
  cases hparse

/-- A limit is printed as a number, and no number as the text for no limit. -/
theorem parseStatOptionalUsize_ok {limit : Option Nat}
    (h : fields.lookup name = some (maxMemoryText limit)) (hn : ∀ n ∈ limit, n < 2 ^ 64) :
    parseStatOptionalUsize fields name = .ok limit := by
  rw [parseStatOptionalUsize, parseStatString_ok h]
  cases limit with
  | none => rfl
  | some n =>
    have hparse := parseUnsigned_toString (hn n rfl)
    simp only [bind, Except.bind, maxMemoryText, natText_ne_none, if_false, hparse]

end Fields

theorem numberFields_written (stats : StoreStats) :
    ∀ field ∈ numberFields stats, (field.1, toString field.2) ∈ writtenFields stats := by
  simp [numberFields, writtenFields, keyspaceFields, memoryFields, counterFields]

theorem parseStatNumber_written {stats : StoreStats} (h : WordSized stats) :
    ∀ field ∈ numberFields stats, ∀ kind,
      parseStatNumber kind (statFields (writeLines (statLines stats))) field.1 = .ok field.2 := by
  intro field hfield
  apply parseStatNumber_ok
  · exact lookup_statFields (numberFields_written stats field hfield)
  · exact h field.2 (List.mem_append_left _ (List.mem_map_of_mem hfield))

theorem parseStats_formatStats {stats : StoreStats} (h : WordSized stats) :
    parseStats (.bulk (formatStats stats)) = .ok (DashboardStats.of stats) := by
  have hnumbers := parseStatNumber_written h
  have hmax : parseStatOptionalUsize (statFields (writeLines (statLines stats)))
      "max_memory_bytes" = .ok stats.maxMemoryBytes := by
    apply parseStatOptionalUsize_ok
    · exact lookup_statFields (by simp [writtenFields, memoryFields])
    · intro n hn
      exact h n (List.mem_append_right _ (Option.mem_toList.mpr hn))
  have hpolicy : parseStatString (statFields (writeLines (statLines stats))) "eviction_policy" =
      .ok stats.evictionPolicy.asStr :=
    parseStatString_ok (lookup_statFields (by simp [writtenFields, memoryFields]))
  simp only [numberFields, List.forall_mem_cons] at hnumbers
  obtain ⟨htotal, hstring, hlist, hexpiring, hitems, hkey, hpayload, hestimated, hcleaned,
    hevicted, hrejected, -⟩ := hnumbers
  simp only [parseStats, formatStats_eq, fromUtf8_utf8, parseStatUsize, parseStatU64, bind,
    Except.bind, pure, Except.pure]
  rw [htotal, hstring, hlist, hexpiring, hitems, hkey, hpayload, hestimated, hmax, hpolicy,
    hcleaned, hevicted, hrejected]
  rfl

/-! ### The rows -/

/-- What the dashboard is to show of a row. -/
def KeyRow.of (row : KeyInspection) : KeyRow where
  key := row.key
  valueType := row.valueType
  ttlSeconds := row.ttlSeconds
  payloadBytes := row.payloadBytes
  estimatedMemoryBytes := row.estimatedMemoryBytes
  listItems := row.listItems

/-- The sizes of a row are at most `i64::MAX`. -/
structure Measured (row : KeyInspection) : Prop where
  payloadBytes : row.payloadBytes < 2 ^ 63
  estimatedMemoryBytes : row.estimatedMemoryBytes < 2 ^ 63
  listItems : row.listItems < 2 ^ 63

theorem frameToString_bulk (value : String) : frameToString (Commands.bulk value) = .ok value := by
  simp only [frameToString, Commands.bulk, fromUtf8_utf8]

theorem frameToUsize_integer {n : Nat} (h : n < 2 ^ 63) :
    frameToUsize (Commands.integer n) = .ok n := by
  have hmin : min n (2 ^ 63 - 1) = n := by omega
  have hint : (Int64.ofNat n).toInt = n := Int64.toInt_ofNat_of_lt h
  have hpos : ¬ ((n : Int) < 0) := by omega
  simp only [frameToUsize, Commands.integer, frameToI64, hmin, bind, Except.bind, hint, hpos,
    if_false, Int.toNat_natCast]

theorem parseKeyRow_inspectionToFrame {row : KeyInspection} (h : Measured row) :
    parseKeyRow (inspectionToFrame row) = .ok (KeyRow.of row) := by
  simp only [parseKeyRow, inspectionToFrame, frameToString_bulk, frameToUsize_integer h.payloadBytes,
    frameToUsize_integer h.estimatedMemoryBytes, frameToUsize_integer h.listItems, frameToI64, bind,
    Except.bind]
  rfl

/-- The reply to `AERUGO.INSPECT`. -/
def rowsFrame (rows : List KeyInspection) : Frame := .array (rows.map inspectionToFrame)

theorem parseKeys_rowsFrame {rows : List KeyInspection} (h : ∀ row ∈ rows, Measured row) :
    parseKeys (rowsFrame rows) = .ok (rows.map KeyRow.of) :=
  Fallible.mapM_map_ok fun row hrow => parseKeyRow_inspectionToFrame (h row hrow)

/-- In the reply there are bulks and integers only. -/
theorem mem_subframes_rowsFrame {rows : List KeyInspection} {sub : Frame}
    (h : sub ∈ (rowsFrame rows).subframes) :
    (∃ items, sub = .array items) ∨ (∃ value, sub = .bulk value) ∨ ∃ n, sub = .integer n := by
  rcases Frame.mem_subframes_array.mp h with rfl | ⟨item, hitem, hsub⟩
  · exact Or.inl ⟨_, rfl⟩
  · obtain ⟨row, -, rfl⟩ := List.mem_map.mp hitem
    rcases Frame.mem_subframes_array.mp hsub with rfl | ⟨column, hcolumn, hmem⟩
    · exact Or.inl ⟨_, rfl⟩
    · have hkind : (∃ value, column = .bulk value) ∨ ∃ n, column = .integer n := by
        simp only [List.mem_cons, List.not_mem_nil, or_false] at hcolumn
        rcases hcolumn with rfl | rfl | rfl | rfl | rfl | rfl
        · exact Or.inl ⟨_, rfl⟩
        · exact Or.inl ⟨_, rfl⟩
        · exact Or.inr ⟨_, rfl⟩
        · exact Or.inr ⟨_, rfl⟩
        · exact Or.inr ⟨_, rfl⟩
        · exact Or.inr ⟨_, rfl⟩
      rcases hkind with ⟨value, rfl⟩ | ⟨n, rfl⟩
      · exact Or.inr (Or.inl ⟨value, List.mem_singleton.mp hmem⟩)
      · exact Or.inr (Or.inr ⟨n, List.mem_singleton.mp hmem⟩)

theorem rowsFrame_readable (rows : List KeyInspection) : (rowsFrame rows).Readable := by
  constructor
  · intro text hmem
    rcases mem_subframes_rowsFrame hmem with ⟨_, h⟩ | ⟨_, h⟩ | ⟨_, h⟩ <;> cases h
  · intro text hmem
    rcases mem_subframes_rowsFrame hmem with ⟨_, h⟩ | ⟨_, h⟩ | ⟨_, h⟩ <;> cases h

/-- **The dashboard decodes what the server encodes.**  The statistics are read back field
    by field, and the rows from the wire one by one. -/
theorem dashboard_decodes (stats : StoreStats) (hstats : WordSized stats)
    (rows : List KeyInspection) (hrows : ∀ row ∈ rows, Measured row) (heap : Allocator)
    (hfits : (rowsFrame rows).Fits heap) :
    parseStats (.bulk (formatStats stats)) = .ok (DashboardStats.of stats) ∧
      ∃ frame, readFrame heap (writeFrame (rowsFrame rows)) = .ok (some frame, []) ∧
        parseKeys frame = .ok (rows.map KeyRow.of) := by
  refine ⟨parseStats_formatStats hstats, rowsFrame rows, ?_, parseKeys_rowsFrame hrows⟩
  have hread := readFrame_writeFrame (rowsFrame_readable rows) hfits []
  rwa [List.append_nil] at hread

def eventsStats : StoreStats where
  totalKeys := 1
  stringKeys := 0
  listKeys := 1
  expiringKeys := 0
  keyBytes := 6
  payloadBytes := 12
  estimatedMemoryBytes := 154
  listItems := 3
  maxMemoryBytes := some 4096
  evictionPolicy := .allKeysRandom
  expiredKeysCleaned := 2
  evictedKeys := 1
  rejectedWrites := 0

def eventsRow : KeyInspection := ⟨"events", "list", -1, 12, 154, 3⟩

theorem dashboard_decodes_events :
    parseStats (.bulk (formatStats eventsStats)) = .ok (DashboardStats.of eventsStats) ∧
      ∃ frame, readFrame .unlimited (writeFrame (rowsFrame [eventsRow])) = .ok (some frame, []) ∧
        parseKeys frame = .ok ([eventsRow].map KeyRow.of) := by
  apply dashboard_decodes eventsStats (by decide)
  · intro row hrow
    rw [List.mem_singleton.mp hrow]
    exact ⟨by decide, by decide, by decide⟩
  · intro sub hsub
    simp only [rowsFrame, List.map_cons, List.map_nil, inspectionToFrame, Commands.bulk,
      Commands.integer, Frame.subframes, subframesOf, List.cons_append, List.nil_append,
      List.append_nil, List.mem_cons, List.not_mem_nil, or_false] at hsub
    rcases hsub with rfl | rfl | rfl | rfl | rfl | rfl | rfl | rfl <;> simp only [Frame.Held] <;>
      decide

end AerugoCache.Dashboard
