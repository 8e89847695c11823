import AerugoCache.Client
import AerugoCache.KeyedMap
import AerugoCache.TextLines

/-!
# The dashboard

What `tui.rs` makes of the replies to `AERUGO.STATS` and `AERUGO.INSPECT`, and how it asks
for them.
-/

namespace AerugoCache.Dashboard

open AerugoCache.ByteText AerugoCache.KeyedMap AerugoCache.Protocol AerugoCache.TextLines
  AerugoCache.Client

/-- The errors of the two parsers. -/
inductive DashboardError where
  | invalidStats (message : String)
  | invalidInspect (message : String)
deriving DecidableEq, Repr

structure DashboardStats where
  totalKeys : Nat
  stringKeys : Nat
  listKeys : Nat
  expiringKeys : Nat
  listItems : Nat
  keyBytes : Nat
  payloadBytes : Nat
  estimatedMemoryBytes : Nat
  maxMemoryBytes : Option Nat
  evictionPolicy : String
  expiredKeysCleaned : Nat
  evictedKeys : Nat
  rejectedWrites : Nat
deriving DecidableEq, Repr

structure KeyRow where
  key : String
  valueType : String
  ttlSeconds : Int64
  payloadBytes : Nat
  estimatedMemoryBytes : Nat
  listItems : Nat
deriving DecidableEq, Repr

/-! ### Statistics -/

def parseStatString (fields : HashMap String String) (key : String) :
    Except DashboardError String :=
  match fields.lookup key with
  | some value => .ok value
  | none => .error (.invalidStats s!"missing field {key}")

/-- A number of the type `kind`, of 64 bits. -/
def parseStatNumber (kind : String) (fields : HashMap String String) (key : String) :
    Except DashboardError Nat := do
  let value ← parseStatString fields key
  match parseUnsigned (2 ^ 64) value with
  | some value => .ok value
  | none => .error (.invalidStats s!"invalid {kind} field {key}")

def parseStatUsize (fields : HashMap String String) (key : String) : Except DashboardError Nat :=
  parseStatNumber "usize" fields key

def parseStatOptionalUsize (fields : HashMap String String) (key : String) :
    Except DashboardError (Option Nat) := do
  let value ← parseStatString fields key
  if value = "none" then .ok none
  else
    match parseUnsigned (2 ^ 64) value with
    | some value => .ok (some value)
    | none => .error (.invalidStats s!"invalid optional usize field {key}")

def parseStatU64 (fields : HashMap String String) (key : String) : Except DashboardError Nat :=
  parseStatNumber "u64" fields key

/-- The fields by name: lines without a colon are no fields. -/
def statFields (text : String) : HashMap String String :=
  collect ((lines text).filterMap (splitOnce ':'))

def parseStats (frame : Frame) : Except DashboardError DashboardStats := do
  let value ← match frame with
    | .bulk value => .ok value
    | _ => .error (.invalidStats "expected bulk stats payload")
  let text ← match fromUtf8 value with
    | some text => .ok text
    | none => .error (.invalidStats "stats payload is not UTF-8")
  let fields := statFields text
  return {
    totalKeys := ← parseStatUsize fields "total_keys"
    stringKeys := ← parseStatUsize fields "string_keys"
    listKeys := ← parseStatUsize fields "list_keys"
    expiringKeys := ← parseStatUsize fields "expiring_keys"
    listItems := ← parseStatUsize fields "list_items"
    keyBytes := ← parseStatUsize fields "key_bytes"
    payloadBytes := ← parseStatUsize fields "payload_bytes"
    estimatedMemoryBytes := ← parseStatUsize fields "estimated_memory_bytes"
    maxMemoryBytes := ← parseStatOptionalUsize fields "max_memory_bytes"
    evictionPolicy := ← parseStatString fields "eviction_policy"
    expiredKeysCleaned := ← parseStatU64 fields "expired_keys_cleaned"
    evictedKeys := ← parseStatU64 fields "evicted_keys"
    rejectedWrites := ← parseStatU64 fields "rejected_writes" }

/-! ### Key rows -/

def frameToString : Frame → Except DashboardError String
  | .bulk value =>
      match fromUtf8 value with
      | some value => .ok value
      | none => .error (.invalidInspect "column is not UTF-8")
  | _ => .error (.invalidInspect "expected bulk string column")

def frameToI64 : Frame → Except DashboardError Int64
  | .integer value => .ok value
  | _ => .error (.invalidInspect "expected integer column")

def frameToUsize (frame : Frame) : Except DashboardError Nat := do
  let value ← frameToI64 frame
  if value.toInt < 0 then .error (.invalidInspect "negative size column")
  else .ok value.toInt.toNat

def parseKeyRow : Frame → Except DashboardError KeyRow
  | .array [key, valueType, ttlSeconds, payloadBytes, estimatedMemoryBytes, listItems] => do
      return {
        key := ← frameToString key
        valueType := ← frameToString valueType
        ttlSeconds := ← frameToI64 ttlSeconds
        payloadBytes := ← frameToUsize payloadBytes
        estimatedMemoryBytes := ← frameToUsize estimatedMemoryBytes
        listItems := ← frameToUsize listItems }
  | .array columns =>
      .error (.invalidInspect s!"expected 6 key columns, got {columns.length}")
  | _ => .error (.invalidInspect "expected key row array")

def parseKeys : Frame → Except DashboardError (List KeyRow)
  | .array rows => rows.mapM parseKeyRow
  | _ => .error (.invalidInspect "expected array inspect payload")

/-! ### Fetching -/

structure DashboardSnapshot where
  stats : DashboardStats
  keys : List KeyRow
deriving DecidableEq, Repr

/-- The errors of a fetch: those of the connection, and those of the parsers. -/
inductive FetchError where
  | client (error : ClientError)
  | dashboard (error : DashboardError)
deriving DecidableEq, Repr

/-- The replies are parsed once both of them are there. -/
def parseSnapshot (stats keys : Frame) : Except DashboardError DashboardSnapshot := do
  return {
    stats := ← parseStats stats
    keys := ← parseKeys keys }

/-- `fetch_snapshot` on an accepted connection. -/
def fetchSnapshot (heap : Allocator) (keyLimit : Nat) (client : RespClient) :
    Except FetchError DashboardSnapshot × RespClient :=
  match client.command heap ["AERUGO.STATS"] with
  | (.error error, client) => (.error (.client error), client)
  | (.ok stats, client) =>
      match client.command heap ["AERUGO.INSPECT", toString keyLimit] with
      | (.error error, client) => (.error (.client error), client)
      | (.ok keys, client) => ((parseSnapshot stats keys).mapError .dashboard, client)

end AerugoCache.Dashboard
