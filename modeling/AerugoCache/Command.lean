import AerugoCache.RespFrame
import AerugoCache.StoreReports

/-!
# Commands

`command.rs`: parsing a request frame, executing a command on the store, and the
frame a command is logged as.  Everything a command reads besides its arguments
and the store is in an `Env`: the clock readings in the order in which they are
taken, the iteration order of the map, and the picks of an eviction.
-/

namespace AerugoCache.Commands

open AerugoCache.ByteText AerugoCache.Protocol AerugoCache.Storage

def DEFAULT_INSPECT_LIMIT : Nat := 128

inductive CommandError where
  | empty
  | expectedArray
  | expectedBulk
  | invalidUtf8
  | invalidInteger
  | wrongArity (command : String)
  | unknown (command : String)
  | wrongType
  | outOfMemory
deriving DecidableEq, Repr

/-- The `#[error(..)]` texts. -/
def CommandError.display : CommandError → String
  | .empty => "empty command"
  | .expectedArray => "expected RESP array command"
  | .expectedBulk => "expected bulk string argument"
  | .invalidUtf8 => "invalid UTF-8 in command or key"
  | .invalidInteger => "value is not an integer or is out of range"
  | .wrongArity name => s!"wrong number of arguments for '{name}'"
  | .unknown name => s!"unknown command '{name}'"
  | .wrongType => "WRONGTYPE Operation against a key holding the wrong kind of value"
  | .outOfMemory => "OOM command not allowed when memory limit would be exceeded"

def CommandError.ofStoreError : StoreError → CommandError
  | .wrongType => .wrongType
  | .outOfMemory => .outOfMemory

inductive Command where
  | ping (value : Option Bytes)
  | echo (value : Bytes)
  | set (key : String) (value : Bytes)
  | get (key : String)
  | del (keys : List String)
  | exists (keys : List String)
  | expire (key : String) (seconds : UInt64)
  | expireAt (key : String) (unixSeconds : UInt64)
  | ttl (key : String)
  | persist (key : String)
  | lpush (key : String) (values : List Bytes)
  | rpush (key : String) (values : List Bytes)
  | lpop (key : String)
  | rpop (key : String)
  | lrange (key : String) (start stop : Int64)
  | dbSize
  | info
  | aerugoStats
  | aerugoInspect (limit : Nat)
deriving DecidableEq, Repr

/-! ### Parsing -/

def bulkArg : Frame → Except CommandError Bytes
  | .bulk value => .ok value
  | _ => .error .expectedBulk

def intoBulkArgs (items : List Frame) : Except CommandError (List Bytes) :=
  items.mapM bulkArg

def bytesToString (bytes : Bytes) : Except CommandError String :=
  match fromUtf8 bytes with
  | some value => .ok value
  | none => .error .invalidUtf8

def intoKeys (args : List Bytes) : Except CommandError (List String) :=
  args.mapM bytesToString

def toAsciiUppercase (name : String) : String :=
  String.ofList (name.toList.map Char.toUpper)

def orInvalidInteger {α : Type} : Option α → Except CommandError α
  | some value => .ok value
  | none => .error .invalidInteger

def parseU64 (bytes : Bytes) : Except CommandError UInt64 := do
  let value ← bytesToString bytes
  orInvalidInteger ((parseUnsigned (2 ^ 64) value).map UInt64.ofNat)

def parseI64 (bytes : Bytes) : Except CommandError Int64 := do
  let value ← bytesToString bytes
  orInvalidInteger ((parseSigned (2 ^ 63) value).map Int64.ofInt)

def parseUsize (bytes : Bytes) : Except CommandError Nat := do
  let value ← bytesToString bytes
  orInvalidInteger (parseUnsigned (2 ^ 64) value)

def parsePushCommand (name : String) (args : List Bytes)
    (build : String → List Bytes → Command) : Except CommandError Command :=
  match args with
  | key :: value :: values => do
      let key ← bytesToString key
      return build key (value :: values)
  | _ => .error (.wrongArity name)

/-- The commands with exactly one argument, their key. -/
def parseKeyCommand (name : String) (args : List Bytes) (build : String → Command) :
    Except CommandError Command :=
  match args with
  | [key] => do
      let key ← bytesToString key
      return build key
  | _ => .error (.wrongArity name)

/-- The commands with one key or more. -/
def parseKeysCommand (name : String) (args : List Bytes) (build : List String → Command) :
    Except CommandError Command :=
  match args with
  | [] => .error (.wrongArity name)
  | args => do
      let keys ← intoKeys args
      return build keys

/-- The commands with a key and a number of seconds. -/
def parseSecondsCommand (name : String) (args : List Bytes) (build : String → UInt64 → Command) :
    Except CommandError Command :=
  match args with
  | [key, seconds] => do
      let key ← bytesToString key
      let seconds ← parseU64 seconds
      return build key seconds
  | _ => .error (.wrongArity name)

/-- The commands without arguments. -/
def parseBareCommand (name : String) (args : List Bytes) (command : Command) :
    Except CommandError Command :=
  match args with
  | [] => .ok command
  | _ => .error (.wrongArity name)

/-- The match of `from_frame` on the command name. -/
def parseCommand (commandName : String) (args : List Bytes) : Except CommandError Command :=
  match commandName with
  | "PING" =>
      match args with
      | [] => .ok (.ping none)
      | [value] => .ok (.ping (some value))
      | _ => .error (.wrongArity "PING")
  | "ECHO" =>
      match args with
      | [value] => .ok (.echo value)
      | _ => .error (.wrongArity "ECHO")
  | "SET" =>
      match args with
      | [key, value] => do
          let key ← bytesToString key
          return .set key value
      | _ => .error (.wrongArity "SET")
  | "GET" => parseKeyCommand "GET" args .get
  | "DEL" => parseKeysCommand "DEL" args .del
  | "EXISTS" => parseKeysCommand "EXISTS" args .exists
  | "EXPIRE" => parseSecondsCommand "EXPIRE" args .expire
  | "EXPIREAT" => parseSecondsCommand "EXPIREAT" args .expireAt
  | "TTL" => parseKeyCommand "TTL" args .ttl
  | "PERSIST" => parseKeyCommand "PERSIST" args .persist
  | "LPUSH" => parsePushCommand "LPUSH" args .lpush
  | "RPUSH" => parsePushCommand "RPUSH" args .rpush
  | "LPOP" => parseKeyCommand "LPOP" args .lpop
  | "RPOP" => parseKeyCommand "RPOP" args .rpop
  | "LRANGE" =>
      match args with
      | [key, start, stop] => do
          let key ← bytesToString key
          let start ← parseI64 start
          let stop ← parseI64 stop
          return .lrange key start stop
      | _ => .error (.wrongArity "LRANGE")
  | "DBSIZE" => parseBareCommand "DBSIZE" args .dbSize
  | "INFO" => parseBareCommand "INFO" args .info
  | "AERUGO.STATS" => parseBareCommand "AERUGO.STATS" args .aerugoStats
  | "AERUGO.INSPECT" =>
      match args with
      | [] => .ok (.aerugoInspect DEFAULT_INSPECT_LIMIT)
      | [limit] => do
          let limit ← parseUsize limit
          return .aerugoInspect limit
      | _ => .error (.wrongArity "AERUGO.INSPECT")
  | other => .error (.unknown other)

def Command.fromFrame (frame : Frame) : Except CommandError Command :=
  match frame with
  | .array items => do
      match ← intoBulkArgs items with
      | [] => .error .empty
      | name :: args =>
          let commandName ← bytesToString name
          parseCommand (toAsciiUppercase commandName) args
  | _ => .error .expectedArray

/-! ### Environment -/

/-- The clock readings of one request, in the order in which they are taken: two
    by `expiration_deadline`, one by `expire` or `expire_at_unix`, and the one
    every operation of the store takes. -/
structure Clock where
  deadlineNow : SystemTime
  fallbackNow : SystemTime
  expireNow : SystemTime
  now : SystemTime

structure Env where
  clock : Clock
  order : KeyOrder
  picks : Picks

/-- All the readings of a request at one instant, and one pick. -/
def Env.at (now : SystemTime) (nanos : Nat) : Env where
  clock := ⟨now, now, now, now⟩
  order := .ascending
  picks := .constant nanos

/-! ### Replies -/

def bulk (value : String) : Frame := .bulk (utf8 value)

def integer (value : Nat) : Frame := .integer (Int64.ofNat (min value (2 ^ 63 - 1)))

def flag (value : Bool) : Frame := .integer (if value then 1 else 0)

def bulkOrNull : Option Bytes → Frame
  | some value => .bulk value
  | none => .null

def formatStats (stats : StoreStats) : Bytes :=
  let maxMemory := match stats.maxMemoryBytes with
    | none => "none"
    | some bytes => toString bytes
  utf8 <|
    "# Keyspace\r\n" ++
    s!"total_keys:{stats.totalKeys}\r\n" ++
    s!"string_keys:{stats.stringKeys}\r\n" ++
    s!"list_keys:{stats.listKeys}\r\n" ++
    s!"expiring_keys:{stats.expiringKeys}\r\n" ++
    s!"list_items:{stats.listItems}\r\n" ++
    "\r\n" ++
    "# Memory\r\n" ++
    s!"key_bytes:{stats.keyBytes}\r\n" ++
    s!"payload_bytes:{stats.payloadBytes}\r\n" ++
    s!"estimated_memory_bytes:{stats.estimatedMemoryBytes}\r\n" ++
    s!"max_memory_bytes:{maxMemory}\r\n" ++
    s!"eviction_policy:{stats.evictionPolicy.asStr}\r\n" ++
    "\r\n" ++
    "# Counters\r\n" ++
    s!"expired_keys_cleaned:{stats.expiredKeysCleaned}\r\n" ++
    s!"evicted_keys:{stats.evictedKeys}\r\n" ++
    s!"rejected_writes:{stats.rejectedWrites}\r\n"

def inspectionToFrame (inspection : KeyInspection) : Frame :=
  .array [
    bulk inspection.key,
    bulk inspection.valueType,
    .integer inspection.ttlSeconds,
    integer inspection.payloadBytes,
    integer inspection.estimatedMemoryBytes,
    integer inspection.listItems]

/-- The reply to a store operation that may fail; `?` converts its error. -/
def reply {α : Type} (frame : α → Frame) : Except StoreError α → Except CommandError Frame
  | .ok value => .ok (frame value)
  | .error error => .error (.ofStoreError error)

def Command.errorFrame (error : CommandError) : Frame :=
  match error with
  | .wrongType | .outOfMemory => .error error.display
  | _ => .error s!"ERR {error.display}"

/-! ### Execution -/

def Command.execute (command : Command) (env : Env) (store : MemoryStore) :
    Except CommandError Frame × MemoryStore :=
  let now := env.clock.now
  match command with
  | .ping none => (.ok (.simple "PONG"), store)
  | .ping (some value) => (.ok (.bulk value), store)
  | .echo value => (.ok (.bulk value), store)
  | .set key value =>
      let (result, store) := store.set env.picks now key value
      (reply (fun _ => .simple "OK") result, store)
  | .get key =>
      let (result, store) := store.get now key
      (reply bulkOrNull result, store)
  | .del keys =>
      let (count, store) := store.del now keys
      (.ok (.integer (Int64.ofNat count)), store)
  | .exists keys =>
      let (count, store) := store.exists now keys
      (.ok (.integer (Int64.ofNat count)), store)
  | .expire key seconds =>
      let (done, store) := store.expire env.clock.expireNow now key seconds
      (.ok (flag done), store)
  | .expireAt key unixSeconds =>
      let (done, store) := store.expireAtUnix env.clock.expireNow now key unixSeconds
      (.ok (flag done), store)
  | .ttl key =>
      let (remaining, store) := store.ttl now key
      (.ok (.integer remaining.asRedisInteger), store)
  | .persist key =>
      let (done, store) := store.persist now key
      (.ok (flag done), store)
  | .lpush key values =>
      let (result, store) := store.lpush env.picks now key values
      (reply (fun len => .integer (Int64.ofNat len)) result, store)
  | .rpush key values =>
      let (result, store) := store.rpush env.picks now key values
      (reply (fun len => .integer (Int64.ofNat len)) result, store)
  | .lpop key =>
      let (result, store) := store.lpop now key
      (reply bulkOrNull result, store)
  | .rpop key =>
      let (result, store) := store.rpop now key
      (reply bulkOrNull result, store)
  | .lrange key start stop =>
      let (result, store) := store.lrange now key start stop
      (reply (fun values => .array (values.map Frame.bulk)) result, store)
  | .dbSize =>
      let (stats, store) := store.stats now
      (.ok (.integer (Int64.ofNat stats.totalKeys)), store)
  | .info | .aerugoStats =>
      let (stats, store) := store.stats now
      (.ok (.bulk (formatStats stats)), store)
  | .aerugoInspect limit =>
      let (keys, store) := store.inspectKeys env.order now limit
      (.ok (.array (keys.map inspectionToFrame)), store)

/-! ### The logged form of a command -/

def unixSecondsCeil (time : SystemTime) : UInt64 :=
  match durationSince time UNIX_EPOCH with
  | none => 0
  | some duration =>
      UInt64.ofNat (duration / NANOS_PER_SEC) + if duration % NANOS_PER_SEC > 0 then 1 else 0

def expirationDeadline (clock : Clock) (seconds : UInt64) : UInt64 :=
  unixSecondsCeil ((checkedAdd clock.deadlineNow seconds).getD clock.fallbackNow)

def listAofFrame (command key : String) (values : List Bytes) : Frame :=
  .array ([bulk command, bulk key] ++ values.map Frame.bulk)

def Command.toAofFrame (command : Command) (clock : Clock) : Option Frame :=
  match command with
  | .set key value => some (.array [bulk "SET", bulk key, .bulk value])
  | .del keys => some (.array (bulk "DEL" :: keys.map bulk))
  | .expire key seconds =>
      some (.array [bulk "EXPIREAT", bulk key, bulk (toString (expirationDeadline clock seconds))])
  | .expireAt key unixSeconds =>
      some (.array [bulk "EXPIREAT", bulk key, bulk (toString unixSeconds)])
  | .persist key => some (.array [bulk "PERSIST", bulk key])
  | .lpush key values => some (listAofFrame "LPUSH" key values)
  | .rpush key values => some (listAofFrame "RPUSH" key values)
  | .lpop key => some (.array [bulk "LPOP", bulk key])
  | .rpop key => some (.array [bulk "RPOP", bulk key])
  | .ping _ | .echo _ | .get _ | .exists _ | .ttl _ | .lrange _ _ _ | .dbSize | .info
  | .aerugoStats | .aerugoInspect _ => none

end AerugoCache.Commands
