import AerugoCache.AppendOnlyFile
import AerugoCache.Fallible
import AerugoCache.RespRoundTrip

/-!
# The record of a command

A command is logged as the request that parses to it: the record has the same
arguments, under the command name in upper case.  Only `EXPIRE` is logged as another
command, the `EXPIREAT` of its deadline.  So a record decodes, and parses to the
command that replay executes.
-/

namespace AerugoCache.Commands

open AerugoCache.ByteText AerugoCache.ByteReader AerugoCache.Fallible AerugoCache.Protocol
  AerugoCache.Storage

/-! ### Arguments -/

theorem intoBulkArgs_map (args : List Bytes) : intoBulkArgs (args.map Frame.bulk) = .ok args := by
  induction args with
  | nil => rfl
  | cons arg args ih =>
    rw [intoBulkArgs] at ih
    simp [intoBulkArgs, bulkArg, ih]
    rfl

theorem map_of_intoBulkArgs {items : List Frame} {args : List Bytes}
    (h : intoBulkArgs items = .ok args) : args.map Frame.bulk = items := by
  refine map_of_mapM ?_ h
  intro item arg harg
  cases item with
  | bulk value =>
    cases harg
    rfl
  | simple | error | integer | null | array => cases harg

theorem bytesToString_utf8 (value : String) : bytesToString (utf8 value) = .ok value := by
  rw [bytesToString, fromUtf8_utf8]

theorem utf8_of_bytesToString {bytes : Bytes} {value : String}
    (h : bytesToString bytes = .ok value) : utf8 value = bytes := by
  unfold bytesToString at h
  split at h
  · rename_i hvalid
    cases h
    exact utf8_of_fromUtf8 hvalid
  · cases h

theorem map_utf8_of_intoKeys {args : List Bytes} {keys : List String}
    (h : intoKeys args = .ok keys) : keys.map utf8 = args :=
  map_of_mapM (fun _ _ => utf8_of_bytesToString) h

/-- The frame of a command name and its arguments. -/
def commandFrame (name : String) (args : List Bytes) : Frame :=
  .array ((utf8 name :: args).map Frame.bulk)

theorem fromFrame_commandFrame (name : String) (args : List Bytes) :
    Command.fromFrame (commandFrame name args) = parseCommand (toAsciiUppercase name) args := by
  unfold commandFrame
  simp only [Command.fromFrame, intoBulkArgs_map, bind, Except.bind, bytesToString_utf8]

/-- What a frame that parses looks like. -/
theorem fromFrame_ok {frame : Frame} {command : Command}
    (h : Command.fromFrame frame = .ok command) :
    ∃ name args, frame = commandFrame name args ∧
      parseCommand (toAsciiUppercase name) args = .ok command := by
  cases frame with
  | array items =>
    obtain ⟨args, hargs, h⟩ := bind_ok h
    rw [← map_of_intoBulkArgs hargs]
    cases args with
    | nil => cases h
    | cons name args =>
      obtain ⟨commandName, hname, h⟩ := bind_ok h
      refine ⟨commandName, args, ?_, h⟩
      rw [commandFrame, utf8_of_bytesToString hname]
  | simple | error | integer | bulk | null => cases h

/-! ### The record parses to the command that replay executes -/

/-- What the record of a command says. -/
def Command.replayed (command : Command) (clock : Clock) : Command :=
  match command with
  | .expire key seconds => .expireAt key (expirationDeadline clock seconds)
  | command => command

theorem parseU64_toString (n : UInt64) : parseU64 (utf8 (toString n)) = .ok n := by
  have hparse : parseUnsigned (2 ^ 64) (toString n) = some n.toNat :=
    parseUnsigned_toString n.toNat_lt
  rw [parseU64, bytesToString_utf8]
  simp only [bind, Except.bind, hparse, Option.map_some, UInt64.ofNat_toNat, orInvalidInteger]

theorem parseCommand_expireAt (key : String) (seconds : UInt64) :
    parseCommand "EXPIREAT" [utf8 key, utf8 (toString seconds)] = .ok (.expireAt key seconds) := by
  simp only [parseCommand, parseSecondsCommand, bytesToString_utf8, parseU64_toString, bind,
    Except.bind, pure, Except.pure]

/-! What the arguments of a command that parses look like, one shape of command at a
time. -/

theorem parseKeyCommand_ok {name : String} {args : List Bytes} {build : String → Command}
    {command : Command} (h : parseKeyCommand name args build = .ok command) :
    ∃ key, args = [utf8 key] ∧ command = build key := by
  unfold parseKeyCommand at h
  split at h
  · obtain ⟨key, hkey, h⟩ := bind_ok h
    cases h
    exact ⟨key, by rw [utf8_of_bytesToString hkey], rfl⟩
  · cases h

theorem parseKeysCommand_ok {name : String} {args : List Bytes}
    {build : List String → Command} {command : Command}
    (h : parseKeysCommand name args build = .ok command) :
    ∃ keys, args = keys.map utf8 ∧ keys ≠ [] ∧ command = build keys := by
  unfold parseKeysCommand at h
  split at h
  · cases h
  · rename_i hne
    obtain ⟨keys, hkeys, h⟩ := bind_ok h
    cases h
    have hargs := map_utf8_of_intoKeys hkeys
    refine ⟨keys, hargs.symm, ?_, rfl⟩
    rintro rfl
    exact hne hargs.symm

theorem parseSecondsCommand_ok {name : String} {args : List Bytes}
    {build : String → UInt64 → Command} {command : Command}
    (h : parseSecondsCommand name args build = .ok command) :
    ∃ key arg seconds, args = [utf8 key, arg] ∧ command = build key seconds := by
  unfold parseSecondsCommand at h
  split at h
  · rename_i second
    obtain ⟨key, hkey, h⟩ := bind_ok h
    obtain ⟨seconds, -, h⟩ := bind_ok h
    cases h
    exact ⟨key, second, seconds, by rw [utf8_of_bytesToString hkey], rfl⟩
  · cases h

theorem parsePushCommand_ok {name : String} {args : List Bytes}
    {build : String → List Bytes → Command} {command : Command}
    (h : parsePushCommand name args build = .ok command) :
    ∃ key values, args = utf8 key :: values ∧ values ≠ [] ∧ command = build key values := by
  unfold parsePushCommand at h
  split at h
  · rename_i value values
    obtain ⟨key, hkey, h⟩ := bind_ok h
    cases h
    exact ⟨key, value :: values, by rw [utf8_of_bytesToString hkey], by simp, rfl⟩
  · cases h

theorem parseSet_ok {args : List Bytes} {command : Command}
    (h : parseCommand "SET" args = .ok command) :
    ∃ key value, args = [utf8 key, value] ∧ command = .set key value := by
  simp only [parseCommand] at h
  split at h
  · rename_i value
    obtain ⟨key, hkey, h⟩ := bind_ok h
    cases h
    exact ⟨key, value, by rw [utf8_of_bytesToString hkey], rfl⟩
  · cases h

theorem parseLrange_ok {args : List Bytes} {command : Command}
    (h : parseCommand "LRANGE" args = .ok command) :
    ∃ key start stop, command = .lrange key start stop := by
  simp only [parseCommand] at h
  split at h
  · obtain ⟨key, -, h⟩ := bind_ok h
    obtain ⟨start, -, h⟩ := bind_ok h
    obtain ⟨stop, -, h⟩ := bind_ok h
    cases h
    exact ⟨key, start, stop, rfl⟩
  · cases h

theorem parseInspect_ok {args : List Bytes} {command : Command}
    (h : parseCommand "AERUGO.INSPECT" args = .ok command) :
    ∃ limit, command = .aerugoInspect limit := by
  simp only [parseCommand] at h
  split at h
  · cases h
    exact ⟨_, rfl⟩
  · obtain ⟨limit, -, h⟩ := bind_ok h
    cases h
    exact ⟨limit, rfl⟩
  · cases h

theorem parseBareCommand_ok {name : String} {args : List Bytes} {bare command : Command}
    (h : parseBareCommand name args bare = .ok command) : command = bare := by
  unfold parseBareCommand at h
  split at h
  · cases h
    rfl
  · cases h

/-- A record is the request with its name in upper case, or the `EXPIREAT` of a
    deadline. -/
theorem toAofFrame_of_parse {name : String} {args : List Bytes} {command : Command}
    {clock : Clock} {frame : Frame} (hparse : parseCommand name args = .ok command)
    (hlog : command.toAofFrame clock = some frame) :
    (frame = commandFrame name args ∧ toAsciiUppercase name = name ∧ (utf8 name).length < 2 ^ 63 ∧
        command.replayed clock = command) ∨
      ∃ key arg seconds, args = [utf8 key, arg] ∧
        command.replayed clock = .expireAt key seconds ∧
        frame = commandFrame "EXPIREAT" [utf8 key, utf8 (toString seconds)] := by
  have hparse' := hparse
  unfold parseCommand at hparse
  split at hparse
  case h_1 | h_2 => split at hparse <;> first | cases hparse; cases hlog | cases hparse
  case h_3 =>
    obtain ⟨key, value, rfl, rfl⟩ := parseSet_ok hparse'
    cases hlog
    exact Or.inl ⟨rfl, rfl, by decide, rfl⟩
  case h_4 | h_9 =>
    obtain ⟨key, rfl, rfl⟩ := parseKeyCommand_ok hparse
    cases hlog
  case h_5 =>
    obtain ⟨keys, rfl, -, rfl⟩ := parseKeysCommand_ok hparse
    cases hlog
    refine Or.inl ⟨?_, rfl, by decide, rfl⟩
    simp only [commandFrame, List.map_cons, List.map_map]
    rfl
  case h_6 =>
    obtain ⟨keys, rfl, -, rfl⟩ := parseKeysCommand_ok hparse
    cases hlog
  case h_7 =>
    obtain ⟨key, arg, seconds, rfl, rfl⟩ := parseSecondsCommand_ok hparse
    cases hlog
    exact Or.inr ⟨key, arg, _, rfl, rfl, rfl⟩
  case h_8 =>
    obtain ⟨key, arg, seconds, rfl, rfl⟩ := parseSecondsCommand_ok hparse
    cases hlog
    exact Or.inr ⟨key, arg, _, rfl, rfl, rfl⟩
  case h_10 | h_13 | h_14 =>
    obtain ⟨key, rfl, rfl⟩ := parseKeyCommand_ok hparse
    cases hlog
    exact Or.inl ⟨rfl, rfl, by decide, rfl⟩
  case h_11 | h_12 =>
    obtain ⟨key, values, rfl, -, rfl⟩ := parsePushCommand_ok hparse
    cases hlog
    exact Or.inl ⟨rfl, rfl, by decide, rfl⟩
  case h_15 =>
    obtain ⟨key, start, stop, rfl⟩ := parseLrange_ok hparse'
    cases hlog
  case h_16 | h_17 | h_18 =>
    obtain rfl := parseBareCommand_ok hparse
    cases hlog
  case h_19 =>
    obtain ⟨limit, rfl⟩ := parseInspect_ok hparse'
    cases hlog
  case h_20 => cases hparse

/-- **The record of a command parses** to the command that replay executes. -/
theorem fromFrame_toAofFrame {frame logged : Frame} {command : Command} {clock : Clock}
    (hparse : Command.fromFrame frame = .ok command)
    (hlog : command.toAofFrame clock = some logged) :
    Command.fromFrame logged = .ok (command.replayed clock) := by
  obtain ⟨name, args, rfl, hcommand⟩ := fromFrame_ok hparse
  rcases toAofFrame_of_parse hcommand hlog with
    ⟨rfl, hupper, -, hsame⟩ | ⟨key, arg, seconds, rfl, hreplayed, rfl⟩
  · rw [fromFrame_commandFrame, hupper, hcommand, hsame]
  · rw [fromFrame_commandFrame, hreplayed]
    exact parseCommand_expireAt key seconds

/-! ### Records -/

theorem commandFrame_readable (name : String) (args : List Bytes) :
    (commandFrame name args).Readable :=
  bulks_readable (utf8 name :: args)

/-- A frame of bulks fits when it has few enough items and each is short enough. -/
theorem commandFrame_fits {name : String} {args : List Bytes} :
    (commandFrame name args).Fits .unlimited ↔
      args.length + 1 < 2 ^ 64 ∧ (utf8 name).length < 2 ^ 63 ∧
        ∀ arg ∈ args, arg.length < 2 ^ 63 := by
  change (bulks (utf8 name :: args)).Fits .unlimited ↔ _
  rw [bulks_fits]
  simp [bulks, Frame.Held, Allocator.unlimited]

/-- A frame of the log: the decoder reads it back, and it parses to a command. -/
structure Record where
  frame : Frame
  command : Command
  readable : frame.Readable
  fits : frame.Fits .unlimited
  parses : Command.fromFrame frame = .ok command

theorem length_utf8_toString_lt (n : UInt64) : (utf8 (toString n)).length < 2 ^ 63 := by
  have hdigits : (Nat.toDigits 10 n.toNat).length ≤ 20 := by
    rw [Nat.length_toDigits_le_iff (by decide) (by decide)]
    exact Nat.lt_of_lt_of_le n.toNat_lt (by decide)
  have hbytes := length_utf8_le (toString n.toNat)
  rw [Nat.toString_eq_repr, Nat.toList_repr] at hbytes
  change (utf8 n.toNat.repr).length < 2 ^ 63
  omega

/-- **Every logged command has a record**: its frame decodes and parses to the
    command that replay executes. -/
theorem exists_record {frame logged : Frame} {command : Command} {clock : Clock}
    (hparse : Command.fromFrame frame = .ok command) (hfits : frame.Fits .unlimited)
    (hlog : command.toAofFrame clock = some logged) :
    ∃ record : Record, record.frame = logged ∧ record.command = command.replayed clock := by
  have hparses := fromFrame_toAofFrame hparse hlog
  obtain ⟨name, args, rfl, hcommand⟩ := fromFrame_ok hparse
  obtain ⟨hlength, -, hargs⟩ := commandFrame_fits.mp hfits
  rcases toAofFrame_of_parse hcommand hlog with
    ⟨rfl, -, hname, -⟩ | ⟨key, arg, seconds, rfl, -, rfl⟩
  · exact ⟨⟨_, _, commandFrame_readable _ _, commandFrame_fits.mpr ⟨hlength, hname, hargs⟩,
      hparses⟩, rfl, rfl⟩
  · refine ⟨⟨_, _, commandFrame_readable _ _, ?_, hparses⟩, rfl, rfl⟩
    refine commandFrame_fits.mpr ⟨by simp, by decide, ?_⟩
    intro arg harg
    rcases List.mem_cons.mp harg with rfl | harg
    · exact hargs _ List.mem_cons_self
    · rw [List.mem_singleton.mp harg]
      exact length_utf8_toString_lt seconds

end AerugoCache.Commands
