import AerugoCache.CommandCodec
import AerugoCache.Numerals

/-!
# The requests of a command

A command is requested by its name, in any case, and its arguments: keys and values byte
by byte, a number by any of its texts.  A frame parses to a command if and only if it is a
request of that command, so two frames parse to the same command exactly when they differ
in the case of the name, in the texts of the numbers, or in a default that is left out.
-/

namespace AerugoCache.Commands

open AerugoCache.ByteText AerugoCache.Fallible AerugoCache.Protocol

/-! ### Words -/

/-- An argument, up to how it is written. -/
inductive Word where
  | bytes (value : Bytes)
  | natural (n : Nat)
  | integer (v : Int)

/-- The ways to write a word. -/
inductive Writes : Word → Bytes → Prop
  | bytes {value : Bytes} : Writes (.bytes value) value
  | natural {text : String} {n : Nat} : Natural text.toList n → Writes (.natural n) (utf8 text)
  | integer {text : String} {v : Int} : Integer text.toList v → Writes (.integer v) (utf8 text)

def plain (values : List Bytes) : List Word := values.map Word.bytes

theorem exists_writes (word : Word) : ∃ arg, Writes word arg := by
  cases word with
  | bytes value => exact ⟨value, .bytes⟩
  | natural n => exact ⟨_, .natural (natural_toString n)⟩
  | integer v => exact ⟨_, .integer (integer_toString v)⟩

theorem exists_writes_all (words : List Word) : ∃ args, List.Forall₂ Writes words args := by
  induction words with
  | nil => exact ⟨[], .nil⟩
  | cons word words ih =>
    obtain ⟨arg, harg⟩ := exists_writes word
    obtain ⟨args, hargs⟩ := ih
    exact ⟨arg :: args, .cons harg hargs⟩

@[simp] theorem writes_plain {values args : List Bytes} :
    List.Forall₂ Writes (plain values) args ↔ args = values := by
  constructor
  · intro h
    induction values generalizing args with
    | nil =>
      cases h
      rfl
    | cons value values ih =>
      cases h with
      | cons hvalue hvalues =>
        cases hvalue
        rw [ih hvalues]
  · rintro rfl
    induction args with
    | nil => exact .nil
    | cons arg args ih => exact .cons .bytes ih

/-! ### The commands -/

def Command.name : Command → String
  | .ping _ => "PING"
  | .echo _ => "ECHO"
  | .set _ _ => "SET"
  | .get _ => "GET"
  | .del _ => "DEL"
  | .exists _ => "EXISTS"
  | .expire _ _ => "EXPIRE"
  | .expireAt _ _ => "EXPIREAT"
  | .ttl _ => "TTL"
  | .persist _ => "PERSIST"
  | .lpush _ _ => "LPUSH"
  | .rpush _ _ => "RPUSH"
  | .lpop _ => "LPOP"
  | .rpop _ => "RPOP"
  | .lrange _ _ _ => "LRANGE"
  | .dbSize => "DBSIZE"
  | .info => "INFO"
  | .aerugoStats => "AERUGO.STATS"
  | .aerugoInspect _ => "AERUGO.INSPECT"

def Command.words : Command → List Word
  | .ping value => plain value.toList
  | .echo value => plain [value]
  | .set key value => plain [utf8 key, value]
  | .del keys | .exists keys => plain (keys.map utf8)
  | .expire key seconds | .expireAt key seconds =>
      [.bytes (utf8 key), .natural seconds.toNat]
  | .lpush key values | .rpush key values => plain (utf8 key :: values)
  | .get key | .ttl key | .persist key | .lpop key | .rpop key => plain [utf8 key]
  | .lrange key start stop => [.bytes (utf8 key), .integer start.toInt, .integer stop.toInt]
  | .dbSize | .info | .aerugoStats => []
  | .aerugoInspect limit => [.natural limit]

/-- What a command that can be requested has: a key, a value, a limit that is a `usize`. -/
def Command.Sendable : Command → Prop
  | .del keys | .exists keys => keys ≠ []
  | .lpush _ values | .rpush _ values => values ≠ []
  | .aerugoInspect limit => limit < 2 ^ 64
  | _ => True

/-- The arguments that give the words of a command; `AERUGO.INSPECT` may go without its
    limit. -/
inductive Command.Arguments : Command → List Bytes → Prop
  | written {command : Command} {args : List Bytes} :
      List.Forall₂ Writes command.words args → Arguments command args
  | defaultLimit : Arguments (.aerugoInspect DEFAULT_INSPECT_LIMIT) []

/-- The requests of a command. -/
inductive Requests : Command → Frame → Prop
  | mk {command : Command} {name : String} {args : List Bytes} :
      toAsciiUppercase name = command.name → command.Arguments args →
        Requests command (commandFrame name args)

/-! ### Arguments -/

theorem bytesToString_eq_ok {arg : Bytes} {text : String} :
    bytesToString arg = .ok text ↔ arg = utf8 text := by
  constructor
  · intro h
    exact (utf8_of_bytesToString h).symm
  · rintro rfl
    exact bytesToString_utf8 text

theorem intoKeys_eq_ok {args : List Bytes} {keys : List String} :
    intoKeys args = .ok keys ↔ args = keys.map utf8 := by
  constructor
  · intro h
    exact (map_utf8_of_intoKeys h).symm
  · rintro rfl
    have hkeys : (keys.map utf8).mapM bytesToString = .ok (keys.map id) :=
      mapM_map_ok fun key _ => bytesToString_utf8 key
    rwa [List.map_id] at hkeys

theorem orInvalidInteger_eq_ok {α : Type} {value : Option α} {a : α} :
    orInvalidInteger value = .ok a ↔ value = some a := by
  cases value with
  | none => exact ⟨nofun, nofun⟩
  | some b => exact ⟨fun h => by cases h; rfl, fun h => by cases h; rfl⟩

theorem parseUsize_eq_ok {arg : Bytes} {n : Nat} :
    parseUsize arg = .ok n ↔ Writes (.natural n) arg ∧ n < 2 ^ 64 := by
  simp only [parseUsize, bind_eq_ok, bytesToString_eq_ok, orInvalidInteger_eq_ok,
    parseUnsigned_eq_some]
  constructor
  · rintro ⟨text, rfl, htext, hlt⟩
    exact ⟨.natural htext, hlt⟩
  · rintro ⟨hwrites, hlt⟩
    cases hwrites with
    | natural htext => exact ⟨_, rfl, htext, hlt⟩

theorem parseU64_eq_ok {arg : Bytes} {n : UInt64} :
    parseU64 arg = .ok n ↔ Writes (.natural n.toNat) arg := by
  simp only [parseU64, bind_eq_ok, bytesToString_eq_ok, orInvalidInteger_eq_ok,
    Option.map_eq_some_iff, parseUnsigned_eq_some]
  constructor
  · rintro ⟨text, rfl, m, ⟨htext, hlt⟩, rfl⟩
    have hm : (UInt64.ofNat m).toNat = m := UInt64.toNat_ofNat_of_lt' hlt
    rw [hm]
    exact .natural htext
  · intro hwrites
    generalize hm : n.toNat = m at hwrites
    cases hwrites with
    | natural htext =>
      refine ⟨_, rfl, m, ⟨htext, hm ▸ n.toNat_lt⟩, ?_⟩
      rw [← hm, UInt64.ofNat_toNat]

theorem parseI64_eq_ok {arg : Bytes} {v : Int64} :
    parseI64 arg = .ok v ↔ Writes (.integer v.toInt) arg := by
  simp only [parseI64, bind_eq_ok, bytesToString_eq_ok, orInvalidInteger_eq_ok,
    Option.map_eq_some_iff, parseSigned_eq_some]
  constructor
  · rintro ⟨text, rfl, w, ⟨htext, hlow, hhigh⟩, rfl⟩
    have hw : (Int64.ofInt w).toInt = w := Int64.toInt_ofInt_of_le hlow hhigh
    rw [hw]
    exact .integer htext
  · intro hwrites
    generalize hw : v.toInt = w at hwrites
    cases hwrites with
    | integer htext =>
      refine ⟨_, rfl, w, ⟨htext, hw ▸ v.le_toInt, hw ▸ v.toInt_lt⟩, ?_⟩
      rw [← hw, Int64.ofInt_toInt]

/-! ### One shape of command at a time -/

theorem parseKeyCommand_eq_ok {name : String} {args : List Bytes} {build : String → Command}
    {command : Command} :
    parseKeyCommand name args build = .ok command ↔
      ∃ key, args = [utf8 key] ∧ command = build key := by
  constructor
  · exact parseKeyCommand_ok
  · rintro ⟨key, rfl, rfl⟩
    simp only [parseKeyCommand, bytesToString_utf8, bind, Except.bind, pure, Except.pure]

theorem parseKeysCommand_eq_ok {name : String} {args : List Bytes}
    {build : List String → Command} {command : Command} :
    parseKeysCommand name args build = .ok command ↔
      ∃ keys, args = keys.map utf8 ∧ keys ≠ [] ∧ command = build keys := by
  constructor
  · exact parseKeysCommand_ok
  · rintro ⟨keys, rfl, hkeys, rfl⟩
    cases keys with
    | nil => exact absurd rfl hkeys
    | cons key keys =>
      have hparse := intoKeys_eq_ok.mpr (rfl : (key :: keys).map utf8 = _)
      rw [List.map_cons] at hparse ⊢
      simp only [parseKeysCommand, hparse, bind, Except.bind, pure, Except.pure]

theorem parseSecondsCommand_eq_ok {name : String} {args : List Bytes}
    {build : String → UInt64 → Command} {command : Command} :
    parseSecondsCommand name args build = .ok command ↔
      ∃ key arg seconds, args = [utf8 key, arg] ∧ Writes (.natural seconds.toNat) arg ∧
        command = build key seconds := by
  constructor
  · intro h
    unfold parseSecondsCommand at h
    split at h
    · obtain ⟨key, hkey, h⟩ := bind_ok h
      obtain ⟨seconds, hseconds, h⟩ := bind_ok h
      cases h
      rw [bytesToString_eq_ok.mp hkey]
      exact ⟨key, _, seconds, rfl, parseU64_eq_ok.mp hseconds, rfl⟩
    · cases h
  · rintro ⟨key, arg, seconds, rfl, harg, rfl⟩
    simp only [parseSecondsCommand, bytesToString_utf8, parseU64_eq_ok.mpr harg, bind,
      Except.bind, pure, Except.pure]

theorem parsePushCommand_eq_ok {name : String} {args : List Bytes}
    {build : String → List Bytes → Command} {command : Command} :
    parsePushCommand name args build = .ok command ↔
      ∃ key values, args = utf8 key :: values ∧ values ≠ [] ∧ command = build key values := by
  constructor
  · exact parsePushCommand_ok
  · rintro ⟨key, values, rfl, hvalues, rfl⟩
    cases values with
    | nil => exact absurd rfl hvalues
    | cons value values =>
      simp only [parsePushCommand, bytesToString_utf8, bind, Except.bind, pure, Except.pure]

theorem parseBareCommand_eq_ok {name : String} {args : List Bytes} {bare command : Command} :
    parseBareCommand name args bare = .ok command ↔ args = [] ∧ command = bare := by
  constructor
  · intro h
    refine ⟨?_, parseBareCommand_ok h⟩
    cases args with
    | nil => rfl
    | cons arg args => cases h
  · rintro ⟨rfl, rfl⟩
    rfl

theorem parsePing_eq_ok {args : List Bytes} {command : Command} :
    parseCommand "PING" args = .ok command ↔
      ∃ value : Option Bytes, args = value.toList ∧ command = .ping value := by
  simp only [parseCommand]
  constructor
  · intro h
    split at h
    · cases h
      exact ⟨none, rfl, rfl⟩
    · cases h
      exact ⟨some _, rfl, rfl⟩
    · cases h
  · rintro ⟨value, rfl, rfl⟩
    cases value with
    | none => rfl
    | some value => rfl

theorem parseEcho_eq_ok {args : List Bytes} {command : Command} :
    parseCommand "ECHO" args = .ok command ↔ ∃ value, args = [value] ∧ command = .echo value := by
  simp only [parseCommand]
  constructor
  · intro h
    split at h
    · cases h
      exact ⟨_, rfl, rfl⟩
    · cases h
  · rintro ⟨value, rfl, rfl⟩
    rfl

theorem parseSet_eq_ok {args : List Bytes} {command : Command} :
    parseCommand "SET" args = .ok command ↔
      ∃ key value, args = [utf8 key, value] ∧ command = .set key value := by
  constructor
  · exact parseSet_ok
  · rintro ⟨key, value, rfl, rfl⟩
    simp only [parseCommand, bytesToString_utf8, bind, Except.bind, pure, Except.pure]

theorem parseLrange_eq_ok {args : List Bytes} {command : Command} :
    parseCommand "LRANGE" args = .ok command ↔
      ∃ key first last start stop, args = [utf8 key, first, last] ∧
        Writes (.integer start.toInt) first ∧ Writes (.integer stop.toInt) last ∧
        command = .lrange key start stop := by
  simp only [parseCommand]
  constructor
  · intro h
    split at h
    · obtain ⟨key, hkey, h⟩ := bind_ok h
      obtain ⟨start, hstart, h⟩ := bind_ok h
      obtain ⟨stop, hstop, h⟩ := bind_ok h
      cases h
      rw [bytesToString_eq_ok.mp hkey]
      exact ⟨key, _, _, start, stop, rfl, parseI64_eq_ok.mp hstart, parseI64_eq_ok.mp hstop, rfl⟩
    · cases h
  · rintro ⟨key, first, last, start, stop, rfl, hstart, hstop, rfl⟩
    simp only [bytesToString_utf8, parseI64_eq_ok.mpr hstart, parseI64_eq_ok.mpr hstop, bind,
      Except.bind, pure, Except.pure]

theorem parseInspect_eq_ok {args : List Bytes} {command : Command} :
    parseCommand "AERUGO.INSPECT" args = .ok command ↔
      (args = [] ∧ command = .aerugoInspect DEFAULT_INSPECT_LIMIT) ∨
        ∃ arg limit, args = [arg] ∧ Writes (.natural limit) arg ∧ limit < 2 ^ 64 ∧
          command = .aerugoInspect limit := by
  simp only [parseCommand]
  constructor
  · intro h
    split at h
    · cases h
      exact Or.inl ⟨rfl, rfl⟩
    · obtain ⟨limit, hlimit, h⟩ := bind_ok h
      cases h
      obtain ⟨hwrites, hlt⟩ := parseUsize_eq_ok.mp hlimit
      exact Or.inr ⟨_, limit, rfl, hwrites, hlt, rfl⟩
    · cases h
  · rintro (⟨rfl, rfl⟩ | ⟨arg, limit, rfl, hwrites, hlt, rfl⟩)
    · rfl
    · simp only [parseUsize_eq_ok.mpr ⟨hwrites, hlt⟩, bind, Except.bind, pure, Except.pure]

/-! ### All commands -/

/-! The words that are not all plain. -/

theorem writes_limit {n : Nat} {args : List Bytes} :
    List.Forall₂ Writes [.natural n] args ↔ ∃ arg, args = [arg] ∧ Writes (.natural n) arg := by
  constructor
  · intro h
    cases h with
    | cons harg hnil =>
      cases hnil
      exact ⟨_, rfl, harg⟩
  · rintro ⟨arg, rfl, harg⟩
    exact .cons harg .nil

theorem writes_range {key : String} {v w : Int} {args : List Bytes} :
    List.Forall₂ Writes [.bytes (utf8 key), .integer v, .integer w] args ↔
      ∃ first last, args = [utf8 key, first, last] ∧ Writes (.integer v) first ∧
        Writes (.integer w) last := by
  constructor
  · intro h
    cases h with
    | cons hkey hrest =>
      cases hkey
      cases hrest with
      | cons hfirst hrest =>
        cases hrest with
        | cons hlast hnil =>
          cases hnil
          exact ⟨_, _, rfl, hfirst, hlast⟩
  · rintro ⟨first, last, rfl, hfirst, hlast⟩
    exact .cons .bytes (.cons hfirst (.cons hlast .nil))

theorem writes_seconds {key : String} {n : Nat} {args : List Bytes} :
    List.Forall₂ Writes [.bytes (utf8 key), .natural n] args ↔
      ∃ arg, args = [utf8 key, arg] ∧ Writes (.natural n) arg := by
  constructor
  · intro h
    cases h with
    | cons hkey hrest =>
      cases hkey
      cases hrest with
      | cons hn hnil =>
        cases hnil
        exact ⟨_, rfl, hn⟩
  · rintro ⟨arg, rfl, harg⟩
    exact .cons .bytes (.cons harg .nil)

/-- A command that parses has the name and the arguments of its requests. -/
theorem arguments_of_parse {name : String} {args : List Bytes} {command : Command}
    (h : parseCommand name args = .ok command) :
    name = command.name ∧ command.Sendable ∧ command.Arguments args := by
  have h' := h
  unfold parseCommand at h
  split at h
  case h_1 =>
    obtain ⟨value, rfl, rfl⟩ := parsePing_eq_ok.mp h'
    exact ⟨rfl, trivial, .written (writes_plain.mpr rfl)⟩
  case h_2 =>
    obtain ⟨value, rfl, rfl⟩ := parseEcho_eq_ok.mp h'
    exact ⟨rfl, trivial, .written (writes_plain.mpr rfl)⟩
  case h_3 =>
    obtain ⟨key, value, rfl, rfl⟩ := parseSet_eq_ok.mp h'
    exact ⟨rfl, trivial, .written (writes_plain.mpr rfl)⟩
  case h_4 | h_9 | h_10 | h_13 | h_14 =>
    obtain ⟨key, rfl, rfl⟩ := parseKeyCommand_eq_ok.mp h
    exact ⟨rfl, trivial, .written (writes_plain.mpr rfl)⟩
  case h_5 | h_6 =>
    obtain ⟨keys, rfl, hkeys, rfl⟩ := parseKeysCommand_eq_ok.mp h
    exact ⟨rfl, hkeys, .written (writes_plain.mpr rfl)⟩
  case h_7 | h_8 =>
    obtain ⟨key, arg, seconds, rfl, harg, rfl⟩ := parseSecondsCommand_eq_ok.mp h
    exact ⟨rfl, trivial, .written (writes_seconds.mpr ⟨arg, rfl, harg⟩)⟩
  case h_11 | h_12 =>
    obtain ⟨key, values, rfl, hvalues, rfl⟩ := parsePushCommand_eq_ok.mp h
    exact ⟨rfl, hvalues, .written (writes_plain.mpr rfl)⟩
  case h_15 =>
    obtain ⟨key, first, last, start, stop, rfl, hstart, hstop, rfl⟩ := parseLrange_eq_ok.mp h'
    exact ⟨rfl, trivial, .written (.cons .bytes (.cons hstart (.cons hstop .nil)))⟩
  case h_16 | h_17 | h_18 =>
    obtain ⟨rfl, rfl⟩ := parseBareCommand_eq_ok.mp h
    exact ⟨rfl, trivial, .written .nil⟩
  case h_19 =>
    rcases parseInspect_eq_ok.mp h' with ⟨rfl, rfl⟩ | ⟨arg, limit, rfl, hwrites, hlt, rfl⟩
    · exact ⟨rfl, (by decide : DEFAULT_INSPECT_LIMIT < 2 ^ 64), .defaultLimit⟩
    · exact ⟨rfl, hlt, .written (.cons hwrites .nil)⟩
  case h_20 => cases h

/-- The arguments of a command that can be requested parse to it. -/
theorem parseCommand_of_arguments {args : List Bytes} {command : Command}
    (hsendable : command.Sendable) (hargs : command.Arguments args) :
    parseCommand command.name args = .ok command := by
  cases hargs with
  | defaultLimit => rfl
  | written h =>
    cases command with
    | ping value => exact parsePing_eq_ok.mpr ⟨value, writes_plain.mp h, rfl⟩
    | echo value => exact parseEcho_eq_ok.mpr ⟨value, writes_plain.mp h, rfl⟩
    | set key value => exact parseSet_eq_ok.mpr ⟨key, value, writes_plain.mp h, rfl⟩
    | get key | ttl key | persist key | lpop key | rpop key =>
      exact parseKeyCommand_eq_ok.mpr ⟨key, writes_plain.mp h, rfl⟩
    | del keys | «exists» keys =>
      exact parseKeysCommand_eq_ok.mpr ⟨keys, writes_plain.mp h, hsendable, rfl⟩
    | expire key seconds =>
      obtain ⟨arg, hargs, harg⟩ := writes_seconds.mp h
      exact parseSecondsCommand_eq_ok.mpr ⟨key, arg, seconds, hargs, harg, rfl⟩
    | expireAt key seconds =>
      obtain ⟨arg, hargs, harg⟩ := writes_seconds.mp h
      exact parseSecondsCommand_eq_ok.mpr ⟨key, arg, seconds, hargs, harg, rfl⟩
    | lpush key values | rpush key values =>
      exact parsePushCommand_eq_ok.mpr ⟨key, values, writes_plain.mp h, hsendable, rfl⟩
    | lrange key start stop =>
      obtain ⟨first, last, hargs, hstart, hstop⟩ := writes_range.mp h
      exact parseLrange_eq_ok.mpr ⟨key, first, last, start, stop, hargs, hstart, hstop, rfl⟩
    | dbSize | info | aerugoStats =>
      cases h
      rfl
    | aerugoInspect limit =>
      obtain ⟨arg, hargs, harg⟩ := writes_limit.mp h
      exact parseInspect_eq_ok.mpr (Or.inr ⟨arg, limit, hargs, harg, hsendable, rfl⟩)

/-- **The requests of a command.**  A frame parses to a command if and only if it is one of
    the requests of that command and the command can be requested at all; every command
    that can be has a request. -/
theorem fromFrame_ok_iff (command : Command) :
    (∀ frame, Command.fromFrame frame = .ok command ↔
        command.Sendable ∧ Requests command frame) ∧
      (command.Sendable ↔ ∃ frame, Command.fromFrame frame = .ok command) := by
  have hparse : ∀ frame, Command.fromFrame frame = .ok command ↔
      command.Sendable ∧ Requests command frame := by
    intro frame
    constructor
    · intro h
      obtain ⟨name, args, rfl, hcommand⟩ := fromFrame_ok h
      obtain ⟨hname, hsendable, hargs⟩ := arguments_of_parse hcommand
      exact ⟨hsendable, .mk hname hargs⟩
    · rintro ⟨hsendable, hrequest⟩
      cases hrequest with
      | mk hname hargs =>
        rw [fromFrame_commandFrame, hname]
        exact parseCommand_of_arguments hsendable hargs
  refine ⟨hparse, ?_, ?_⟩
  · intro hsendable
    obtain ⟨args, hargs⟩ := exists_writes_all command.words
    have hname : toAsciiUppercase command.name = command.name := by
      cases command <;> simp only [Command.name] <;> rfl
    exact ⟨_, (hparse _).mpr ⟨hsendable, .mk hname (.written hargs)⟩⟩
  · rintro ⟨frame, hframe⟩
    exact ((hparse frame).mp hframe).1

end AerugoCache.Commands
