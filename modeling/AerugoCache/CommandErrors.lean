import AerugoCache.CommandCodec
import AerugoCache.RespReply

/-!
# Errors of commands

Which error a frame that does not parse gets, and which error texts stay on one line.
All of them do, except the one that repeats an unknown name.
-/

namespace AerugoCache.Commands

open AerugoCache.ByteText AerugoCache.ByteReader AerugoCache.Fallible AerugoCache.Protocol
  AerugoCache.RespReply AerugoCache.Storage

def COMMAND_NAMES : List String := [
  "PING", "ECHO", "SET", "GET", "DEL", "EXISTS", "EXPIRE", "EXPIREAT", "TTL", "PERSIST", "LPUSH",
  "RPUSH", "LPOP", "RPOP", "LRANGE", "DBSIZE", "INFO", "AERUGO.STATS", "AERUGO.INSPECT"]

/-! ### Errors of the arguments -/

/-- The errors a command with a known name may get for its arguments. -/
def ArgumentError (name : String) (error : CommandError) : Prop :=
  error = .wrongArity name ∨ error = .invalidUtf8 ∨ error = .invalidInteger

theorem bytesToString_error {bytes : Bytes} {error : CommandError}
    (h : bytesToString bytes = .error error) : error = .invalidUtf8 := by
  unfold bytesToString at h
  split at h
  · cases h
  · cases h
    rfl

/-- The three number parsers: a text first, then a number. -/
theorem parseNumber_error {α : Type} {bytes : Bytes} {parse : String → Option α}
    {error : CommandError}
    (h : (bytesToString bytes >>= fun value => orInvalidInteger (parse value)) = .error error) :
    error = .invalidUtf8 ∨ error = .invalidInteger := by
  rcases bind_error h with htext | ⟨text, -, h⟩
  · exact Or.inl (bytesToString_error htext)
  · cases hvalue : parse text with
    | none =>
      rw [hvalue] at h
      cases h
      exact Or.inr rfl
    | some value =>
      rw [hvalue] at h
      cases h

theorem parseKeyCommand_error {name : String} {args : List Bytes} {build : String → Command}
    {error : CommandError} (h : parseKeyCommand name args build = .error error) :
    ArgumentError name error := by
  unfold parseKeyCommand at h
  split at h
  · rcases bind_error h with hkey | ⟨key, -, h⟩
    · exact Or.inr (Or.inl (bytesToString_error hkey))
    · cases h
  · cases h
    exact Or.inl rfl

theorem parseKeysCommand_error {name : String} {args : List Bytes}
    {build : List String → Command} {error : CommandError}
    (h : parseKeysCommand name args build = .error error) : ArgumentError name error := by
  unfold parseKeysCommand at h
  split at h
  · cases h
    exact Or.inl rfl
  · rcases bind_error h with hkeys | ⟨keys, -, h⟩
    · obtain ⟨arg, -, harg⟩ := mapM_error hkeys
      exact Or.inr (Or.inl (bytesToString_error harg))
    · cases h

theorem parseSecondsCommand_error {name : String} {args : List Bytes}
    {build : String → UInt64 → Command} {error : CommandError}
    (h : parseSecondsCommand name args build = .error error) : ArgumentError name error := by
  unfold parseSecondsCommand at h
  split at h
  · rcases bind_error h with hkey | ⟨key, -, h⟩
    · exact Or.inr (Or.inl (bytesToString_error hkey))
    · rcases bind_error h with hseconds | ⟨seconds, -, h⟩
      · exact Or.inr (parseNumber_error hseconds)
      · cases h
  · cases h
    exact Or.inl rfl

theorem parsePushCommand_error {name : String} {args : List Bytes}
    {build : String → List Bytes → Command} {error : CommandError}
    (h : parsePushCommand name args build = .error error) : ArgumentError name error := by
  unfold parsePushCommand at h
  split at h
  · rcases bind_error h with hkey | ⟨key, -, h⟩
    · exact Or.inr (Or.inl (bytesToString_error hkey))
    · cases h
  · cases h
    exact Or.inl rfl

theorem parseBareCommand_error {name : String} {args : List Bytes} {command : Command}
    {error : CommandError} (h : parseBareCommand name args command = .error error) :
    ArgumentError name error := by
  unfold parseBareCommand at h
  split at h
  · cases h
  · cases h
    exact Or.inl rfl

/-- A known name gives an error about the arguments, any other name itself. -/
theorem parseCommand_error {name : String} {args : List Bytes} {error : CommandError}
    (h : parseCommand name args = .error error) :
    (name ∈ COMMAND_NAMES ∧ ArgumentError name error) ∨ error = .unknown name := by
  unfold parseCommand at h
  split at h
  case h_1 | h_2 =>
    split at h <;> first
      | cases h; done
      | cases h; exact Or.inl ⟨by decide, Or.inl rfl⟩
  case h_3 =>
    refine Or.inl ⟨by decide, ?_⟩
    split at h
    · rcases bind_error h with hkey | ⟨key, -, h⟩
      · exact Or.inr (Or.inl (bytesToString_error hkey))
      · cases h
    · cases h
      exact Or.inl rfl
  case h_4 | h_9 | h_10 | h_13 | h_14 => exact Or.inl ⟨by decide, parseKeyCommand_error h⟩
  case h_5 | h_6 => exact Or.inl ⟨by decide, parseKeysCommand_error h⟩
  case h_7 | h_8 => exact Or.inl ⟨by decide, parseSecondsCommand_error h⟩
  case h_11 | h_12 => exact Or.inl ⟨by decide, parsePushCommand_error h⟩
  case h_15 =>
    refine Or.inl ⟨by decide, ?_⟩
    split at h
    · rcases bind_error h with hkey | ⟨key, -, h⟩
      · exact Or.inr (Or.inl (bytesToString_error hkey))
      · rcases bind_error h with hstart | ⟨start, -, h⟩
        · exact Or.inr (parseNumber_error hstart)
        · rcases bind_error h with hstop | ⟨stop, -, h⟩
          · exact Or.inr (parseNumber_error hstop)
          · cases h
    · cases h
      exact Or.inl rfl
  case h_16 | h_17 | h_18 => exact Or.inl ⟨by decide, parseBareCommand_error h⟩
  case h_19 =>
    refine Or.inl ⟨by decide, ?_⟩
    split at h
    · cases h
    · rcases bind_error h with hlimit | ⟨limit, -, h⟩
      · exact Or.inr (parseNumber_error hlimit)
      · cases h
    · cases h
      exact Or.inl rfl
  case h_20 =>
    cases h
    exact Or.inr rfl

theorem parseCommand_unknown {name : String} (h : name ∉ COMMAND_NAMES) (args : List Bytes) :
    parseCommand name args = .error (.unknown name) := by
  unfold parseCommand
  split <;> first
    | exact absurd (by decide) h
    | rfl

/-! ### Error texts -/

theorem oneLine_argumentError {name : String} {error : CommandError}
    (hname : name ∈ COMMAND_NAMES) (h : ArgumentError name error) :
    OneLine (utf8 error.display) := by
  have harity : ∀ name ∈ COMMAND_NAMES, OneLine (utf8 (CommandError.wrongArity name).display) := by
    decide +kernel
  rcases h with rfl | rfl | rfl
  · exact harity name hname
  · decide
  · decide

theorem oneLine_unknown (name : String) :
    OneLine (utf8 (CommandError.unknown name).display) ↔ OneLine (utf8 name) := by
  change OneLine (utf8 ("unknown command '" ++ name ++ "'")) ↔ _
  rw [utf8_append, utf8_append, oneLine_append, oneLine_append]
  exact ⟨fun h => h.1.2, fun h => ⟨⟨by decide, h⟩, by decide⟩⟩

theorem toUpper_eq_iff {c d : Char} (hd : d.toNat < 65) : c.toUpper = d ↔ c = d := by
  unfold Char.toUpper
  split
  · rename_i h
    have hlow : 97 ≤ c.val.toNat := by simpa [UInt32.le_iff_toNat_le] using h.1
    have hhigh : c.val.toNat ≤ 122 := by simpa [UInt32.le_iff_toNat_le] using h.2
    have hd' : d.val.toNat < 65 := hd
    constructor
    · intro heq
      have hval := congrArg (fun c : Char => c.val.toNat) heq
      simp only [UInt32.toNat_add] at hval
      have h32 : ('A'.val - 'a'.val).toNat = 2 ^ 32 - 32 := by decide
      rw [h32] at hval
      omega
    · rintro rfl
      omega
  · rfl

/-- Upper case keeps line breaks where they are. -/
theorem oneLine_toAsciiUppercase (name : String) :
    OneLine (utf8 (toAsciiUppercase name)) ↔ OneLine (utf8 name) := by
  have hmem : ∀ c : Char, c.toNat < 65 →
      (ascii c ∈ utf8 (toAsciiUppercase name) ↔ ascii c ∈ utf8 name) := by
    intro c hc
    rw [ascii, mem_utf8_ascii (Nat.lt_trans hc (by decide)),
      mem_utf8_ascii (Nat.lt_trans hc (by decide)), toAsciiUppercase, String.toList_ofList,
      List.mem_map]
    simp only [toUpper_eq_iff hc, exists_eq_right]
  rw [OneLine, OneLine, hmem '\r' (by decide), hmem '\n' (by decide)]

theorem oneLine_of_mem_names {name : String} (h : name ∈ COMMAND_NAMES) : OneLine (utf8 name) := by
  have hnames : ∀ name ∈ COMMAND_NAMES, OneLine (utf8 name) := by
    decide +kernel
  exact hnames name h

/-- A frame that does not parse gets an error on one line, or the error that repeats
    its unknown name. -/
theorem fromFrame_error {frame : Frame} {error : CommandError}
    (h : Command.fromFrame frame = .error error) :
    OneLine (utf8 error.display) ∨ ∃ name args, frame = commandFrame name args ∧
      error = .unknown (toAsciiUppercase name) := by
  cases frame with
  | array items =>
    rcases bind_error h with hargs | ⟨args, hargs, h⟩
    · obtain ⟨item, -, hitem⟩ := mapM_error hargs
      obtain rfl : error = .expectedBulk := by
        cases item <;> cases hitem <;> rfl
      exact Or.inl (by decide)
    · rw [← map_of_intoBulkArgs hargs]
      cases args with
      | nil =>
        cases h
        exact Or.inl (by decide)
      | cons name args =>
        rcases bind_error h with hname | ⟨commandName, hname, h⟩
        · rw [bytesToString_error hname]
          exact Or.inl (by decide)
        · rcases parseCommand_error h with ⟨hknown, hargument⟩ | rfl
          · exact Or.inl (oneLine_argumentError hknown hargument)
          · refine Or.inr ⟨commandName, args, ?_, rfl⟩
            rw [commandFrame, utf8_of_bytesToString hname]
  | simple | error | integer | bulk | null =>
    cases h
    exact Or.inl (by decide)

end AerugoCache.Commands
