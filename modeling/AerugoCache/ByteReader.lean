import AerugoCache.ByteText

/-!
# Reading a byte stream

A buffered reader over a finite stream is the list of bytes still to come.
Reading a line, reading an exact number of bytes and trimming a line ending are
total functions on such lists; each read returns what it took and what is left.
-/

namespace AerugoCache.ByteReader

open AerugoCache.ByteText

/-- The byte of an ASCII character. -/
def ascii (c : Char) : UInt8 := UInt8.ofNat c.toNat

def crlf : Bytes := [ascii '\r', ascii '\n']

theorem ascii_notMem_utf8 {c : Char} (hc : c.toNat < 128) {text : String} (h : c ∉ text.toList) :
    ascii c ∉ utf8 text :=
  fun hmem => h ((mem_utf8_ascii hc).mp hmem)

/-! ### Lines -/

/-- `read_until`: everything up to and including the first `delimiter`, or up to
    the end of the stream. -/
def readUntil (delimiter : UInt8) : Bytes → Bytes × Bytes
  | [] => ([], [])
  | byte :: rest =>
      if byte = delimiter then ([byte], rest)
      else (byte :: (readUntil delimiter rest).1, (readUntil delimiter rest).2)

theorem readUntil_line {delimiter : UInt8} {line : Bytes} (h : delimiter ∉ line) (rest : Bytes) :
    readUntil delimiter (line ++ delimiter :: rest) = (line ++ [delimiter], rest) := by
  induction line with
  | nil => simp [readUntil]
  | cons byte line ih =>
    have hne : byte ≠ delimiter := fun heq => h (heq ▸ List.mem_cons_self)
    have hline : delimiter ∉ line := fun hmem => h (List.mem_cons_of_mem _ hmem)
    simp [readUntil, hne, ih hline]

/-- A line that the end of the stream cuts off is read whole. -/
theorem readUntil_of_notMem {delimiter : UInt8} {line : Bytes} (h : delimiter ∉ line) :
    readUntil delimiter line = (line, []) := by
  induction line with
  | nil => rfl
  | cons byte line ih =>
    rw [List.mem_cons, not_or] at h
    simp [readUntil, Ne.symm h.1, ih h.2]

/-- A line and what follows it are the stream. -/
theorem readUntil_append (delimiter : UInt8) (stream : Bytes) :
    (readUntil delimiter stream).1 ++ (readUntil delimiter stream).2 = stream := by
  induction stream with
  | nil => rfl
  | cons byte stream ih =>
    rw [readUntil]
    split
    · rfl
    · rw [List.cons_append, ih]

/-- Only at the end of the stream is no line left. -/
theorem readUntil_fst_eq_nil {delimiter : UInt8} {stream : Bytes} :
    (readUntil delimiter stream).1 = [] ↔ stream = [] := by
  cases stream with
  | nil => simp [readUntil]
  | cons byte stream =>
    rw [readUntil]
    split <;> simp

theorem length_readUntil_snd_lt {delimiter : UInt8} {stream : Bytes}
    (h : (readUntil delimiter stream).1 ≠ []) :
    (readUntil delimiter stream).2.length < stream.length := by
  have hline := List.length_pos_iff.mpr h
  have hlength := congrArg List.length (readUntil_append delimiter stream)
  rw [List.length_append] at hlength
  omega

/-- `strip_suffix`. -/
def stripSuffix (suffix line : Bytes) : Option Bytes :=
  if suffix <:+ line then some (line.take (line.length - suffix.length)) else none

theorem stripSuffix_append (line suffix : Bytes) :
    stripSuffix suffix (line ++ suffix) = some line := by
  rw [stripSuffix, if_pos (List.suffix_append line suffix)]
  simp

theorem stripSuffix_of_notMem {suffix line : Bytes} {byte : UInt8} (hsuffix : byte ∈ suffix)
    (hline : byte ∉ line) : stripSuffix suffix line = none := by
  rw [stripSuffix, if_neg]
  intro hend
  exact hline (hend.subset hsuffix)

theorem eq_append_of_stripSuffix {suffix line trimmed : Bytes}
    (h : stripSuffix suffix line = some trimmed) : line = trimmed ++ suffix := by
  unfold stripSuffix at h
  split at h
  · rename_i hsuffix
    obtain ⟨start, rfl⟩ := hsuffix
    simpa using h
  · cases h

/-! ### Exact reads -/

/-- `read_exact`, or `none` when the stream ends first. -/
def readExact (count : Nat) (stream : Bytes) : Option (Bytes × Bytes) :=
  if count ≤ stream.length then some (stream.take count, stream.drop count) else none

theorem readExact_append {count : Nat} {bytes : Bytes} (h : bytes.length = count) (rest : Bytes) :
    readExact count (bytes ++ rest) = some (bytes, rest) := by
  subst h
  simp [readExact]

theorem append_of_readExact {count : Nat} {stream bytes rest : Bytes}
    (h : readExact count stream = some (bytes, rest)) :
    bytes.length = count ∧ stream = bytes ++ rest := by
  unfold readExact at h
  split at h
  · rename_i hcount
    cases h
    exact ⟨List.length_take_of_le hcount, (List.take_append_drop count stream).symm⟩
  · cases h

end AerugoCache.ByteReader
