import AerugoCache.CommandCodec

/-!
# Inline requests

A client may send a request as one line of words instead of an array of bulks.  Split
at every blank and rid of the empty pieces, the line gives its words however they are
laid out, so both ways to write a request are read as the same frame.
-/

namespace AerugoCache.Protocol

open AerugoCache.ByteText AerugoCache.ByteReader AerugoCache.Commands

/-! ### Words of a line -/

/-- The pieces between blanks that `parse_inline_command` keeps. -/
def words (line : Bytes) : List Bytes :=
  (line.splitOnP isAsciiWhitespace).filter fun arg => !arg.isEmpty

theorem parseInlineCommand_words (line : Bytes) : parseInlineCommand line = bulks (words line) :=
  rfl

theorem words_append_cons (left right : Bytes) {blank : UInt8}
    (h : isAsciiWhitespace blank = true) :
    words (left ++ blank :: right) = words left ++ words right := by
  rw [words, List.splitOnP_append_cons left right h, List.filter_append]
  rfl

theorem words_nil : words [] = [] := rfl

/-- An argument of a request: at least one byte, and no blank. -/
def IsWord (arg : Bytes) : Prop :=
  arg ≠ [] ∧ ∀ byte ∈ arg, isAsciiWhitespace byte = false

theorem IsWord.words {arg : Bytes} (h : IsWord arg) : words arg = [arg] := by
  rw [Protocol.words, List.splitOnP_eq_singleton h.2]
  simp [h.1]

/-- Blanks that a line can hold: all but the line feed. -/
def AreBlanks (gap : Bytes) : Prop :=
  ∀ byte ∈ gap, isAsciiWhitespace byte = true ∧ byte ≠ ascii '\n'

theorem words_blanks_append {gap : Bytes} (h : AreBlanks gap) (right : Bytes) :
    words (gap ++ right) = words right := by
  induction gap with
  | nil => rfl
  | cons blank gap ih =>
    have hblank := (h blank List.mem_cons_self).1
    rw [List.cons_append]
    calc words (blank :: (gap ++ right))
        = words [] ++ words (gap ++ right) := words_append_cons [] (gap ++ right) hblank
      _ = words (gap ++ right) := by rw [words_nil, List.nil_append]
      _ = words right := ih fun byte hbyte => h byte (List.mem_cons_of_mem _ hbyte)

/-- A gap ends the word before it. -/
theorem IsWord.words_gap {arg gap : Bytes} (harg : IsWord arg) (hne : gap ≠ [])
    (hgap : AreBlanks gap) (right : Bytes) :
    Protocol.words (arg ++ (gap ++ right)) = arg :: Protocol.words right := by
  obtain ⟨blank, gap, rfl⟩ := List.exists_cons_of_ne_nil hne
  have hblank := (hgap blank List.mem_cons_self).1
  rw [List.cons_append, words_append_cons arg _ hblank, harg.words,
    words_blanks_append (fun byte hbyte => hgap byte (List.mem_cons_of_mem _ hbyte))]
  rfl

/-! ### Layouts -/

/-- A line that lays out the arguments of a request: blanks, the first argument, then
    each further one after a gap, and blanks. -/
structure InlineLayout where
  leading : Bytes
  first : Bytes
  others : List (Bytes × Bytes)
  trailing : Bytes
  leading_blanks : AreBlanks leading
  first_word : IsWord first
  gaps : ∀ other ∈ others, other.1 ≠ [] ∧ AreBlanks other.1
  other_words : ∀ other ∈ others, IsWord other.2
  trailing_blanks : AreBlanks trailing

def InlineLayout.args (layout : InlineLayout) : List Bytes :=
  layout.first :: layout.others.map Prod.snd

/-- The line without its ending. -/
def InlineLayout.text (layout : InlineLayout) : Bytes :=
  layout.leading ++ (layout.first ++
    (layout.others.flatMap fun other => other.1 ++ other.2) ++ layout.trailing)

theorem words_others {first trailing : Bytes} {others : List (Bytes × Bytes)}
    (hfirst : IsWord first) (hgaps : ∀ other ∈ others, other.1 ≠ [] ∧ AreBlanks other.1)
    (hothers : ∀ other ∈ others, IsWord other.2) (htrailing : AreBlanks trailing) :
    words (first ++ (others.flatMap fun other => other.1 ++ other.2) ++ trailing) =
      first :: others.map Prod.snd := by
  induction others generalizing first with
  | nil =>
    rw [List.flatMap_nil, List.append_nil, List.map_nil]
    by_cases hne : trailing = []
    · rw [hne, List.append_nil, hfirst.words]
    · have hwords := hfirst.words_gap hne htrailing []
      rwa [List.append_nil, words_nil] at hwords
  | cons other others ih =>
    obtain ⟨hne, hblanks⟩ := hgaps other List.mem_cons_self
    have hrest := ih (hothers other List.mem_cons_self)
      (fun o ho => hgaps o (List.mem_cons_of_mem _ ho))
      (fun o ho => hothers o (List.mem_cons_of_mem _ ho))
    have hwords := hfirst.words_gap hne hblanks
      (other.2 ++ (others.flatMap fun other => other.1 ++ other.2) ++ trailing)
    rw [hrest] at hwords
    simpa only [List.flatMap_cons, List.append_assoc, List.map_cons] using hwords

/-- **A layout has its words**, however they are laid out. -/
theorem InlineLayout.words_text (layout : InlineLayout) : words layout.text = layout.args := by
  rw [text, words_blanks_append layout.leading_blanks]
  exact words_others layout.first_word layout.gaps layout.other_words layout.trailing_blanks

theorem AreBlanks.newline_notMem {gap : Bytes} (h : AreBlanks gap) : ascii '\n' ∉ gap :=
  fun hmem => (h _ hmem).2 rfl

theorem IsWord.newline_notMem {arg : Bytes} (h : IsWord arg) : ascii '\n' ∉ arg :=
  fun hmem => absurd (h.2 _ hmem) (by decide)

theorem InlineLayout.newline_notMem (layout : InlineLayout) : ascii '\n' ∉ layout.text := by
  simp only [text, List.mem_append, List.mem_flatMap, not_or, not_exists, not_and]
  refine ⟨layout.leading_blanks.newline_notMem, ⟨layout.first_word.newline_notMem, ?_⟩,
    layout.trailing_blanks.newline_notMem⟩
  intro other hother
  exact ⟨(layout.gaps other hother).2.newline_notMem,
    (layout.other_words other hother).newline_notMem⟩

/-! ### Reading a layout -/

theorem trimCrlf_newline (text : Bytes) :
    trimCrlf (text ++ [ascii '\n']) = text ∨
      ∃ trimmed, text = trimmed ++ [ascii '\r'] ∧ trimCrlf (text ++ [ascii '\n']) = trimmed := by
  rw [trimCrlf]
  split
  · rename_i trimmed h
    have heq := eq_append_of_stripSuffix h
    have hsplit : trimmed ++ crlf = trimmed ++ [ascii '\r'] ++ [ascii '\n'] := by simp [crlf]
    rw [hsplit] at heq
    exact Or.inr ⟨trimmed, List.append_cancel_right heq, rfl⟩
  · rw [stripSuffix_append]
    exact Or.inl rfl

/-- The two endings of a line. -/
def IsEnding (ending : Bytes) : Prop :=
  ending = [ascii '\n'] ∨ ending = crlf

/-- Trimming the ending leaves the words, also where it takes a carriage return that
    was a blank. -/
theorem words_trimCrlf {text ending : Bytes} (hending : IsEnding ending) :
    words (trimCrlf (text ++ ending)) = words text := by
  rcases hending with rfl | rfl
  · rcases trimCrlf_newline text with htrim | ⟨trimmed, rfl, htrim⟩
    · rw [htrim]
    · rw [htrim, words_append_cons trimmed [] (by decide), words_nil, List.append_nil]
  · rw [trimCrlf_append]

theorem trimCrlf_beginning (text : Bytes) {ending : Bytes} (hending : IsEnding ending) :
    trimCrlf (text ++ ending) <+: text := by
  rcases hending with rfl | rfl
  · rcases trimCrlf_newline text with htrim | ⟨trimmed, rfl, htrim⟩
    · rw [htrim]
    · rw [htrim]
      exact List.prefix_append trimmed _
  · rw [trimCrlf_append]

/-- A line starts an array, a bulk, a simple text or a number. -/
def StartsType (line : Bytes) : Prop :=
  ∃ kind ∈ [ascii '*', ascii '$', ascii '+', ascii ':'], line.head? = some kind

theorem readLine_inline {heap : Allocator} {next : Bytes → Except ReadError (Option Frame × Bytes)}
    {line : Bytes} (hne : line ≠ []) (hkind : ¬ StartsType line) (stream : Bytes) :
    readLine heap next line stream = .ok (parseInlineCommand line, stream) := by
  cases line with
  | nil => exact absurd rfl hne
  | cons kind text =>
    have hother : ∀ special ∈ [ascii '*', ascii '$', ascii '+', ascii ':'], kind ≠ special :=
      fun special hspecial heq => hkind ⟨special, hspecial, by rw [heq, List.head?_cons]⟩
    rw [readLine, if_neg (hother _ (by simp)), if_neg (hother _ (by simp)),
      if_neg (hother _ (by simp)), if_neg (hother _ (by simp))]

theorem readUntil_ending {text ending : Bytes} (htext : ascii '\n' ∉ text)
    (hending : IsEnding ending) (rest : Bytes) :
    readUntil (ascii '\n') (text ++ ending ++ rest) = (text ++ ending, rest) := by
  rcases hending with rfl | rfl
  · simpa using readUntil_line htext rest
  · have hline : ascii '\n' ∉ text ++ [ascii '\r'] := by
      simp only [List.mem_append, List.mem_singleton, not_or]
      exact ⟨htext, by decide⟩
    simpa [crlf] using readUntil_line hline rest

/-- **One line is read as the array of its words.** -/
theorem readFrame_layout (heap : Allocator) (layout : InlineLayout)
    (hkind : ¬ StartsType layout.text) {ending : Bytes} (hending : IsEnding ending)
    (rest : Bytes) :
    readFrame heap (layout.text ++ ending ++ rest) = .ok (some (bulks layout.args), rest) := by
  have hwords : words (trimCrlf (layout.text ++ ending)) = layout.args := by
    rw [words_trimCrlf hending, layout.words_text]
  have hne : trimCrlf (layout.text ++ ending) ≠ [] := by
    intro hnil
    rw [hnil] at hwords
    cases hwords
  have htrimmed : ¬ StartsType (trimCrlf (layout.text ++ ending)) := by
    rintro ⟨kind, hmem, hhead⟩
    apply hkind
    obtain ⟨tail, htail⟩ := trimCrlf_beginning layout.text hending
    refine ⟨kind, hmem, ?_⟩
    rw [← htail, List.head?_append, hhead]
    rfl
  have hline : (layout.text ++ ending).isEmpty = false := by
    rcases hending with rfl | rfl <;> simp [crlf]
  rw [readFrame, readFrameFuel, readUntil_ending layout.newline_notMem hending]
  simp only [hline, Bool.false_eq_true, if_false, readLine_inline hne htrimmed,
    parseInlineCommand_words, hwords]
  rfl

/-- **Inline and array requests agree**: whatever follows them on the stream, both are
    read whole, as the same frame, and so as the same command. -/
theorem inline_agrees (heap : Allocator) (layout : InlineLayout)
    (hkind : ¬ StartsType layout.text) (hfits : (bulks layout.args).Fits heap) {ending : Bytes}
    (hending : IsEnding ending) (rest : Bytes) :
    ∃ frame, readFrame heap (layout.text ++ ending ++ rest) = .ok (some frame, rest) ∧
      readFrame heap (writeFrame (.array (layout.args.map Frame.bulk)) ++ rest) =
        .ok (some frame, rest) ∧
      Command.fromFrame frame = Command.fromFrame (.array (layout.args.map Frame.bulk)) :=
  ⟨bulks layout.args, readFrame_layout heap layout hkind hending rest,
    readFrame_writeFrame (bulks_readable layout.args) hfits rest, rfl⟩

/-- A line with a leading tab, runs of blanks, an argument that looks like a header and
    carriage returns before the ending. -/
def setLayout : InlineLayout where
  leading := utf8 "\t"
  first := utf8 "SET"
  others := [(utf8 "  ", utf8 "k"), (utf8 " \t\r", utf8 "$5")]
  trailing := utf8 "\r\r"
  leading_blanks := by unfold AreBlanks; decide +kernel
  first_word := by unfold IsWord; decide +kernel
  gaps := by unfold AreBlanks; decide +kernel
  other_words := by unfold IsWord; decide +kernel
  trailing_blanks := by unfold AreBlanks; decide +kernel

theorem inline_agrees_set :
    ∃ frame, readFrame .unlimited (setLayout.text ++ crlf ++ utf8 "PING\r\n") =
        .ok (some frame, utf8 "PING\r\n") ∧
      readFrame .unlimited (writeFrame (.array (setLayout.args.map Frame.bulk)) ++
        utf8 "PING\r\n") = .ok (some frame, utf8 "PING\r\n") ∧
      Command.fromFrame frame = Command.fromFrame (.array (setLayout.args.map Frame.bulk)) :=
  inline_agrees .unlimited setLayout (by unfold StartsType; decide)
    (bulks_fits.mpr ⟨by unfold Frame.Held bulks; decide, by unfold Frame.Held; decide⟩)
    (Or.inr rfl) _

end AerugoCache.Protocol
