import Mathlib.Algebra.Order.BigOperators.Group.List
import AerugoCache.DecodeProgress
import AerugoCache.InlineCommand
import AerugoCache.LengthHeaders

/-!
# The frames that a stream can hold

Whatever bytes it is given, the decoder only returns frames that can be sent on: their
lengths fit their headers, their simple texts hold no line feed, and the one error in
them stands for a blank line.  Such a frame is read back as itself unless there is a
blank line in it.
-/

namespace AerugoCache.Protocol

open AerugoCache.ByteText AerugoCache.ByteReader AerugoCache.Fallible

/-- What `read_frame` answers to a blank line. -/
def EMPTY_REQUEST : String := "ERR empty request"

structure Frame.Decoded (frame : Frame) : Prop where
  fits : frame.Fits .unlimited
  errors : ∀ text, .error text ∈ frame.subframes → text = EMPTY_REQUEST
  simples : ∀ text, .simple text ∈ frame.subframes → '\n' ∉ text.toList

theorem Frame.Decoded.item {items : List Frame} {item : Frame} (h : (Frame.array items).Decoded)
    (hitem : item ∈ items) : item.Decoded where
  fits := h.fits.item hitem
  errors text hmem := h.errors text (Frame.mem_subframes_array.mpr (Or.inr ⟨item, hitem, hmem⟩))
  simples text hmem := h.simples text (Frame.mem_subframes_array.mpr (Or.inr ⟨item, hitem, hmem⟩))

theorem Frame.Decoded.array {items : List Frame} (hlength : items.length < 2 ^ 64)
    (h : ∀ item ∈ items, item.Decoded) : (Frame.array items).Decoded where
  fits := by
    intro sub hsub
    rcases Frame.mem_subframes_array.mp hsub with rfl | ⟨item, hitem, hmem⟩
    · exact ⟨hlength, rfl⟩
    · exact (h item hitem).fits sub hmem
  errors := by
    intro text hmem
    rcases Frame.mem_subframes_array.mp hmem with heq | ⟨item, hitem, hsub⟩
    · cases heq
    · exact (h item hitem).errors text hsub
  simples := by
    intro text hmem
    rcases Frame.mem_subframes_array.mp hmem with heq | ⟨item, hitem, hsub⟩
    · cases heq
    · exact (h item hitem).simples text hsub

theorem Frame.Decoded.bulk {value : Bytes} (h : value.length < 2 ^ 63) :
    (Frame.bulk value).Decoded := by
  constructor
  · intro sub hsub
    rw [show sub = .bulk value by simpa [Frame.subframes] using hsub]
    exact ⟨h, rfl⟩
  · intro text hmem
    simp [Frame.subframes] at hmem
  · intro text hmem
    simp [Frame.subframes] at hmem

/-- A frame that is its only subframe, and no bulk and no array. -/
theorem Frame.Decoded.leaf {frame : Frame} (hleaf : frame.subframes = [frame])
    (hheld : frame.Held .unlimited) (herror : ∀ text, frame = .error text → text = EMPTY_REQUEST)
    (hsimple : ∀ text, frame = .simple text → '\n' ∉ text.toList) : frame.Decoded := by
  constructor
  · intro sub hsub
    rw [hleaf, List.mem_singleton] at hsub
    exact hsub ▸ hheld
  · intro text hmem
    rw [hleaf, List.mem_singleton] at hmem
    exact herror text hmem.symm
  · intro text hmem
    rw [hleaf, List.mem_singleton] at hmem
    exact hsimple text hmem.symm

theorem Frame.Decoded.null : Frame.null.Decoded := by
  refine .leaf rfl trivial ?_ ?_ <;> intro text h <;> cases h

theorem Frame.Decoded.integer (value : Int64) : (Frame.integer value).Decoded := by
  refine .leaf rfl trivial ?_ ?_ <;> intro text h <;> cases h

theorem Frame.Decoded.simple {value : String} (h : '\n' ∉ value.toList) :
    (Frame.simple value).Decoded := by
  refine .leaf rfl trivial ?_ ?_ <;> intro text heq <;> cases heq
  exact h

theorem Frame.Decoded.emptyRequest : (Frame.error EMPTY_REQUEST).Decoded := by
  refine .leaf rfl trivial ?_ ?_ <;> intro text h <;> cases h
  rfl

/-! ### Inline requests -/

theorem splitOnP_flatten_sublist (p : UInt8 → Bool) (line : Bytes) :
    (line.splitOnP p).flatten.Sublist line := by
  induction line with
  | nil => exact List.Sublist.refl _
  | cons byte line ih =>
    rw [List.splitOnP_cons_eq_if_modifyHead]
    split
    · exact ih.cons byte
    · obtain ⟨first, rest, hsplit⟩ := List.exists_cons_of_ne_nil (List.splitOnP_ne_nil p line)
      rw [hsplit] at ih ⊢
      exact ih.cons_cons byte

/-- The words of a line take no more bytes than the line, and each takes one. -/
theorem length_words (line : Bytes) :
    (words line).length ≤ line.length ∧ ∀ word ∈ words line, word.length ≤ line.length := by
  have hflat : (words line).flatten.length ≤ line.length := by
    have hkept : (words line).flatten.Sublist (line.splitOnP isAsciiWhitespace).flatten :=
      List.filter_sublist.flatten
    exact (hkept.trans (splitOnP_flatten_sublist _ line)).length_le
  have hword : ∀ word ∈ words line, 1 ≤ word.length := by
    intro word hmem
    have hne := (List.mem_filter.mp hmem).2
    cases word with
    | nil => cases hne
    | cons byte word => exact Nat.succ_pos _
  rw [List.length_flatten] at hflat
  constructor
  · have hcount := List.card_nsmul_le_sum ((words line).map List.length) 1 (by simpa using hword)
    exact Nat.le_trans (by simpa using hcount) hflat
  · intro word hmem
    exact Nat.le_trans (List.single_le_sum (fun _ _ => Nat.zero_le _) _
      (List.mem_map_of_mem hmem)) hflat

theorem decoded_inline {line : Bytes} (h : line.length < 2 ^ 63) :
    (parseInlineCommand line).Decoded := by
  obtain ⟨hcount, hwords⟩ := length_words line
  rw [parseInlineCommand_words]
  apply Frame.Decoded.array
  · rw [List.length_map]
    omega
  · intro item hitem
    obtain ⟨word, hword, rfl⟩ := List.mem_map.mp hitem
    have hlength := hwords word hword
    exact Frame.Decoded.bulk (by omega)

/-! ### Lines -/

theorem trimCrlf_begins (line : Bytes) : trimCrlf line <+: line := by
  unfold trimCrlf
  split
  · rename_i trimmed h
    rw [eq_append_of_stripSuffix h]
    exact List.prefix_append trimmed _
  · cases h : stripSuffix [ascii '\n'] line with
    | none => exact List.prefix_rfl
    | some trimmed =>
      rw [eq_append_of_stripSuffix h]
      exact List.prefix_append trimmed _

/-- A trimmed line holds no line feed. -/
theorem newline_notMem_trimCrlf (stream : Bytes) :
    ascii '\n' ∉ trimCrlf (readUntil (ascii '\n') stream).1 := by
  by_cases hline : ascii '\n' ∈ stream
  · obtain ⟨text, rest, rfl, htext⟩ := List.eq_append_cons_of_mem hline
    rw [readUntil_line htext]
    rcases trimCrlf_newline text with htrim | ⟨trimmed, rfl, htrim⟩
    · rwa [htrim]
    · rw [htrim]
      exact fun hmem => htext (List.mem_append_left _ hmem)
  · rw [readUntil_of_notMem hline]
    exact fun hmem => hline ((trimCrlf_begins stream).subset hmem)

theorem length_trimmed_le (stream : Bytes) :
    (trimCrlf (readUntil (ascii '\n') stream).1).length ≤ stream.length := by
  have hline := congrArg List.length (readUntil_append (ascii '\n') stream)
  have htrim := (trimCrlf_begins (readUntil (ascii '\n') stream).1).length_le
  rw [List.length_append] at hline
  omega

/-- What a header says of the frame it is the whole of, or of the length it announces. -/
inductive Header.Sound : Header → Prop where
  | items {len : Nat} (h : len < 2 ^ 64) : Sound (.items len)
  | payload {len : Nat} (h : len < 2 ^ 63) : Sound (.payload len)
  | whole {frame : Frame} (h : frame.Decoded) : Sound (.whole frame)
  | malformed {error : ReadError} : Sound (.malformed error)

theorem parsedHeader_sound {α : Type} {header : α → Header} {parsed : Except ReadError α}
    (h : ∀ value, parsed = .ok value → (header value).Sound) :
    (parsedHeader header parsed).Sound := by
  cases parsed with
  | error error => exact .malformed
  | ok value => exact h value rfl

theorem parseUsize_lt {bytes : Bytes} {len : Nat} (h : parseUsize bytes = .ok len) :
    len < 2 ^ 64 := by
  obtain ⟨value, -, h⟩ := bind_ok h
  split at h
  · rename_i parsed hparsed
    cases h
    exact of_decide_eq_true (Option.filter_eq_some_iff.mp hparsed).2
  · cases h

theorem utf8_of_simple {bytes : Bytes} {value : String} (h : bytesToString bytes = .ok value) :
    utf8 value = bytes := by
  unfold bytesToString at h
  split at h
  · rename_i hvalid
    cases h
    exact utf8_of_fromUtf8 hvalid
  · cases h

theorem lineHeader_sound {line : Bytes} (hlength : line.length < 2 ^ 63)
    (hline : ascii '\n' ∉ line) : (lineHeader line).Sound := by
  cases line with
  | nil => exact .whole .emptyRequest
  | cons kind text =>
    have htext : ascii '\n' ∉ text := fun hmem => hline (List.mem_cons_of_mem _ hmem)
    rw [lineHeader]
    split_ifs
    · exact parsedHeader_sound fun len hlen => .items (parseUsize_lt hlen)
    · refine parsedHeader_sound fun len _ => ?_
      have hmax := len.toInt_lt
      unfold bulkHeader
      split_ifs
      · exact .whole .null
      · exact .malformed
      · exact .payload (by omega)
    · refine parsedHeader_sound fun value hvalue => .whole (.simple ?_)
      rw [← utf8_of_simple hvalue] at htext
      exact fun hmem => htext ((mem_utf8_ascii (by decide)).mpr hmem)
    · exact parsedHeader_sound fun value _ => .whole (.integer value)
    · exact .whole (decoded_inline hlength)

/-! ### Frames -/

/-- A reader that returns decoded frames on streams that a machine can hold. -/
def DecodedReader (next : FrameReader) : Prop :=
  ∀ stream frame rest, stream.length < 2 ^ 63 → next stream = .ok (some frame, rest) →
    frame.Decoded

theorem readItems_decoded {next : FrameReader} (hnext : DecodedReader next)
    (hprogress : Progresses next) {len : Nat} {stream rest : Bytes} {items : List Frame}
    (hlength : stream.length < 2 ^ 63) (h : readItems next len stream = .ok (items, rest)) :
    ∀ item ∈ items, item.Decoded := by
  induction len generalizing stream items with
  | zero =>
    cases h
    exact fun _ hitem => absurd hitem List.not_mem_nil
  | succ len ih =>
    rw [readItems] at h
    split at h
    · cases h
    · cases h
    · rename_i frame middle hframe
      split at h
      · cases h
      · rename_i frames last hitems
        cases h
        have hshort := hprogress stream frame middle hframe
        intro item hitem
        rcases List.mem_cons.mp hitem with rfl | hitem
        · exact hnext stream item middle hlength hframe
        · exact ih (by omega) hitems item hitem

theorem readFrameFuel_decoded (heap : Allocator) (fuel : Nat) :
    DecodedReader (readFrameFuel heap fuel) := by
  induction fuel with
  | zero =>
    intro stream frame rest _ h
    cases h
  | succ fuel ih =>
    intro stream frame rest hlength h
    by_cases hstream : stream = []
    · subst hstream
      cases h
    · have hshort := length_afterLine_lt hstream
      have htrimmed := length_trimmed_le stream
      have hheader : (firstHeader stream).Sound :=
        lineHeader_sound (by omega) (newline_notMem_trimCrlf stream)
      rw [readFrameFuel_succ heap fuel hstream] at h
      generalize firstHeader stream = header at hheader h
      cases hheader with
      | items hlen =>
        rename_i len
        rw [readRest] at h
        split at h
        · rcases hitems : readItems (readFrameFuel heap fuel) len (afterLine stream) with
            error | ⟨items, last⟩
          · rw [hitems] at h
            cases h
          · rw [hitems] at h
            cases h
            have hprogress := readFrameFuel_progresses heap fuel
            obtain ⟨hcount, -⟩ := readItems_ok hprogress hitems
            exact .array (by omega) (readItems_decoded ih hprogress (by omega) hitems)
        · cases h
      | payload hlen =>
        rename_i len
        rw [readRest] at h
        split at h
        · rcases hpayload : readPayload len (afterLine stream) with error | ⟨item, last⟩
          · rw [hpayload] at h
            cases h
          · rw [hpayload] at h
            cases h
            obtain ⟨value, hvalue, rfl, -⟩ := readPayload_ok hpayload
            exact .bulk (by omega)
        · cases h
      | whole hframe =>
        cases h
        exact hframe
      | malformed => cases h

/-- **What the decoder returns** can be sent on. -/
theorem readFrame_decoded {heap : Allocator} {stream rest : Bytes} {frame : Frame}
    (hlength : stream.length < 2 ^ 63) (h : readFrame heap stream = .ok (some frame, rest)) :
    frame.Decoded :=
  readFrameFuel_decoded heap _ stream frame rest hlength h

/-! ### Sending a decoded frame on -/

/-- A frame that fits one allocator fits the unlimited one. -/
theorem Frame.Fits.unlimited {heap : Allocator} {frame : Frame} (h : frame.Fits heap) :
    frame.Fits .unlimited := by
  intro sub hsub
  have hheld := h sub hsub
  cases sub with
  | bulk value => exact ⟨hheld.1, rfl⟩
  | array items => exact ⟨hheld.1, rfl⟩
  | simple | error | integer | null => trivial

/-- No blank line went into the frame. -/
def Frame.WithoutBlank (frame : Frame) : Prop :=
  ∀ text, .error text ∉ frame.subframes

theorem Frame.Decoded.readable {frame : Frame} (h : frame.Decoded) (hblank : frame.WithoutBlank) :
    frame.Readable :=
  ⟨hblank, h.simples⟩

/-- Items that are read back as themselves hold no blank line, the first one first. -/
theorem readItems_withoutBlank {fuel : Nat} {items : List Frame}
    (hdecoded : ∀ item ∈ items, item.Decoded)
    (hfuel : ∀ item ∈ items, (writeFrame item).length ≤ fuel)
    (hitems : ∀ item ∈ items, ∀ rest last,
      readFrameFuel .unlimited fuel (writeFrame item ++ rest) = .ok (some item, last) →
      item.WithoutBlank) {rest last : Bytes}
    (h : readItems (readFrameFuel .unlimited fuel) items.length
      (items.flatMap writeFrame ++ rest) = .ok (items, last)) :
    ∀ item ∈ items, item.WithoutBlank := by
  induction items with
  | nil => exact fun _ hitem => absurd hitem List.not_mem_nil
  | cons item items ih =>
    have hmem : item ∈ item :: items := List.mem_cons_self
    rw [List.flatMap_cons, List.append_assoc, List.length_cons, readItems] at h
    split at h
    · cases h
    · cases h
    · rename_i frame middle hframe
      split at h
      · cases h
      · rename_i frames final htail
        simp only [Except.ok.injEq, Prod.mk.injEq, List.cons.injEq] at h
        obtain ⟨⟨rfl, rfl⟩, rfl⟩ := h
        have hblank := hitems frame hmem _ _ hframe
        have hread := readFrameFuel_writeFrame .unlimited frame
          ((hdecoded frame hmem).readable hblank) (hdecoded frame hmem).fits fuel (hfuel frame hmem)
          (frames.flatMap writeFrame ++ rest)
        rw [hread] at hframe
        cases hframe
        have hothers := ih (fun i hi => hdecoded i (List.mem_cons_of_mem _ hi))
          (fun i hi => hfuel i (List.mem_cons_of_mem _ hi))
          (fun i hi => hitems i (List.mem_cons_of_mem _ hi)) htail
        intro other hother
        rcases List.mem_cons.mp hother with rfl | hother
        · exact hblank
        · exact hothers other hother

theorem withoutBlank_of_readFrameFuel (frame : Frame) :
    frame.Decoded → ∀ fuel, (writeFrame frame).length ≤ fuel → ∀ rest last,
      readFrameFuel .unlimited fuel (writeFrame frame ++ rest) = .ok (some frame, last) →
      frame.WithoutBlank := by
  induction frame using Frame.induction with
  | error value =>
    intro hdecoded fuel hfuel rest last h
    obtain ⟨fuel, rfl⟩ := exists_fuel hfuel
    -- the type byte of an error starts an inline request
    rw [hdecoded.errors value (Frame.self_mem_subframes _), writeFrame_error,
      readFrameFuel_headerLine .unlimited fuel (by decide) (by decide)] at h
    cases h
  | array items ih =>
    intro hdecoded fuel hfuel rest last h
    obtain ⟨fuel, rfl⟩ := exists_fuel hfuel
    have hline : '\n' ∉ (toString items.length).toList := newline_notMem_toString items.length
    obtain ⟨hlength, -⟩ : items.length < 2 ^ 64 ∧ _ := hdecoded.fits.held
    rw [writeFrame_array, List.append_assoc,
      readFrameFuel_headerLine .unlimited fuel (by decide) hline] at h
    change (readArray .unlimited (readFrameFuel .unlimited fuel) (utf8 (toString items.length))
      _).map _ = _ at h
    have hgrant : Allocator.unlimited.frames items.length = true := rfl
    rw [readArray_header, parseUsize_toString hlength, parsedHeader, readRest, if_pos hgrant] at h
    rcases hitems : readItems (readFrameFuel .unlimited fuel) items.length
      (items.flatMap writeFrame ++ rest) with error | ⟨frames, final⟩
    · rw [hitems] at h
      cases h
    · rw [hitems] at h
      cases h
      have hshort : ∀ item ∈ items, (writeFrame item).length ≤ fuel := by
        intro item hitem
        have hlt := length_writeFrame_le hitem
        omega
      have hblank := readItems_withoutBlank (fun item hitem => hdecoded.item hitem) hshort
        (fun item hitem => ih item hitem (hdecoded.item hitem) fuel (hshort item hitem)) hitems
      intro text hmem
      rcases Frame.mem_subframes_array.mp hmem with heq | ⟨item, hitem, hsub⟩
      · cases heq
      · exact hblank item hitem text hsub
  | simple | integer | bulk | null =>
    intro _ _ _ _ _ _ text hmem
    simp [Frame.subframes] at hmem

/-- **A decoded frame is read back as itself** unless there is a blank line in it: its
    lengths fit, its simple texts are lines, its only error is the one for a blank line, and
    its encoding decodes to it, whatever follows, exactly when there is no such error. -/
theorem decoded_reads_back {heap : Allocator} {stream rest : Bytes} {frame : Frame}
    (hlength : stream.length < 2 ^ 63) (h : readFrame heap stream = .ok (some frame, rest)) :
    frame.Decoded ∧
      ((∀ more, readFrame .unlimited (writeFrame frame ++ more) = .ok (some frame, more)) ↔
        frame.WithoutBlank) := by
  have hdecoded := readFrame_decoded hlength h
  refine ⟨hdecoded, ?_, ?_⟩
  · intro hback
    refine withoutBlank_of_readFrameFuel frame hdecoded _ ?_ [] [] (hback [])
    rw [List.append_nil]
    omega
  · intro hblank more
    exact readFrame_writeFrame (hdecoded.readable hblank) hdecoded.fits more

/-- An array with a blank line in it comes back as another one. -/
theorem decoded_reads_back_blank :
    ∃ frame, readFrame .unlimited (utf8 "*2\r\n\r\n:7\r\n") = .ok (some frame, []) ∧
      frame.Decoded ∧
      ¬ ∀ more, readFrame .unlimited (writeFrame frame ++ more) = .ok (some frame, more) := by
  have hread : readFrame .unlimited (utf8 "*2\r\n\r\n:7\r\n") =
      .ok (some (.array [.error "ERR empty request", .integer 7]), []) := rfl
  obtain ⟨hdecoded, hback⟩ := decoded_reads_back (by decide) hread
  refine ⟨_, hread, hdecoded, ?_⟩
  intro hall
  exact hback.mp hall "ERR empty request" (by simp [Frame.subframes, subframesOf])

end AerugoCache.Protocol
