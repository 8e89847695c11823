import Mathlib.Algebra.Group.Int.Defs
import AerugoCache.RespParser

/-!
# Decoding inverts encoding

`read_frame` on the bytes of `write_frame` followed by anything returns the frame
and leaves what follows, for every frame without an error frame in it and without
a line feed in a simple text.  The proof goes down the header line: the first
read takes exactly the header, the dispatch is decided by the type byte, and the
announced length is what the payload or the items need.
-/

namespace AerugoCache.Protocol

open AerugoCache.ByteText AerugoCache.ByteReader

/-! ### One header line -/

theorem trimCrlf_append (line : Bytes) : trimCrlf (line ++ crlf) = line := by
  rw [trimCrlf, stripSuffix_append]

theorem readUntil_headerLine {kind : Char} {text : String} (hkind : ascii kind ≠ ascii '\n')
    (htext : '\n' ∉ text.toList) (rest : Bytes) :
    readUntil (ascii '\n') (headerLine kind text ++ rest) = (headerLine kind text, rest) := by
  have hline : ascii '\n' ∉ ascii kind :: (utf8 text ++ [ascii '\r']) := by
    simp only [List.mem_cons, List.mem_append, List.not_mem_nil, or_false, not_or]
    exact ⟨hkind.symm, ascii_notMem_utf8 (by decide) htext, by decide⟩
  simpa [headerLine, crlf] using readUntil_line hline rest

/-- Reading a header line dispatches on its type byte and text. -/
theorem readFrameFuel_headerLine (heap : Allocator) (fuel : Nat) {kind : Char} {text : String}
    (hkind : ascii kind ≠ ascii '\n') (htext : '\n' ∉ text.toList) (rest : Bytes) :
    readFrameFuel heap (fuel + 1) (headerLine kind text ++ rest) =
      (readLine heap (readFrameFuel heap fuel) (ascii kind :: utf8 text) rest).map
        fun (frame, rest) => (some frame, rest) := by
  have htrim : trimCrlf (headerLine kind text) = ascii kind :: utf8 text :=
    trimCrlf_append (ascii kind :: utf8 text)
  have hne : (headerLine kind text).isEmpty = false := rfl
  simp only [readFrameFuel, readUntil_headerLine hkind htext, htrim, hne, Bool.false_eq_true,
    if_false]

theorem bytesToString_utf8 (text : String) : bytesToString (utf8 text) = .ok text := by
  rw [bytesToString, fromUtf8_utf8]

theorem parseUsize_toString {n : Nat} (h : n < 2 ^ 64) :
    parseUsize (utf8 (toString n)) = .ok n := by
  rw [parseUsize, bytesToString_utf8]
  simp only [bind, Except.bind, parseUnsigned_toString h]

theorem parseI64_toString {v : Int} (hlow : -2 ^ 63 ≤ v) (hhigh : v < 2 ^ 63) :
    parseI64 (utf8 (toString v)) = .ok (Int64.ofInt v) := by
  rw [parseI64, bytesToString_utf8]
  have hparse : parseSigned (2 ^ 63) (toString v) = some v :=
    parseSigned_toString (by simpa using hlow) (by simpa using hhigh)
  simp only [bind, Except.bind, hparse]

/-- Printed numbers stay on their line. -/
theorem newline_notMem_toString (v : Int) : '\n' ∉ (toString v).toList :=
  notMem_toString (by decide) (by decide) v

/-! ### Frames the decoder understands -/

/-- The frames the encoding of which the decoder understands: no error frame at
    any depth, and no line feed in a simple text. -/
def Frame.Readable (frame : Frame) : Prop :=
  (∀ text, .error text ∉ frame.subframes) ∧
    ∀ text, .simple text ∈ frame.subframes → '\n' ∉ text.toList

theorem Frame.Fits.held {heap : Allocator} {frame : Frame} (h : frame.Fits heap) :
    frame.Held heap :=
  h frame frame.self_mem_subframes

theorem Frame.Fits.item {heap : Allocator} {items : List Frame} {item : Frame}
    (h : (Frame.array items).Fits heap) (hitem : item ∈ items) : item.Fits heap :=
  fun sub hsub => h sub (Frame.mem_subframes_array.mpr (Or.inr ⟨item, hitem, hsub⟩))

theorem Frame.Readable.item {items : List Frame} {item : Frame}
    (h : (Frame.array items).Readable) (hitem : item ∈ items) : item.Readable := by
  constructor
  · intro text hmem
    exact h.1 text (Frame.mem_subframes_array.mpr (Or.inr ⟨item, hitem, hmem⟩))
  · intro text hmem
    exact h.2 text (Frame.mem_subframes_array.mpr (Or.inr ⟨item, hitem, hmem⟩))

/-! ### One frame -/

theorem readBulk_write {heap : Allocator} {value : Bytes} (h : (Frame.bulk value).Held heap)
    (rest : Bytes) :
    readBulk heap (utf8 (toString value.length)) (value ++ crlf ++ rest) =
      .ok (.bulk value, rest) := by
  obtain ⟨hlen, hgrant⟩ := h
  have hparse : parseI64 (utf8 (toString value.length)) = .ok (Int64.ofInt value.length) :=
    parseI64_toString (v := value.length) (by omega) (by omega)
  have hint : (Int64.ofInt (value.length : Int)).toInt = value.length :=
    Int64.toInt_ofInt_of_le (by omega) (by omega)
  have hexact : readExact (value.length + 2) (value ++ crlf ++ rest) =
      some (value ++ crlf, rest) :=
    readExact_append (by simp [crlf]) rest
  have hminus : ¬ ((value.length : Int) = -1) := by omega
  have hneg : ¬ ((value.length : Int) < 0) := by omega
  simp only [readBulk, hparse, bind, Except.bind, hint, hminus, hneg, if_false, Int.toNat_natCast,
    hgrant, Bool.not_true, Bool.false_eq_true, pure, Except.pure, hexact]
  simp

theorem readItems_write {heap : Allocator} {fuel : Nat} {items : List Frame}
    (h : ∀ item ∈ items, ∀ rest,
      readFrameFuel heap fuel (writeFrame item ++ rest) = .ok (some item, rest)) (rest : Bytes) :
    readItems (readFrameFuel heap fuel) items.length (items.flatMap writeFrame ++ rest) =
      .ok (items, rest) := by
  induction items with
  | nil => rfl
  | cons item items ih =>
    have hitem := h item List.mem_cons_self (items.flatMap writeFrame ++ rest)
    have hitems := ih fun item hitem => h item (List.mem_cons_of_mem _ hitem)
    rw [List.flatMap_cons, List.append_assoc, List.length_cons, readItems]
    simp only [hitem, hitems]

theorem length_writeFrame_le {items : List Frame} {item : Frame} (h : item ∈ items) :
    (writeFrame item).length < (writeFrame (.array items)).length := by
  obtain ⟨before, after, rfl⟩ := List.append_of_mem h
  rw [writeFrame_array, headerLine]
  simp only [List.flatMap_append, List.flatMap_cons, List.length_append, List.length_cons]
  omega

theorem exists_fuel {frame : Frame} {fuel : Nat} (h : (writeFrame frame).length ≤ fuel) :
    ∃ fuel', fuel = fuel' + 1 := by
  have hpos : 0 < (writeFrame frame).length := by
    cases frame <;>
      simp [writeFrame_simple, writeFrame_error, writeFrame_integer, writeFrame_bulk,
        writeFrame_null, writeFrame_array, headerLine]
  exact ⟨fuel - 1, by omega⟩

theorem length_le_flatMap_writeFrame (frames : List Frame) :
    frames.length ≤ (frames.flatMap writeFrame).length := by
  induction frames with
  | nil => exact Nat.le_refl _
  | cons frame frames ih =>
    obtain ⟨fuel, hfuel⟩ := exists_fuel (Nat.le_refl (writeFrame frame).length)
    rw [List.flatMap_cons, List.length_append, List.length_cons]
    omega

/-- **Round trip of one frame.**  Fuel for the length of its own encoding is
    enough, whatever follows it on the stream. -/
theorem readFrameFuel_writeFrame (heap : Allocator) (frame : Frame) :
    frame.Readable → frame.Fits heap → ∀ fuel, (writeFrame frame).length ≤ fuel → ∀ rest,
      readFrameFuel heap fuel (writeFrame frame ++ rest) = .ok (some frame, rest) := by
  induction frame using Frame.induction with
  | simple value =>
    intro hread _ fuel hfuel rest
    obtain ⟨fuel, rfl⟩ := exists_fuel hfuel
    have htext := hread.2 value (Frame.self_mem_subframes _)
    rw [writeFrame_simple, readFrameFuel_headerLine heap fuel (by decide) htext]
    change (do let value ← bytesToString (utf8 value); return (Frame.simple value, rest) :
      Except ReadError _).map _ = _
    rw [bytesToString_utf8]
    rfl
  | error value =>
    intro hread
    exact absurd (Frame.self_mem_subframes _) (hread.1 value)
  | integer value =>
    intro _ _ fuel hfuel rest
    obtain ⟨fuel, rfl⟩ := exists_fuel hfuel
    have hline : '\n' ∉ (toString value).toList := newline_notMem_toString value.toInt
    have hparse : parseI64 (utf8 (toString value)) = .ok (Int64.ofInt value.toInt) :=
      parseI64_toString value.le_toInt value.toInt_lt
    rw [writeFrame_integer, readFrameFuel_headerLine heap fuel (by decide) hline]
    change (do let value ← parseI64 (utf8 (toString value)); return (Frame.integer value, rest) :
      Except ReadError _).map _ = _
    rw [hparse, Int64.ofInt_toInt]
    rfl
  | bulk value =>
    intro _ hfits fuel hfuel rest
    obtain ⟨fuel, rfl⟩ := exists_fuel hfuel
    have hline : '\n' ∉ (toString value.length).toList := newline_notMem_toString value.length
    rw [writeFrame_bulk, List.append_assoc, readFrameFuel_headerLine heap fuel (by decide) hline]
    change (readBulk heap (utf8 (toString value.length)) (value ++ crlf ++ rest)).map _ = _
    rw [readBulk_write hfits.held]
    rfl
  | null =>
    intro _ _ fuel hfuel rest
    obtain ⟨fuel, rfl⟩ := exists_fuel hfuel
    have hparse : parseI64 (utf8 (toString (-1 : Int))) = .ok (Int64.ofInt (-1)) :=
      parseI64_toString (by decide) (by decide)
    rw [writeFrame_null,
      readFrameFuel_headerLine heap fuel (by decide) (newline_notMem_toString (-1))]
    change (readBulk heap (utf8 (toString (-1 : Int))) rest).map _ = _
    rw [readBulk, hparse]
    rfl
  | array items ih =>
    intro hread hfits fuel hfuel rest
    obtain ⟨fuel, rfl⟩ := exists_fuel hfuel
    have hline : '\n' ∉ (toString items.length).toList := newline_notMem_toString items.length
    obtain ⟨hlen, hgrant⟩ : items.length < 2 ^ 64 ∧ heap.frames items.length = true := hfits.held
    have hitems : readItems (readFrameFuel heap fuel) items.length
        (items.flatMap writeFrame ++ rest) = .ok (items, rest) := by
      apply readItems_write
      intro item hitem
      have hshort := length_writeFrame_le hitem
      exact ih item hitem (hread.item hitem) (hfits.item hitem) fuel (by omega)
    rw [writeFrame_array, List.append_assoc,
      readFrameFuel_headerLine heap fuel (by decide) hline]
    change (readArray heap (readFrameFuel heap fuel) (utf8 (toString items.length)) _).map _ = _
    simp only [readArray, parseUsize_toString hlen, bind, Except.bind, hgrant, Bool.not_true,
      Bool.false_eq_true, if_false, pure, Except.pure, hitems, Except.map]

theorem readFrame_writeFrame {heap : Allocator} {frame : Frame} (hread : frame.Readable)
    (hfits : frame.Fits heap) (rest : Bytes) :
    readFrame heap (writeFrame frame ++ rest) = .ok (some frame, rest) := by
  apply readFrameFuel_writeFrame heap frame hread hfits
  rw [List.length_append]
  omega

theorem readFrame_nil (heap : Allocator) : readFrame heap [] = .ok (none, []) := rfl

/-! ### Arrays of bulks -/

/-- The frame of a command and of its record: an array of bulks. -/
def bulks (args : List Bytes) : Frame := .array (args.map Frame.bulk)

theorem mem_subframes_bulks {args : List Bytes} {sub : Frame} (h : sub ∈ (bulks args).subframes) :
    sub = bulks args ∨ ∃ arg ∈ args, sub = .bulk arg := by
  rcases Frame.mem_subframes_array.mp h with rfl | ⟨item, hitem, hmem⟩
  · exact Or.inl rfl
  · obtain ⟨arg, harg, rfl⟩ := List.mem_map.mp hitem
    refine Or.inr ⟨arg, harg, ?_⟩
    simpa [Frame.subframes] using hmem

theorem bulks_readable (args : List Bytes) : (bulks args).Readable := by
  constructor
  · intro text hmem
    rcases mem_subframes_bulks hmem with h | ⟨arg, -, h⟩ <;> cases h
  · intro text hmem
    rcases mem_subframes_bulks hmem with h | ⟨arg, -, h⟩ <;> cases h

/-- An array of bulks fits when its length does and each bulk does. -/
theorem bulks_fits {heap : Allocator} {args : List Bytes} :
    (bulks args).Fits heap ↔
      (bulks args).Held heap ∧ ∀ arg ∈ args, (Frame.bulk arg).Held heap := by
  constructor
  · intro hfits
    exact ⟨hfits.held, fun arg harg => (hfits.item (List.mem_map_of_mem harg)).held⟩
  · rintro ⟨hlength, hargs⟩ sub hsub
    rcases mem_subframes_bulks hsub with rfl | ⟨arg, harg, rfl⟩
    · exact hlength
    · exact hargs arg harg

/-! ### Whole streams -/

/-- `read_frame`, called again and again on `stream`, returns the given frames in
    order, each call leaving the reader at the first byte of the next frame, and
    then reports the end of the stream. -/
def ReadsExactly (heap : Allocator) : List Frame → Bytes → Prop
  | [], stream => readFrame heap stream = .ok (none, [])
  | frame :: frames, stream =>
      readFrame heap stream = .ok (some frame, frames.flatMap writeFrame) ∧
        ReadsExactly heap frames (frames.flatMap writeFrame)

theorem readsExactly_written (heap : Allocator) (frames : List Frame)
    (hread : ∀ frame ∈ frames, frame.Readable) (hfits : ∀ frame ∈ frames, frame.Fits heap) :
    ReadsExactly heap frames (frames.flatMap writeFrame) := by
  induction frames with
  | nil => exact readFrame_nil heap
  | cons frame frames ih =>
    refine ⟨?_, ih (fun f hf => hread f (List.mem_cons_of_mem _ hf))
      (fun f hf => hfits f (List.mem_cons_of_mem _ hf))⟩
    rw [List.flatMap_cons]
    exact readFrame_writeFrame (hread frame List.mem_cons_self)
      (hfits frame List.mem_cons_self) _

/-- A stream with a payload that looks like a header, a null, a nested array and
    a negative number. -/
theorem readsExactly_example :
    ReadsExactly .unlimited
      [.array [.bulk (utf8 "a\r\n$-1\r\n"), .null, .array [.integer (-5)]], .simple "OK"]
      ([Frame.array [.bulk (utf8 "a\r\n$-1\r\n"), .null, .array [.integer (-5)]],
        .simple "OK"].flatMap writeFrame) := by
  apply readsExactly_written
  · simp [Frame.Readable, Frame.subframes, subframesOf]
  · simp [Frame.Fits, Frame.Held, Frame.subframes, subframesOf, Allocator.unlimited, utf8]
    decide

end AerugoCache.Protocol
