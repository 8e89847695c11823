import Mathlib.Logic.Relation
import AerugoCache.DecodeProgress

/-!
# Which length headers the decoder survives

The nested decoder visits the headers of a stream in the order of their bytes, so it
can be followed with a counter instead of a stack: `HeaderStep` reads one header, and
a header of an array adds its items to those still to read.  A stream makes
`Vec::with_capacity` or `vec![0; len + 2]` panic or abort exactly when a header that is
reached so asks for a buffer that the machine refuses; more than `isize::MAX` bytes are
refused by every machine.
-/

namespace AerugoCache.Protocol

open AerugoCache.ByteText AerugoCache.ByteReader Relation

/-! ### Buffers -/

def ISIZE_MAX : Nat := 2 ^ 63 - 1

/-- `Vec` panics before it asks for more than `isize::MAX` bytes, whatever the machine has.
    A `Frame` takes `frameBytes` bytes. -/
structure Allocator.Limited (frameBytes : Nat) (heap : Allocator) : Prop where
  frames : ∀ len, ISIZE_MAX < len * frameBytes → heap.frames len = false
  bytes : ∀ len, ISIZE_MAX < len → heap.bytes len = false

/-- A machine that has this many bytes for one buffer. -/
def Allocator.upTo (limit frameBytes : Nat) : Allocator where
  frames len := decide (len * frameBytes ≤ limit)
  bytes len := decide (len ≤ limit)

theorem Allocator.upTo_limited {limit : Nat} (h : limit ≤ ISIZE_MAX) (frameBytes : Nat) :
    (Allocator.upTo limit frameBytes).Limited frameBytes where
  frames _ hlen := decide_eq_false (Nat.not_le.mpr (Nat.lt_of_le_of_lt h hlen))
  bytes _ hlen := decide_eq_false (Nat.not_le.mpr (Nat.lt_of_le_of_lt h hlen))

/-- The buffer that a header asks for is refused: a panic, or an abort where memory runs
    out. -/
def Header.Refused (heap : Allocator) : Header → Prop
  | .items len => heap.frames len = false
  | .payload len => heap.bytes (len + 2) = false
  | .whole _ | .malformed _ => False

/-- A length at the top of the range of `i64` or `usize`: of a bulk that has no room
    for the two bytes of its line ending, or of an array of which the frames alone
    take more than `isize::MAX` bytes. -/
def Header.Oversized (frameBytes : Nat) : Header → Prop
  | .items len => ISIZE_MAX < len * frameBytes
  | .payload len => ISIZE_MAX < len + 2
  | .whole _ | .malformed _ => False

theorem Header.Oversized.refused {heap : Allocator} {frameBytes : Nat}
    (hheap : heap.Limited frameBytes) {header : Header} (h : header.Oversized frameBytes) :
    header.Refused heap := by
  cases header with
  | items len => exact hheap.frames len h
  | payload len => exact hheap.bytes (len + 2) h
  | whole frame => exact h
  | malformed error => exact h

/-! ### Headers in the order of a stream -/

/-- So many items still to read, at the front of the stream. -/
abbrev Cursor := Nat × Bytes

inductive HeaderStep : Cursor → Cursor → Prop where
  | items {pending len : Nat} {stream : Bytes} (hne : stream ≠ [])
      (hheader : firstHeader stream = .items len) :
      HeaderStep (pending + 1, stream) (len + pending, afterLine stream)
  | payload {pending : Nat} {stream value rest : Bytes} (hne : stream ≠ [])
      (hheader : firstHeader stream = .payload value.length)
      (hrest : afterLine stream = value ++ crlf ++ rest) :
      HeaderStep (pending + 1, stream) (pending, rest)
  | whole {pending : Nat} {stream : Bytes} {frame : Frame} (hne : stream ≠ [])
      (hheader : firstHeader stream = .whole frame) :
      HeaderStep (pending + 1, stream) (pending, afterLine stream)

/-- Reading one frame at the front of `stream` gets to this header, with `rest` after
    its line. -/
def ReachesHeader (stream : Bytes) (header : Header) (rest : Bytes) : Prop :=
  ∃ pending here, ReflTransGen HeaderStep (1, stream) (pending + 1, here) ∧ here ≠ [] ∧
    firstHeader here = header ∧ afterLine here = rest

/-- The bytes after a header are what it announces. -/
def Header.Satisfied (rest : Bytes) : Header → Prop
  | .items len => ∃ last, ReflTransGen HeaderStep (len, rest) (0, last)
  | .payload len => ∃ value last, value.length = len ∧ rest = value ++ crlf ++ last
  | .whole _ => True
  | .malformed _ => False

/-! ### Reading items with a counter -/

/-- Reading some items and then some more. -/
theorem readItems_add (next : FrameReader) (first second : Nat) (stream : Bytes) :
    readItems next (first + second) stream =
      (readItems next first stream).bind fun (items, rest) =>
        (readItems next second rest).map fun (more, rest) => (items ++ more, rest) := by
  induction first generalizing stream with
  | zero =>
    rw [Nat.zero_add, readItems]
    simp only [Except.bind]
    cases readItems next second stream <;> rfl
  | succ first ih =>
    rw [Nat.succ_add, readItems, readItems]
    rcases next stream with error | ⟨_ | frame, rest⟩
    · rfl
    · rfl
    · simp only [ih]
      rcases readItems next first rest with error | ⟨items, middle⟩
      · rfl
      · simp only [Except.bind]
        cases readItems next second middle <;> rfl

/-- What is left of a stream when so many items are read. -/
def skipItems (heap : Allocator) (cursor : Cursor) : Except ReadError Bytes :=
  (readItems (readFrame heap) cursor.1 cursor.2).map Prod.snd

theorem skipItems_nil (heap : Allocator) (pending : Nat) :
    skipItems heap (pending + 1, []) =
      .error (.unexpectedEof "unexpected EOF while reading RESP array") := rfl

theorem skipItems_succ (heap : Allocator) (pending : Nat) {stream : Bytes} (h : stream ≠ []) :
    skipItems heap (pending + 1, stream) =
      (readRest heap (readFrame heap) (firstHeader stream) (afterLine stream)).bind
        fun (_, rest) => skipItems heap (pending, rest) := by
  rw [skipItems, readItems, readFrame_eq heap h]
  rcases readRest heap (readFrame heap) (firstHeader stream) (afterLine stream) with
    error | ⟨frame, rest⟩
  · rfl
  · simp only [Except.map, Except.bind, skipItems]
    cases readItems (readFrame heap) pending rest <;> rfl

theorem skipItems_add (heap : Allocator) (first second : Nat) (stream : Bytes) :
    skipItems heap (first + second, stream) =
      (skipItems heap (first, stream)).bind fun rest => skipItems heap (second, rest) := by
  simp only [skipItems, readItems_add]
  rcases readItems (readFrame heap) first stream with error | ⟨items, rest⟩
  · rfl
  · simp only [Except.map, Except.bind]
    cases readItems (readFrame heap) second rest <;> rfl

/-- A refused buffer ends the reading. -/
theorem skipItems_refused {heap : Allocator} {pending : Nat} {stream : Bytes} (h : stream ≠ [])
    (hrefused : (firstHeader stream).Refused heap) :
    skipItems heap (pending + 1, stream) = .error .capacityOverflow := by
  rw [skipItems_succ heap pending h]
  cases hheader : firstHeader stream with
  | items len =>
    rw [hheader] at hrefused
    rw [readRest, if_neg (by simpa [Header.Refused] using hrefused)]
    rfl
  | payload len =>
    rw [hheader] at hrefused
    rw [readRest, if_neg (by simpa [Header.Refused] using hrefused)]
    rfl
  | whole frame => exact absurd hrefused (by simp [hheader, Header.Refused])
  | malformed error => exact absurd hrefused (by simp [hheader, Header.Refused])

theorem readPayload_written (value rest : Bytes) :
    readPayload value.length (value ++ crlf ++ rest) = .ok (.bulk value, rest) := by
  have hexact : readExact (value.length + 2) (value ++ crlf ++ rest) =
      some (value ++ crlf, rest) :=
    readExact_append (by simp [crlf]) rest
  rw [readPayload, hexact]
  simp

/-- The nested decoder takes the steps of the counter. -/
theorem skipItems_step {heap : Allocator} {cursor cursor' : Cursor}
    (h : HeaderStep cursor cursor') (hgrant : ¬ (firstHeader cursor.2).Refused heap) :
    skipItems heap cursor = skipItems heap cursor' := by
  cases h with
  | @items pending len stream hne hheader =>
    have hframes : heap.frames len = true := by
      simpa [hheader, Header.Refused] using hgrant
    rw [skipItems_succ heap pending hne, skipItems_add, hheader, readRest, if_pos hframes,
      skipItems]
    rcases readItems (readFrame heap) len (afterLine stream) with error | ⟨items, rest⟩ <;> rfl
  | @payload pending stream value rest hne hheader hrest =>
    have hbytes : heap.bytes (value.length + 2) = true := by
      simpa [hheader, Header.Refused] using hgrant
    rw [skipItems_succ heap pending hne, hheader, readRest, if_pos hbytes, hrest,
      readPayload_written]
    rfl
  | @whole pending stream frame hne hheader =>
    rw [skipItems_succ heap pending hne, hheader]
    rfl

/-- Where the counter takes no step, the decoder fails. -/
theorem step_or_error {heap : Allocator} (pending : Nat) {stream : Bytes} (h : stream ≠ [])
    (hgrant : ¬ (firstHeader stream).Refused heap) :
    (∃ cursor, HeaderStep (pending + 1, stream) cursor) ∨
      ∃ error, skipItems heap (pending + 1, stream) = .error error ∧ error.IsIo := by
  cases hheader : firstHeader stream with
  | items len => exact Or.inl ⟨_, .items h hheader⟩
  | payload len =>
    have hbytes : heap.bytes (len + 2) = true := by
      simpa [hheader, Header.Refused] using hgrant
    rcases hpayload : readPayload len (afterLine stream) with error | ⟨frame, rest⟩
    · refine Or.inr ⟨error, ?_, readPayload_error hpayload⟩
      rw [skipItems_succ heap pending h, hheader, readRest, if_pos hbytes, hpayload]
      rfl
    · obtain ⟨value, rfl, -, hrest⟩ := readPayload_ok hpayload
      exact Or.inl ⟨_, .payload h hheader hrest⟩
  | whole frame => exact Or.inl ⟨_, .whole h hheader⟩
  | malformed error =>
    refine Or.inr ⟨error, ?_, lineHeader_malformed hheader⟩
    rw [skipItems_succ heap pending h, hheader]
    rfl

theorem length_lt_of_step {cursor cursor' : Cursor} (h : HeaderStep cursor cursor') :
    cursor'.2.length < cursor.2.length := by
  cases h with
  | items hne hheader => exact length_afterLine_lt hne
  | payload hne hheader hrest =>
    have hshort := length_afterLine_lt hne
    rw [hrest, List.length_append] at hshort
    simp only
    omega
  | whole hne hheader => exact length_afterLine_lt hne

/-! ### What is reached decides -/

/-- An error further on is the error of the whole run, unless a buffer is refused
    before it. -/
theorem skipItems_of_reached {heap : Allocator} {P : Except ReadError Bytes → Prop}
    (hrefused : P (.error .capacityOverflow)) {cursor cursor' : Cursor}
    (h : ReflTransGen HeaderStep cursor cursor') (hend : P (skipItems heap cursor')) :
    P (skipItems heap cursor) := by
  induction h using ReflTransGen.head_induction_on with
  | refl => exact hend
  | @head cursor middle hstep _ ih =>
    by_cases hgrant : (firstHeader cursor.2).Refused heap
    · have hcap : skipItems heap cursor = .error .capacityOverflow := by
        cases hstep with
        | items hne hheader => exact skipItems_refused hne hgrant
        | payload hne hheader hrest => exact skipItems_refused hne hgrant
        | whole hne hheader => exact skipItems_refused hne hgrant
      rw [hcap]
      exact hrefused
    · rw [skipItems_step hstep hgrant]
      exact ih

/-- A panic comes from a refused buffer. -/
theorem exists_refused {heap : Allocator} {cursor : Cursor}
    (h : skipItems heap cursor = .error .capacityOverflow) :
    ∃ pending here, ReflTransGen HeaderStep cursor (pending + 1, here) ∧ here ≠ [] ∧
      (firstHeader here).Refused heap := by
  induction hbound : cursor.2.length using Nat.strongRecOn generalizing cursor with
  | ind bound ih =>
    obtain ⟨pending, stream⟩ := cursor
    subst hbound
    cases pending with
    | zero => cases h
    | succ pending =>
      by_cases hne : stream = []
      · rw [hne, skipItems_nil] at h
        cases h
      · by_cases hgrant : (firstHeader stream).Refused heap
        · exact ⟨pending, stream, .refl, hne, hgrant⟩
        · rcases step_or_error pending hne hgrant with
            ⟨cursor, hstep⟩ | ⟨error, herror, hio⟩
          · rw [skipItems_step hstep hgrant] at h
            obtain ⟨pending', here, hreach, hhere⟩ :=
              ih _ (length_lt_of_step hstep) h rfl
            exact ⟨pending', here, hreach.head hstep, hhere⟩
          · rw [herror] at h
            cases h
            exact absurd hio id

/-- What is read without an error is what the headers announce. -/
theorem steps_of_skipItems {heap : Allocator} {cursor : Cursor} {last : Bytes}
    (h : skipItems heap cursor = .ok last) : ReflTransGen HeaderStep cursor (0, last) := by
  induction hbound : cursor.2.length using Nat.strongRecOn generalizing cursor with
  | ind bound ih =>
    obtain ⟨pending, stream⟩ := cursor
    subst hbound
    cases pending with
    | zero =>
      cases h
      exact .refl
    | succ pending =>
      by_cases hne : stream = []
      · rw [hne, skipItems_nil] at h
        cases h
      · by_cases hgrant : (firstHeader stream).Refused heap
        · rw [skipItems_refused hne hgrant] at h
          cases h
        · rcases step_or_error pending hne hgrant with
            ⟨cursor, hstep⟩ | ⟨error, herror, hio⟩
          · rw [skipItems_step hstep hgrant] at h
            exact (ih _ (length_lt_of_step hstep) h rfl).head hstep
          · rw [herror] at h
            cases h

/-- The items of an array that are not there are not read. -/
theorem skipItems_unsatisfied (heap : Allocator) (pending : Nat) {stream : Bytes} (h : stream ≠ [])
    (hunsatisfied : ¬ (firstHeader stream).Satisfied (afterLine stream)) :
    ∃ error, skipItems heap (pending + 1, stream) = .error error := by
  by_cases hgrant : (firstHeader stream).Refused heap
  · exact ⟨_, skipItems_refused h hgrant⟩
  rcases step_or_error pending h hgrant with ⟨cursor, hstep⟩ | ⟨error, herror, -⟩
  · rw [skipItems_step hstep hgrant]
    cases hstep with
    | @items _ len _ _ hheader =>
      rw [hheader] at hunsatisfied
      rw [skipItems_add]
      rcases hitems : skipItems heap (len, afterLine stream) with error | last
      · exact ⟨error, rfl⟩
      · exact absurd ⟨last, steps_of_skipItems hitems⟩ hunsatisfied
    | @payload _ _ value rest _ hheader hrest =>
      rw [hheader] at hunsatisfied
      exact absurd ⟨value, rest, rfl, hrest⟩ hunsatisfied
    | whole _ hheader =>
      rw [hheader] at hunsatisfied
      exact absurd trivial hunsatisfied
  · exact ⟨error, herror⟩

/-! ### The first frame of a stream -/

theorem skipItems_one (heap : Allocator) {stream : Bytes} (h : stream ≠ []) :
    skipItems heap (1, stream) = (readFrame heap stream).map Prod.snd := by
  rw [skipItems_succ heap 0 h, readFrame_eq heap h]
  rcases readRest heap (readFrame heap) (firstHeader stream) (afterLine stream) with
    error | ⟨frame, rest⟩ <;> rfl

theorem readFrame_error_iff {heap : Allocator} {stream : Bytes} (h : stream ≠ [])
    {error : ReadError} :
    readFrame heap stream = .error error ↔ skipItems heap (1, stream) = .error error := by
  rw [skipItems_one heap h]
  cases readFrame heap stream <;> simp [Except.map]

theorem ReachesHeader.ne_nil {stream rest : Bytes} {header : Header}
    (h : ReachesHeader stream header rest) : stream ≠ [] := by
  obtain ⟨pending, here, hreach, hne, -⟩ := h
  rcases hreach.cases_head with heq | ⟨middle, hstep, -⟩
  · cases heq
    exact hne
  · cases hstep with
    | items hne _ => exact hne
    | payload hne _ _ => exact hne
    | whole hne _ => exact hne

/-- **A panic on a length**, exactly when a header is reached whose buffer is refused. -/
theorem readFrame_capacityOverflow {heap : Allocator} {stream : Bytes} :
    readFrame heap stream = .error .capacityOverflow ↔
      ∃ header rest, ReachesHeader stream header rest ∧ header.Refused heap := by
  constructor
  · intro h
    by_cases hne : stream = []
    · rw [hne, readFrame_nil] at h
      cases h
    · obtain ⟨pending, here, hreach, hhere, hrefused⟩ :=
        exists_refused ((readFrame_error_iff hne).mp h)
      exact ⟨_, _, ⟨pending, here, hreach, hhere, rfl, rfl⟩, hrefused⟩
  · rintro ⟨header, rest, hreaches, hrefused⟩
    have hne := hreaches.ne_nil
    obtain ⟨pending, here, hreach, hhere, rfl, -⟩ := hreaches
    rw [readFrame_error_iff hne]
    exact skipItems_of_reached (P := (· = .error .capacityOverflow)) rfl hreach
      (skipItems_refused hhere hrefused)

/-- A header that the bytes after it do not satisfy is an error. -/
theorem readFrame_unsatisfied (heap : Allocator) {stream rest : Bytes} {header : Header}
    (h : ReachesHeader stream header rest) (hunsatisfied : ¬ header.Satisfied rest) :
    ∃ error, readFrame heap stream = .error error := by
  have hne := h.ne_nil
  obtain ⟨pending, here, hreach, hhere, rfl, rfl⟩ := h
  have hend := skipItems_unsatisfied heap pending hhere hunsatisfied
  obtain ⟨error, herror⟩ :=
    skipItems_of_reached (P := fun result => ∃ error, result = .error error) ⟨_, rfl⟩ hreach hend
  exact ⟨error, (readFrame_error_iff hne).mpr herror⟩

theorem lineHeader_payload_lt {line : Bytes} {len : Nat} (h : lineHeader line = .payload len) :
    len < 2 ^ 63 := by
  cases line with
  | nil => cases h
  | cons kind text =>
    rw [lineHeader] at h
    split_ifs at h
    · cases hparse : parseUsize text <;> rw [hparse] at h <;> cases h
    · cases hparse : parseI64 text with
      | error error =>
        rw [hparse] at h
        cases h
      | ok value =>
        rw [hparse, parsedHeader, bulkHeader] at h
        have hmax := value.toInt_lt
        split_ifs at h
        cases h
        omega
    · cases hparse : bytesToString text <;> rw [hparse] at h <;> cases h
    · cases hparse : parseI64 text <;> rw [hparse] at h <;> cases h

/-- Decoding a stream never panics on a length: `len + 2` does not overflow, no buffer takes
    more than `isize::MAX` bytes, every buffer is granted, and a header that is not
    satisfied is an error that `read_frame` returns. -/
structure DecodesSafely (frameBytes : Nat) (heap : Allocator) (stream : Bytes) : Prop where
  noOverflow : ∀ len rest, ReachesHeader stream (.payload len) rest → len + 2 < 2 ^ 64
  withinCapacity : ∀ header rest, ReachesHeader stream header rest → ¬ header.Oversized frameBytes
  noPanic : readFrame heap stream ≠ .error .capacityOverflow
  unsatisfied : ∀ header rest, ReachesHeader stream header rest → ¬ header.Satisfied rest →
    ∃ error, readFrame heap stream = .error error ∧ error.IsIo

/-- **The streams that decode safely**, on any machine, are those that reach no header whose
    buffer is refused. -/
theorem decodesSafely_iff {frameBytes : Nat} {heap : Allocator} (hheap : heap.Limited frameBytes)
    (stream : Bytes) :
    DecodesSafely frameBytes heap stream ↔
      ∀ header rest, ReachesHeader stream header rest → ¬ header.Refused heap := by
  constructor
  · intro hsafe header rest hreach hrefused
    apply hsafe.noPanic
    exact readFrame_capacityOverflow.mpr ⟨header, rest, hreach, hrefused⟩
  · intro hgranted
    have hpanic : readFrame heap stream ≠ .error .capacityOverflow := by
      intro h
      obtain ⟨header, rest, hreach, hrefused⟩ := readFrame_capacityOverflow.mp h
      exact hgranted header rest hreach hrefused
    refine ⟨?_, ?_, hpanic, ?_⟩
    · rintro len rest ⟨pending, here, -, -, hheader, -⟩
      have hlen := lineHeader_payload_lt hheader
      omega
    · intro header rest hreach hover
      exact hgranted header rest hreach (hover.refused hheap)
    · intro header rest hreach hunsatisfied
      obtain ⟨error, herror⟩ := readFrame_unsatisfied heap hreach hunsatisfied
      refine ⟨error, herror, ?_⟩
      rcases readFrame_error herror with hio | ⟨rfl, -⟩
      · exact hio
      · exact absurd herror hpanic

/-- A machine with 64 GiB, and a bulk of 10¹² bytes behind the header of an array. -/
theorem decodesSafely_iff_scarce :
    ¬ DecodesSafely 32 (.upTo (2 ^ 36) 32) (utf8 "*2\r\n$1000000000000\r\n") := by
  intro hsafe
  have hlimited := Allocator.upTo_limited (show 2 ^ 36 ≤ ISIZE_MAX by decide) 32
  have hstep : HeaderStep (1, utf8 "*2\r\n$1000000000000\r\n")
      (2, utf8 "$1000000000000\r\n") :=
    .items (by decide) (by rfl)
  exact (decodesSafely_iff hlimited _).mp hsafe (.payload 1000000000000) []
    ⟨1, utf8 "$1000000000000\r\n", .single hstep, by decide, by rfl, by rfl⟩ (by rfl)

/-- A bulk that claims to have `i64::MAX` bytes. -/
theorem bulk_length_panics :
    ¬ DecodesSafely 32 (.upTo ISIZE_MAX 32) (utf8 "$9223372036854775807\r\n") :=
  fun h => h.noPanic (by rfl)

end AerugoCache.Protocol
