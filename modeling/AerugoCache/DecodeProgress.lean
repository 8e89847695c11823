import AerugoCache.HeaderLines

/-!
# The decoder makes progress

Every frame takes at least one byte, so the recursion `read_frame → read_array →
read_frame` is over once the stream is: the fuel of the model is never what ends a
run.  With that, `readFrame` satisfies the equation of the source, without fuel.
-/

namespace AerugoCache.Protocol

open AerugoCache.ByteText AerugoCache.ByteReader AerugoCache.Fallible

/-- A reader that takes at least one byte for every frame. -/
def Progresses (next : FrameReader) : Prop :=
  ∀ stream frame rest, next stream = .ok (some frame, rest) → rest.length < stream.length

/-! ### The loop of `read_array` -/

theorem readItems_ok {next : FrameReader} (hnext : Progresses next) {len : Nat}
    {stream rest : Bytes} {items : List Frame}
    (h : readItems next len stream = .ok (items, rest)) :
    items.length = len ∧ rest.length + len ≤ stream.length := by
  induction len generalizing stream items with
  | zero =>
    cases h
    exact ⟨rfl, Nat.le_refl _⟩
  | succ len ih =>
    rw [readItems] at h
    split at h
    · cases h
    · cases h
    · rename_i frame middle hframe
      split at h
      · cases h
      · rename_i frames last hitems
        cases h
        have hshort := hnext stream frame middle hframe
        obtain ⟨hcount, hlength⟩ := ih hitems
        rw [List.length_cons, hcount]
        exact ⟨rfl, by omega⟩

/-- The loop depends only on what its reader does on the rest of the stream. -/
theorem readItems_congr {next next' : FrameReader} (hnext : Progresses next) {bound : Nat}
    (h : ∀ stream : Bytes, stream.length ≤ bound → next stream = next' stream) (len : Nat)
    {stream : Bytes} (hstream : stream.length ≤ bound) :
    readItems next len stream = readItems next' len stream := by
  induction len generalizing stream with
  | zero => rfl
  | succ len ih =>
    rw [readItems, readItems, ← h stream hstream]
    rcases hframe : next stream with error | ⟨_ | frame, rest⟩
    · rfl
    · rfl
    · have hshort := hnext stream frame rest hframe
      have hrest : rest.length ≤ bound := by omega
      simp only [ih hrest]

/-! ### What follows a header -/

theorem readPayload_ok {len : Nat} {stream rest : Bytes} {frame : Frame}
    (h : readPayload len stream = .ok (frame, rest)) :
    ∃ value, value.length = len ∧ frame = .bulk value ∧ stream = value ++ crlf ++ rest := by
  unfold readPayload at h
  split at h
  · cases h
  · rename_i buffer last hexact
    obtain ⟨hlength, rfl⟩ := append_of_readExact hexact
    split at h
    · rename_i hcrlf
      cases h
      refine ⟨buffer.take len, List.length_take_of_le (by omega), rfl, ?_⟩
      rw [← hcrlf, List.take_append_drop]
    · cases h

theorem length_readRest_le {heap : Allocator} {next : FrameReader} (hnext : Progresses next)
    {header : Header} {stream rest : Bytes} {frame : Frame}
    (h : readRest heap next header stream = .ok (frame, rest)) :
    rest.length ≤ stream.length := by
  cases header with
  | items len =>
    rw [readRest] at h
    split at h
    · rcases hitems : readItems next len stream with error | ⟨items, last⟩
      · rw [hitems] at h
        cases h
      · rw [hitems] at h
        cases h
        have hlength := (readItems_ok hnext hitems).2
        omega
    · cases h
  | payload len =>
    rw [readRest] at h
    split at h
    · obtain ⟨value, -, -, rfl⟩ := readPayload_ok h
      rw [List.length_append]
      omega
    · cases h
  | whole frame =>
    cases h
    exact Nat.le_refl _
  | malformed error => cases h

theorem readRest_congr (heap : Allocator) {next next' : FrameReader} (hnext : Progresses next)
    {bound : Nat} (h : ∀ stream : Bytes, stream.length ≤ bound → next stream = next' stream)
    (header : Header) {stream : Bytes} (hstream : stream.length ≤ bound) :
    readRest heap next header stream = readRest heap next' header stream := by
  cases header with
  | items len => rw [readRest, readRest, readItems_congr hnext h len hstream]
  | payload len => rfl
  | whole frame => rfl
  | malformed error => rfl

/-! ### Frames -/

/-- The first line of a stream, trimmed, as a header. -/
def firstHeader (stream : Bytes) : Header :=
  lineHeader (trimCrlf (readUntil (ascii '\n') stream).1)

/-- The stream after its first line. -/
def afterLine (stream : Bytes) : Bytes :=
  (readUntil (ascii '\n') stream).2

theorem length_afterLine_lt {stream : Bytes} (h : stream ≠ []) :
    (afterLine stream).length < stream.length :=
  length_readUntil_snd_lt fun hline => h (readUntil_fst_eq_nil.mp hline)

/-- One step of the decoder: at the end of the stream, or at a header. -/
theorem readFrameFuel_succ (heap : Allocator) (fuel : Nat) {stream : Bytes} (h : stream ≠ []) :
    readFrameFuel heap (fuel + 1) stream =
      (readRest heap (readFrameFuel heap fuel) (firstHeader stream) (afterLine stream)).map
        fun (frame, rest) => (some frame, rest) := by
  have hline : (readUntil (ascii '\n') stream).1.isEmpty = false := by
    rw [List.isEmpty_eq_false_iff]
    exact fun hline => h (readUntil_fst_eq_nil.mp hline)
  rw [readFrameFuel]
  simp only [hline, Bool.false_eq_true, if_false, readLine_header]
  rfl

theorem readFrameFuel_progresses (heap : Allocator) (fuel : Nat) :
    Progresses (readFrameFuel heap fuel) := by
  induction fuel with
  | zero =>
    intro stream frame rest h
    cases h
  | succ fuel ih =>
    intro stream frame rest h
    by_cases hstream : stream = []
    · subst hstream
      cases h
    · have hshort := length_afterLine_lt hstream
      rw [readFrameFuel_succ heap fuel hstream] at h
      rcases hrest : readRest heap (readFrameFuel heap fuel) (firstHeader stream)
        (afterLine stream) with error | ⟨item, last⟩
      · rw [hrest] at h
        cases h
      · rw [hrest] at h
        cases h
        have hlength := length_readRest_le ih hrest
        omega

/-- Fuel beyond the bytes of the stream changes nothing. -/
theorem readFrameFuel_succ_of_lt (heap : Allocator) {fuel : Nat} {stream : Bytes}
    (h : stream.length < fuel) :
    readFrameFuel heap (fuel + 1) stream = readFrameFuel heap fuel stream := by
  induction fuel generalizing stream with
  | zero => cases h
  | succ fuel ih =>
    by_cases hstream : stream = []
    · subst hstream
      rfl
    · have hshort := length_afterLine_lt hstream
      rw [readFrameFuel_succ heap _ hstream, readFrameFuel_succ heap _ hstream]
      have hnext : ∀ rest : Bytes, rest.length ≤ (afterLine stream).length →
          readFrameFuel heap (fuel + 1) rest = readFrameFuel heap fuel rest :=
        fun rest hrest => ih (by omega)
      rw [readRest_congr heap (readFrameFuel_progresses heap _) hnext _ (Nat.le_refl _)]

theorem readFrameFuel_eq (heap : Allocator) {fuel : Nat} {stream : Bytes}
    (h : stream.length < fuel) : readFrameFuel heap fuel stream = readFrame heap stream := by
  induction h with
  | refl => rfl
  | step hfuel ih => rw [readFrameFuel_succ_of_lt heap hfuel, ih]

theorem readFrame_progresses (heap : Allocator) : Progresses (readFrame heap) :=
  fun stream frame rest h => readFrameFuel_progresses heap _ stream frame rest h

/-- **The equation of `read_frame`**, with the recursive calls in `read_array`. -/
theorem readFrame_eq (heap : Allocator) {stream : Bytes} (h : stream ≠ []) :
    readFrame heap stream =
      (readRest heap (readFrame heap) (firstHeader stream) (afterLine stream)).map
        fun (frame, rest) => (some frame, rest) := by
  have hshort := length_afterLine_lt h
  rw [readFrame, readFrameFuel_succ heap _ h]
  have hnext : ∀ rest : Bytes, rest.length ≤ (afterLine stream).length →
      readFrameFuel heap stream.length rest = readFrame heap rest :=
    fun rest hrest => readFrameFuel_eq heap (by omega)
  rw [readRest_congr heap (readFrameFuel_progresses heap _) hnext _ (Nat.le_refl _)]

/-! ### Errors -/

/-- A reader all of whose errors have the property. -/
def ErrorsAre (P : ReadError → Prop) (bound : Nat) (next : FrameReader) : Prop :=
  ∀ stream error, stream.length ≤ bound → next stream = .error error → P error

theorem readItems_error {P : ReadError → Prop} {next : FrameReader} (hnext : Progresses next)
    {bound : Nat} (herrors : ErrorsAre P bound next)
    (heof : P (.unexpectedEof "unexpected EOF while reading RESP array")) {len : Nat}
    {stream : Bytes} {error : ReadError} (hstream : stream.length ≤ bound)
    (h : readItems next len stream = .error error) : P error := by
  induction len generalizing stream with
  | zero => cases h
  | succ len ih =>
    rw [readItems] at h
    split at h
    · rename_i hframe
      cases h
      exact herrors stream error hstream hframe
    · cases h
      exact heof
    · rename_i frame rest hframe
      have hshort := hnext stream frame rest hframe
      split at h
      · rename_i hitems
        cases h
        exact ih (by omega) hitems
      · cases h

theorem bytesToString_error {bytes : Bytes} {error : ReadError}
    (h : bytesToString bytes = .error error) : error.IsIo := by
  unfold bytesToString at h
  split at h
  · cases h
  · cases h
    trivial

theorem parseUsize_error {bytes : Bytes} {error : ReadError}
    (h : parseUsize bytes = .error error) : error.IsIo := by
  unfold parseUsize at h
  rcases bind_error h with htext | ⟨value, -, h⟩
  · exact bytesToString_error htext
  · split at h
    · cases h
    · cases h
      trivial

theorem parseI64_error {bytes : Bytes} {error : ReadError}
    (h : parseI64 bytes = .error error) : error.IsIo := by
  unfold parseI64 at h
  rcases bind_error h with htext | ⟨value, -, h⟩
  · exact bytesToString_error htext
  · split at h
    · cases h
    · cases h
      trivial

theorem parsedHeader_malformed {α : Type} {header : α → Header} {parsed : Except ReadError α}
    {error : ReadError} (hheader : ∀ value, header value = .malformed error → error.IsIo)
    (hparsed : parsed = .error error → error.IsIo)
    (h : parsedHeader header parsed = .malformed error) : error.IsIo := by
  cases parsed with
  | error other =>
    cases h
    exact hparsed rfl
  | ok value => exact hheader value h

theorem lineHeader_malformed {line : Bytes} {error : ReadError}
    (h : lineHeader line = .malformed error) : error.IsIo := by
  cases line with
  | nil => cases h
  | cons kind text =>
    rw [lineHeader] at h
    split_ifs at h
    · exact parsedHeader_malformed (fun value h => by cases h) parseUsize_error h
    · refine parsedHeader_malformed (fun len h => ?_) parseI64_error h
      unfold bulkHeader at h
      split_ifs at h
      cases h
      trivial
    · exact parsedHeader_malformed (fun value h => by cases h) bytesToString_error h
    · exact parsedHeader_malformed (fun value h => by cases h) parseI64_error h

theorem readPayload_error {len : Nat} {stream : Bytes} {error : ReadError}
    (h : readPayload len stream = .error error) : error.IsIo := by
  unfold readPayload at h
  split at h
  · cases h
    trivial
  · split at h
    · cases h
    · cases h
      trivial

theorem readRest_error {P : ReadError → Prop} {heap : Allocator} {next : FrameReader}
    (hnext : Progresses next) {bound : Nat} (herrors : ErrorsAre P bound next)
    (hio : ∀ error : ReadError, error.IsIo → P error)
    (hrefused : heap ≠ .unlimited → P .capacityOverflow) {line stream : Bytes}
    {error : ReadError} (hstream : stream.length ≤ bound)
    (h : readRest heap next (lineHeader line) stream = .error error) : P error := by
  cases hheader : lineHeader line with
  | items len =>
    rw [hheader, readRest] at h
    split at h
    · rcases hitems : readItems next len stream with other | ⟨items, rest⟩
      · rw [hitems] at h
        cases h
        exact readItems_error hnext herrors (hio _ trivial) hstream hitems
      · rw [hitems] at h
        cases h
    · rename_i hgrant
      cases h
      apply hrefused
      rintro rfl
      exact hgrant rfl
  | payload len =>
    rw [hheader, readRest] at h
    split at h
    · exact hio error (readPayload_error h)
    · rename_i hgrant
      cases h
      apply hrefused
      rintro rfl
      exact hgrant rfl
  | whole frame =>
    rw [hheader] at h
    cases h
  | malformed other =>
    rw [hheader] at h
    cases h
    exact hio error (lineHeader_malformed hheader)

/-- **An error of the decoder** is one that `read_frame` returns, or a refused buffer. -/
theorem readFrame_error {heap : Allocator} {stream : Bytes} {error : ReadError}
    (h : readFrame heap stream = .error error) :
    error.IsIo ∨ error = .capacityOverflow ∧ heap ≠ .unlimited := by
  induction hbound : stream.length using Nat.strongRecOn generalizing stream error with
  | ind bound ih =>
    by_cases hstream : stream = []
    · subst hstream
      cases h
    · subst hbound
      rw [readFrame_eq heap hstream] at h
      have hshort := length_afterLine_lt hstream
      have herrors : ErrorsAre
          (fun error => error.IsIo ∨ error = .capacityOverflow ∧ heap ≠ .unlimited)
          (afterLine stream).length (readFrame heap) :=
        fun rest error hrest h => ih rest.length (by omega) h rfl
      rcases hrest : readRest heap (readFrame heap) (firstHeader stream) (afterLine stream) with
        other | ⟨frame, rest⟩
      · rw [hrest] at h
        cases h
        exact readRest_error (readFrame_progresses heap) herrors (fun _ => Or.inl)
          (fun hheap => Or.inr ⟨rfl, hheap⟩) (Nat.le_refl _) hrest
      · rw [hrest] at h
        cases h

theorem readFrame_ne_outOfFuel (heap : Allocator) (stream : Bytes) :
    readFrame heap stream ≠ .error .outOfFuel := by
  intro h
  rcases readFrame_error h with hio | ⟨hover, -⟩
  · exact hio
  · cases hover

end AerugoCache.Protocol
