import AerugoCache.DecodeProgress

/-!
# Decoding as the bytes arrive

`read_frame` on a socket waits where `read_until` finds no line feed yet and where
`read_exact` has too few bytes, unless the peer has closed its end.  `pollFrame` is the
decoder on the bytes that have arrived: its result, or `none` while it waits.  What it
returns does not depend on what arrives later, and it has a frame as soon as the line
feed that ends it is there; so the frames are those of the whole stream, however it is
cut into pieces.
-/

namespace AerugoCache.Protocol

open AerugoCache.ByteText AerugoCache.ByteReader

/-- The result of a read with the bytes it leaves, or `none` while it waits. -/
abbrev Polled (α : Type) := Option (Except ReadError (α × Bytes))

def pollItems (next : Bytes → Polled (Option Frame)) : Nat → Bytes → Polled (List Frame)
  | 0, buffer => some (.ok ([], buffer))
  | len + 1, buffer =>
      match next buffer with
      | none => none
      | some (.error error) => some (.error error)
      | some (.ok (none, _)) =>
          some (.error (.unexpectedEof "unexpected EOF while reading RESP array"))
      | some (.ok (some frame, rest)) =>
          match pollItems next len rest with
          | none => none
          | some (.error error) => some (.error error)
          | some (.ok (items, rest)) => some (.ok (frame :: items, rest))

/-- `read_exact` waits for a payload and its CRLF. -/
def pollRest (heap : Allocator) (closed : Bool) (next : Bytes → Polled (Option Frame))
    (header : Header) (buffer : Bytes) : Polled Frame :=
  match header with
  | .items len =>
      if heap.frames len then
        (pollItems next len buffer).map (Except.map fun (items, rest) => (.array items, rest))
      else some (.error .capacityOverflow)
  | .payload len =>
      if heap.bytes (len + 2) then
        if closed ∨ len + 2 ≤ buffer.length then some (readPayload len buffer) else none
      else some (.error .capacityOverflow)
  | .whole frame => some (.ok (frame, buffer))
  | .malformed error => some (.error error)

/-- `read_until` waits for the end of the line. -/
def pollFrameFuel (heap : Allocator) (closed : Bool) : Nat → Bytes → Polled (Option Frame)
  | 0, _ => some (.error .outOfFuel)
  | fuel + 1, buffer =>
      if closed ∨ ascii '\n' ∈ buffer then
        if buffer.isEmpty then some (.ok (none, []))
        else
          (pollRest heap closed (pollFrameFuel heap closed fuel) (firstHeader buffer)
            (afterLine buffer)).map (Except.map fun (frame, rest) => (some frame, rest))
      else none

def pollFrame (heap : Allocator) (closed : Bool) (buffer : Bytes) : Polled (Option Frame) :=
  pollFrameFuel heap closed (buffer.length + 1) buffer

/-! ### After the end of the stream

Nothing is waited for: the decoder is the one on the whole stream. -/

theorem pollItems_closed {next : Bytes → Polled (Option Frame)} {next' : FrameReader}
    (h : ∀ buffer, next buffer = some (next' buffer)) (len : Nat) (buffer : Bytes) :
    pollItems next len buffer = some (readItems next' len buffer) := by
  induction len generalizing buffer with
  | zero => rfl
  | succ len ih =>
    rw [pollItems, readItems, h]
    rcases next' buffer with error | ⟨_ | frame, rest⟩
    · rfl
    · rfl
    · simp only [ih rest]
      rcases readItems next' len rest with error | ⟨items, last⟩ <;> rfl

theorem pollFrameFuel_closed (heap : Allocator) (fuel : Nat) (buffer : Bytes) :
    pollFrameFuel heap true fuel buffer = some (readFrameFuel heap fuel buffer) := by
  induction fuel generalizing buffer with
  | zero => rfl
  | succ fuel ih =>
    by_cases hbuffer : buffer = []
    · subst hbuffer
      rfl
    · rw [pollFrameFuel, if_pos (Or.inl rfl), if_neg (by simpa using hbuffer),
        readFrameFuel_succ heap fuel hbuffer]
      cases firstHeader buffer with
      | items len =>
        rw [pollRest, readRest]
        split
        · rw [pollItems_closed ih]
          rfl
        · rfl
      | payload len =>
        rw [pollRest, readRest]
        split <;> rfl
      | whole frame => rfl
      | malformed error => rfl

theorem pollFrame_closed (heap : Allocator) (buffer : Bytes) :
    pollFrame heap true buffer = some (readFrame heap buffer) :=
  pollFrameFuel_closed heap _ buffer

/-! ### Bytes that arrive later -/

/-- A result with more bytes behind those it leaves. -/
def followedBy {α : Type} (more : Bytes) (result : Except ReadError (α × Bytes)) :
    Except ReadError (α × Bytes) :=
  result.map fun (value, rest) => (value, rest ++ more)

/-- Where the first reader has a result, unless it is an error that is not allowed, the
    second has the same one with more bytes behind it. -/
def Settles {α : Type} (allowed : ReadError → Prop) (more : Bytes)
    (next next' : Bytes → Polled α) : Prop :=
  ∀ buffer result, next buffer = some result → (∀ error, result = .error error → allowed error) →
    next' (buffer ++ more) = some (followedBy more result)

theorem readUntil_append_mem {delimiter : UInt8} {buffer : Bytes} (h : delimiter ∈ buffer)
    (more : Bytes) :
    readUntil delimiter (buffer ++ more) =
      ((readUntil delimiter buffer).1, (readUntil delimiter buffer).2 ++ more) := by
  induction buffer with
  | nil => cases h
  | cons byte buffer ih =>
    rw [List.cons_append, readUntil, readUntil]
    by_cases hbyte : byte = delimiter
    · simp only [hbyte, if_true]
    · have hmem : delimiter ∈ buffer := (List.mem_cons.mp h).resolve_left (Ne.symm hbyte)
      simp only [hbyte, if_false, ih hmem]

theorem firstHeader_append {buffer : Bytes} (h : ascii '\n' ∈ buffer) (more : Bytes) :
    firstHeader (buffer ++ more) = firstHeader buffer := by
  rw [firstHeader, firstHeader, readUntil_append_mem h]

theorem afterLine_append {buffer : Bytes} (h : ascii '\n' ∈ buffer) (more : Bytes) :
    afterLine (buffer ++ more) = afterLine buffer ++ more := by
  rw [afterLine, afterLine, readUntil_append_mem h]

section

variable {allowed : ReadError → Prop} {more : Bytes} {next next' : Bytes → Polled (Option Frame)}

theorem pollItems_settles (h : Settles allowed more next next') (len : Nat) :
    Settles allowed more (pollItems next len) (pollItems next' len) := by
  induction len with
  | zero =>
    intro buffer result hresult _
    cases hresult
    rfl
  | succ len ih =>
    intro buffer result hresult hallowed
    rw [pollItems] at hresult ⊢
    split at hresult
    · cases hresult
    · rename_i error hnext
      cases hresult
      have herror : allowed error := hallowed error rfl
      rw [h buffer _ hnext fun other hother => Except.error.inj hother ▸ herror]
      rfl
    · rename_i rest hnext
      cases hresult
      rw [h buffer _ hnext nofun]
      rfl
    · rename_i frame rest hnext
      rw [h buffer _ hnext nofun]
      simp only [followedBy, Except.map]
      split at hresult
      · cases hresult
      · rename_i error hitems
        cases hresult
        rw [ih rest _ hitems hallowed]
        rfl
      · rename_i items last hitems
        cases hresult
        rw [ih rest _ hitems nofun]
        rfl

theorem readPayload_append {len : Nat} {buffer : Bytes} (h : len + 2 ≤ buffer.length)
    (more : Bytes) :
    readPayload len (buffer ++ more) = followedBy more (readPayload len buffer) := by
  have hlong : len + 2 ≤ (buffer ++ more).length := by
    rw [List.length_append]
    omega
  rw [readPayload, readPayload, readExact, readExact, if_pos h, if_pos hlong,
    List.take_append_of_le_length h, List.drop_append_of_le_length h]
  simp only
  split <;> rfl

theorem pollRest_settles (heap : Allocator) (closed : Bool) (h : Settles allowed more next next')
    (header : Header) :
    Settles allowed more (pollRest heap false next header) (pollRest heap closed next' header) := by
  intro buffer result hresult hallowed
  cases header with
  | items len =>
    rw [pollRest] at hresult ⊢
    split at hresult
    · obtain ⟨items, hitems, rfl⟩ := Option.map_eq_some_iff.mp hresult
      have hitems' : ∀ error, items = .error error → allowed error := by
        rintro error rfl
        exact hallowed error rfl
      rw [if_pos ‹_›, pollItems_settles h len buffer items hitems hitems']
      rcases items with error | ⟨items, rest⟩ <;> rfl
    · cases hresult
      rw [if_neg ‹_›]
      rfl
  | payload len =>
    rw [pollRest] at hresult ⊢
    split at hresult
    · rw [if_pos ‹_›]
      split at hresult
      · rename_i hready
        have hlength : len + 2 ≤ buffer.length := hready.resolve_left nofun
        cases hresult
        rw [if_pos (Or.inr (by rw [List.length_append]; omega)), readPayload_append hlength]
      · cases hresult
    · cases hresult
      rw [if_neg ‹_›]
      rfl
  | whole frame =>
    cases hresult
    rfl
  | malformed error =>
    cases hresult
    rfl

variable (allowed) in
theorem pollFrameFuel_settles (heap : Allocator) (closed : Bool) (more : Bytes) {fuel fuel' : Nat}
    (hle : fuel ≤ fuel') (hfuel : fuel = fuel' ∨ ¬ allowed .outOfFuel) :
    Settles allowed more (pollFrameFuel heap false fuel) (pollFrameFuel heap closed fuel') := by
  induction fuel generalizing fuel' with
  | zero =>
    intro buffer result hresult hallowed
    cases hresult
    rcases hfuel with rfl | hfuel
    · rfl
    · exact absurd (hallowed _ rfl) hfuel
  | succ fuel ih =>
    intro buffer result hresult hallowed
    obtain ⟨fuel', rfl⟩ : ∃ n, fuel' = n + 1 := ⟨fuel' - 1, by omega⟩
    rw [pollFrameFuel] at hresult
    split at hresult
    · rename_i hready
      have hline : ascii '\n' ∈ buffer := hready.resolve_left nofun
      have hne : buffer ≠ [] := List.ne_nil_of_mem hline
      rw [if_neg (by simp [hne])] at hresult
      obtain ⟨rest, hrest, rfl⟩ := Option.map_eq_some_iff.mp hresult
      have hrest' : ∀ error, rest = .error error → allowed error := by
        rintro error rfl
        exact hallowed error rfl
      have hnext := ih (Nat.le_of_succ_le_succ hle) (hfuel.imp_left Nat.succ.inj)
      rw [pollFrameFuel, if_pos (Or.inr (List.mem_append_left more hline)), if_neg (by simp [hne]),
        firstHeader_append hline, afterLine_append hline,
        pollRest_settles heap closed hnext _ _ rest hrest hrest']
      rcases rest with error | ⟨frame, rest⟩ <;> rfl
    · cases hresult

end

theorem pollFrame_ne_outOfFuel {heap : Allocator} {buffer : Bytes}
    {result : Except ReadError (Option Frame × Bytes)}
    (h : pollFrame heap false buffer = some result) : result ≠ .error .outOfFuel := by
  rintro rfl
  have hsettles := pollFrameFuel_settles (fun _ => True) heap true [] (Nat.le_refl _)
    (Or.inl rfl) buffer _ h fun _ _ => trivial
  rw [List.append_nil, pollFrameFuel_closed] at hsettles
  exact readFrame_ne_outOfFuel heap buffer (Option.some.inj hsettles)

/-- **What arrives later changes nothing**: a result on the bytes that have arrived is the
    result whatever follows, and whether or not the stream ends there. -/
theorem pollFrame_append {heap : Allocator} {buffer : Bytes}
    {result : Except ReadError (Option Frame × Bytes)}
    (h : pollFrame heap false buffer = some result) (closed : Bool) (more : Bytes) :
    pollFrame heap closed (buffer ++ more) = some (followedBy more result) := by
  have hle : buffer.length + 1 ≤ (buffer ++ more).length + 1 := by
    rw [List.length_append]
    omega
  apply pollFrameFuel_settles (· ≠ .outOfFuel) heap closed more hle
    (Or.inr fun hne => hne rfl) buffer result h
  rintro error rfl rfl
  exact pollFrame_ne_outOfFuel h rfl

theorem readFrame_of_pollFrame {heap : Allocator} {buffer : Bytes}
    {result : Except ReadError (Option Frame × Bytes)}
    (h : pollFrame heap false buffer = some result) (more : Bytes) :
    readFrame heap (buffer ++ more) = followedBy more result := by
  have hclosed := pollFrame_append h true more
  rw [pollFrame_closed] at hclosed
  exact Option.some.inj hclosed

/-! ### When a frame is there

The last byte of every frame is a line feed, and `read_frame` waits for no byte after it. -/

/-- What was taken from the buffer ends with a line feed. -/
def EndsLine (buffer rest : Bytes) : Prop :=
  ∃ taken, buffer = taken ++ ascii '\n' :: rest

theorem EndsLine.trans {buffer middle rest : Bytes} (h : EndsLine buffer middle)
    (h' : EndsLine middle rest) : EndsLine buffer rest := by
  obtain ⟨taken, rfl⟩ := h
  obtain ⟨taken', rfl⟩ := h'
  exact ⟨taken ++ ascii '\n' :: taken', by simp⟩

theorem EndsLine.mem {buffer rest : Bytes} (h : EndsLine buffer rest) : ascii '\n' ∈ buffer := by
  obtain ⟨taken, rfl⟩ := h
  simp

/-- What a suffix leaves ends a line if the whole does and something was taken. -/
theorem EndsLine.of_suffix {buffer stream rest : Bytes} (h : EndsLine buffer rest)
    (hstream : stream <:+ buffer) (hlength : rest.length < stream.length) :
    EndsLine stream rest := by
  obtain ⟨taken, rfl⟩ := h
  have hrest : ascii '\n' :: rest <:+ taken ++ ascii '\n' :: rest := List.suffix_append _ _
  have hshort : (ascii '\n' :: rest).length ≤ stream.length := hlength
  obtain ⟨between, hbetween⟩ := List.suffix_of_suffix_length_le hrest hstream hshort
  exact ⟨between, hbetween.symm⟩

theorem endsLine_afterLine {buffer : Bytes} (h : ascii '\n' ∈ buffer) :
    EndsLine buffer (afterLine buffer) := by
  obtain ⟨line, rest, rfl, hline⟩ := List.eq_append_cons_of_mem h
  refine ⟨line, ?_⟩
  rw [afterLine, readUntil_line hline]

theorem endsLine_payload {len : Nat} {stream rest : Bytes} {frame : Frame}
    (h : readPayload len stream = .ok (frame, rest)) : EndsLine stream rest := by
  obtain ⟨value, -, -, rfl⟩ := readPayload_ok h
  exact ⟨value ++ [ascii '\r'], by simp [crlf]⟩

/-- A reader whose frames end with a line feed, except at the end of the stream. -/
def EndsLines (next : FrameReader) : Prop :=
  ∀ stream frame rest, next stream = .ok (some frame, rest) → rest = [] ∨ EndsLine stream rest

theorem readItems_endsLine {next : FrameReader} (hnext : EndsLines next) {len : Nat}
    {stream rest : Bytes} {items : List Frame}
    (h : readItems next len stream = .ok (items, rest)) :
    rest = stream ∨ rest = [] ∨ EndsLine stream rest := by
  induction len generalizing stream items with
  | zero =>
    cases h
    exact Or.inl rfl
  | succ len ih =>
    rw [readItems] at h
    split at h
    · cases h
    · cases h
    · rename_i frame middle hframe
      split at h
      · cases h
      · rename_i frames last hitems
        cases h
        rcases ih hitems with rfl | rfl | hlast
        · exact Or.inr (hnext stream frame rest hframe)
        · exact Or.inr (Or.inl rfl)
        · rcases hnext stream frame middle hframe with rfl | hmiddle
          · exact absurd hlast.mem (List.not_mem_nil)
          · exact Or.inr (Or.inr (hmiddle.trans hlast))

theorem readRest_endsLine {heap : Allocator} {next : FrameReader} (hnext : EndsLines next)
    {header : Header} {stream rest : Bytes} {frame : Frame}
    (h : readRest heap next header stream = .ok (frame, rest)) :
    rest = stream ∨ rest = [] ∨ EndsLine stream rest := by
  cases header with
  | items len =>
    rw [readRest] at h
    split at h
    · rcases hitems : readItems next len stream with error | ⟨items, last⟩
      · rw [hitems] at h
        cases h
      · rw [hitems] at h
        cases h
        exact readItems_endsLine hnext hitems
    · cases h
  | payload len =>
    rw [readRest] at h
    split at h
    · exact Or.inr (Or.inr (endsLine_payload h))
    · cases h
  | whole frame =>
    cases h
    exact Or.inl rfl
  | malformed error => cases h

theorem readFrameFuel_endsLines (heap : Allocator) (fuel : Nat) :
    EndsLines (readFrameFuel heap fuel) := by
  induction fuel with
  | zero =>
    intro stream frame rest h
    cases h
  | succ fuel ih =>
    intro stream frame rest h
    by_cases hstream : stream = []
    · subst hstream
      cases h
    · rw [readFrameFuel_succ heap fuel hstream] at h
      rcases hrest : readRest heap (readFrameFuel heap fuel) (firstHeader stream)
        (afterLine stream) with error | ⟨item, last⟩
      · rw [hrest] at h
        cases h
      · rw [hrest] at h
        cases h
        by_cases hline : ascii '\n' ∈ stream
        · have hafter := endsLine_afterLine hline
          rcases readRest_endsLine ih hrest with rfl | rfl | hlast
          · exact Or.inr hafter
          · exact Or.inl rfl
          · exact Or.inr (hafter.trans hlast)
        · have hlength := length_readRest_le (readFrameFuel_progresses heap fuel) hrest
          rw [afterLine, readUntil_of_notMem hline] at hlength
          exact Or.inl (List.length_eq_zero_iff.mp (Nat.le_zero.mp hlength))

theorem EndsLine.suffix {buffer rest : Bytes} (h : EndsLine buffer rest) : rest <:+ buffer := by
  obtain ⟨taken, rfl⟩ := h
  exact ⟨taken ++ [ascii '\n'], by simp⟩

/-- A polling reader that has the frames of the other once their last line is there. -/
def Answers (next : FrameReader) (next' : Bytes → Polled (Option Frame)) : Prop :=
  ∀ stream frame rest, next stream = .ok (some frame, rest) → EndsLine stream rest →
    next' stream = some (.ok (some frame, rest))

theorem pollItems_answers {next : FrameReader} {next' : Bytes → Polled (Option Frame)}
    (hnext : EndsLines next) (hprogress : Progresses next) (h : Answers next next') {len : Nat}
    {stream rest : Bytes} {items : List Frame}
    (hitems : readItems next len stream = .ok (items, rest))
    (hrest : rest = stream ∨ EndsLine stream rest) :
    pollItems next' len stream = some (.ok (items, rest)) := by
  induction len generalizing stream items with
  | zero =>
    cases hitems
    rfl
  | succ len ih =>
    rw [readItems] at hitems
    split at hitems
    · cases hitems
    · cases hitems
    · rename_i frame middle hframe
      split at hitems
      · cases hitems
      · rename_i frames last htail
        cases hitems
        have hshort := hprogress stream frame middle hframe
        have hlength := (readItems_ok hprogress htail).2
        have hends : EndsLine stream rest := by
          rcases hrest with rfl | hends
          · omega
          · exact hends
        -- the first item ends its line, and so does what the others take
        have hboth : EndsLine stream middle ∧ (rest = middle ∨ EndsLine middle rest) := by
          rcases hnext stream frame middle hframe with rfl | hmiddle
          · obtain rfl : rest = [] := List.length_eq_zero_iff.mp (by
              rw [List.length_nil] at hlength
              omega)
            exact ⟨hends, Or.inl rfl⟩
          · refine ⟨hmiddle, ?_⟩
            rcases Nat.eq_or_lt_of_le (Nat.le_of_add_right_le hlength) with heq | hlt
            · have hsuffix := List.suffix_of_suffix_length_le hends.suffix hmiddle.suffix
                (Nat.le_of_eq heq)
              exact Or.inl (hsuffix.eq_of_length heq)
            · exact Or.inr (hends.of_suffix hmiddle.suffix hlt)
        rw [pollItems, h stream frame middle hframe hboth.1]
        simp only [ih htail hboth.2]

theorem pollRest_answers {heap : Allocator} {next : FrameReader}
    {next' : Bytes → Polled (Option Frame)} (hnext : EndsLines next)
    (hprogress : Progresses next) (h : Answers next next') {header : Header}
    {stream rest : Bytes} {frame : Frame}
    (hframe : readRest heap next header stream = .ok (frame, rest))
    (hrest : rest = stream ∨ EndsLine stream rest) :
    pollRest heap false next' header stream = some (.ok (frame, rest)) := by
  cases header with
  | items len =>
    rw [readRest] at hframe
    split at hframe
    · rcases hitems : readItems next len stream with error | ⟨items, last⟩
      · rw [hitems] at hframe
        cases hframe
      · rw [hitems] at hframe
        cases hframe
        rw [pollRest, if_pos ‹_›, pollItems_answers hnext hprogress h hitems hrest]
        rfl
    · cases hframe
  | payload len =>
    rw [readRest] at hframe
    split at hframe
    · obtain ⟨value, hlength, -, hstream⟩ := readPayload_ok hframe
      have hready : len + 2 ≤ stream.length := by
        simp only [hstream, List.length_append, crlf, List.length_cons, List.length_nil]
        omega
      rw [pollRest, if_pos ‹_›, if_pos (Or.inr hready), hframe]
    · cases hframe
  | whole frame =>
    cases hframe
    rfl
  | malformed error => cases hframe

theorem pollFrameFuel_answers (heap : Allocator) (fuel : Nat) :
    Answers (readFrameFuel heap fuel) (pollFrameFuel heap false fuel) := by
  induction fuel with
  | zero =>
    intro stream frame rest h
    cases h
  | succ fuel ih =>
    intro stream frame rest h hends
    have hstream : stream ≠ [] := List.ne_nil_of_mem hends.mem
    have hafter := endsLine_afterLine hends.mem
    rw [readFrameFuel_succ heap fuel hstream] at h
    rcases hresult : readRest heap (readFrameFuel heap fuel) (firstHeader stream)
      (afterLine stream) with error | ⟨item, last⟩
    · rw [hresult] at h
      cases h
    · rw [hresult] at h
      cases h
      have hlength := length_readRest_le (readFrameFuel_progresses heap fuel) hresult
      have hrest : rest = afterLine stream ∨ EndsLine (afterLine stream) rest := by
        rcases Nat.eq_or_lt_of_le hlength with heq | hlt
        · have hsuffix := List.suffix_of_suffix_length_le hends.suffix hafter.suffix hlength
          exact Or.inl (hsuffix.eq_of_length heq)
        · exact Or.inr (hends.of_suffix hafter.suffix hlt)
      rw [pollFrameFuel, if_pos (Or.inr hends.mem), if_neg (by simp [hstream]),
        pollRest_answers (readFrameFuel_endsLines heap fuel) (readFrameFuel_progresses heap fuel) ih
          hresult hrest]
      rfl

/-- A frame is there exactly when its last line feed is. -/
theorem pollFrame_some_iff {heap : Allocator} {buffer rest : Bytes} {frame : Frame} :
    pollFrame heap false buffer = some (.ok (some frame, rest)) ↔
      readFrame heap buffer = .ok (some frame, rest) ∧ EndsLine buffer rest := by
  constructor
  · intro h
    have hnow := readFrame_of_pollFrame h []
    have hlater := readFrame_of_pollFrame h [ascii '\n']
    simp only [followedBy, Except.map, List.append_nil] at hnow
    refine ⟨hnow, ?_⟩
    rcases readFrameFuel_endsLines heap _ _ _ _ hlater with hnil | ⟨taken, htaken⟩
    · exact absurd hnil (List.append_ne_nil_of_right_ne_nil rest (List.cons_ne_nil _ _))
    · refine ⟨taken, List.append_cancel_right (htaken.trans ?_)⟩
      rw [List.append_assoc, List.cons_append]
  · rintro ⟨hframe, hends⟩
    exact pollFrameFuel_answers heap _ _ _ _ hframe hends

theorem readFrame_none {heap : Allocator} {stream rest : Bytes}
    (h : readFrame heap stream = .ok (none, rest)) : stream = [] := by
  by_contra hstream
  rw [readFrame_eq heap hstream] at h
  rcases hrest : readRest heap (readFrame heap) (firstHeader stream) (afterLine stream) with
    error | ⟨frame, last⟩
  · rw [hrest] at h
    cases h
  · rw [hrest] at h
    cases h

/-- The end of the stream is reported only once it has arrived. -/
theorem pollFrame_ne_none {heap : Allocator} {buffer rest : Bytes} :
    pollFrame heap false buffer ≠ some (.ok (none, rest)) := by
  intro h
  have hlater := readFrame_of_pollFrame h [ascii '\n']
  have hnil := readFrame_none hlater
  exact absurd hnil (List.append_ne_nil_of_right_ne_nil buffer (List.cons_ne_nil _ _))

/-- **Decoding is the same however the bytes arrive.**  A result on what has arrived is
    the result on every longer stream, with what follows left unread; a frame is there
    exactly when the line feed that ends it is, and nothing but a frame or an error is
    reported before the end of the stream; after the end, the result is that of the whole
    stream. -/
theorem decoding_as_bytes_arrive (heap : Allocator) (buffer : Bytes) :
    (∀ result, pollFrame heap false buffer = some result → ∀ closed more,
      pollFrame heap closed (buffer ++ more) = some (followedBy more result) ∧
        readFrame heap (buffer ++ more) = followedBy more result) ∧
      (∀ frame rest, pollFrame heap false buffer = some (.ok (some frame, rest)) ↔
        readFrame heap buffer = .ok (some frame, rest) ∧ EndsLine buffer rest) ∧
      (∀ rest, pollFrame heap false buffer ≠ some (.ok (none, rest))) ∧
      pollFrame heap true buffer = some (readFrame heap buffer) := by
  refine ⟨?_, fun _ _ => pollFrame_some_iff, fun _ => pollFrame_ne_none, pollFrame_closed heap buffer⟩
  intro result h closed more
  exact ⟨pollFrame_append h closed more, readFrame_of_pollFrame h more⟩

end AerugoCache.Protocol
