import AerugoCache.DecodeSteps
import AerugoCache.LengthHeaders

/-!
# How deep decoding nests

`read_array` calls `read_frame` for each of its items, on the stack of its thread.  The
fuel of `readFrameFuel` is the number of calls that this stack has room for.  `NestStep`
follows the decoder with an explicit stack, the items that each open array has still to
come; a call that finds no room ends the process, whatever the stream holds after it.
-/

namespace AerugoCache.Protocol

open AerugoCache.ByteText AerugoCache.ByteReader Relation

/-! ### The stack of the decoder -/

/-- The items still to come of each open array, the innermost first, at the front of the
    stream.  One frame is to be read at the bottom. -/
abbrev Nest := List Nat × Bytes

inductive NestStep : Nest → Nest → Prop where
  | done {outer : List Nat} {stream : Bytes} : NestStep (0 :: outer, stream) (outer, stream)
  | items {pending len : Nat} {outer : List Nat} {stream : Bytes} (hne : stream ≠ [])
      (hheader : firstHeader stream = .items len) :
      NestStep ((pending + 1) :: outer, stream) (len :: pending :: outer, afterLine stream)
  | payload {pending : Nat} {outer : List Nat} {stream value rest : Bytes} (hne : stream ≠ [])
      (hheader : firstHeader stream = .payload value.length)
      (hrest : afterLine stream = value ++ crlf ++ rest) :
      NestStep ((pending + 1) :: outer, stream) (pending :: outer, rest)
  | whole {pending : Nat} {outer : List Nat} {stream : Bytes} {frame : Frame} (hne : stream ≠ [])
      (hheader : firstHeader stream = .whole frame) :
      NestStep ((pending + 1) :: outer, stream) (pending :: outer, afterLine stream)

/-- While one frame is read, `read_frame` is called inside `outer` other calls of it. -/
def CallsInside (stream : Bytes) (outer : Nat) : Prop :=
  ∃ pending arrays here, ReflTransGen NestStep ([1], stream) ((pending + 1) :: arrays, here) ∧
    arrays.length = outer

/-! ### Reading with room for so many calls -/

/-- What is left of the stream when all open arrays are read, with room for `depth` calls
    in all. -/
def unwind (depth : Nat) : List Nat → Bytes → Except ReadError Bytes
  | [], stream => .ok stream
  | pending :: outer, stream =>
      (readItems (readFrameFuel .unlimited (depth - outer.length)) pending stream).bind
        fun (_, rest) => unwind depth outer rest

/-- A call that the stack has no room for. -/
theorem unwind_full {depth pending : Nat} {outer : List Nat} (h : depth ≤ outer.length)
    (stream : Bytes) : unwind depth ((pending + 1) :: outer) stream = .error .outOfFuel := by
  rw [unwind, Nat.sub_eq_zero_of_le h, readItems]
  rfl

theorem unwind_nil {depth pending : Nat} {outer : List Nat} (h : outer.length < depth) :
    unwind depth ((pending + 1) :: outer) [] =
      .error (.unexpectedEof "unexpected EOF while reading RESP array") := by
  obtain ⟨room, hroom⟩ := Nat.exists_eq_succ_of_ne_zero (Nat.sub_ne_zero_of_lt h)
  rw [unwind, hroom, readItems]
  rfl

/-- A call that the stack has room for reads a header and what follows it. -/
theorem unwind_succ {depth pending : Nat} {outer : List Nat} (h : outer.length < depth)
    {stream : Bytes} (hne : stream ≠ []) :
    unwind depth ((pending + 1) :: outer) stream =
      (readRest .unlimited (readFrameFuel .unlimited (depth - (outer.length + 1)))
        (firstHeader stream) (afterLine stream)).bind
          fun (_, rest) => unwind depth (pending :: outer) rest := by
  have hroom : depth - outer.length = depth - (outer.length + 1) + 1 := by omega
  rw [unwind, hroom, readItems, readFrameFuel_succ .unlimited _ hne, ← hroom]
  rcases readRest .unlimited (readFrameFuel .unlimited (depth - (outer.length + 1)))
    (firstHeader stream) (afterLine stream) with error | ⟨frame, rest⟩
  · rfl
  · simp only [Except.map, Except.bind, unwind]
    cases readItems (readFrameFuel .unlimited (depth - outer.length)) pending rest <;> rfl

/-- The recursion takes the steps of the stack, as long as it has room. -/
theorem unwind_step {depth : Nat} {nest nest' : Nest} (h : NestStep nest nest')
    (hroom : nest.1.length ≤ depth) :
    unwind depth nest.1 nest.2 = unwind depth nest'.1 nest'.2 := by
  cases h with
  | done => rfl
  | @items pending len outer stream hne hheader =>
    have hgrant : Allocator.unlimited.frames len = true := rfl
    rw [unwind_succ hroom hne, hheader, readRest, if_pos hgrant, unwind, List.length_cons]
    rcases readItems (readFrameFuel .unlimited (depth - (outer.length + 1))) len
      (afterLine stream) with error | ⟨items, rest⟩ <;> rfl
  | @payload pending outer stream value rest hne hheader hrest =>
    have hgrant : Allocator.unlimited.bytes (value.length + 2) = true := rfl
    rw [unwind_succ hroom hne, hheader, readRest, if_pos hgrant, hrest, readPayload_written]
    rfl
  | @whole pending outer stream frame hne hheader =>
    rw [unwind_succ hroom hne, hheader]
    rfl

/-- Where the stack takes no step, the recursion returns an error. -/
theorem nestStep_or_error {depth : Nat} (pending : Nat) {outer : List Nat} {stream : Bytes}
    (hne : stream ≠ []) (hroom : outer.length < depth) :
    (∃ nest, NestStep ((pending + 1) :: outer, stream) nest) ∨
      ∃ error, unwind depth ((pending + 1) :: outer) stream = .error error ∧ error.IsIo := by
  cases hheader : firstHeader stream with
  | items len => exact Or.inl ⟨_, .items hne hheader⟩
  | payload len =>
    rcases hpayload : readPayload len (afterLine stream) with error | ⟨frame, rest⟩
    · refine Or.inr ⟨error, ?_, readPayload_error hpayload⟩
      have hgrant : Allocator.unlimited.bytes (len + 2) = true := rfl
      rw [unwind_succ hroom hne, hheader, readRest, if_pos hgrant, hpayload]
      rfl
    · obtain ⟨value, rfl, -, hrest⟩ := readPayload_ok hpayload
      exact Or.inl ⟨_, .payload hne hheader hrest⟩
  | whole frame => exact Or.inl ⟨_, .whole hne hheader⟩
  | malformed error =>
    refine Or.inr ⟨error, ?_, lineHeader_malformed hheader⟩
    rw [unwind_succ hroom hne, hheader]
    rfl

/-- Every step takes bytes, or leaves an array. -/
theorem nestStep_lower {nest nest' : Nest} (h : NestStep nest nest') :
    2 * nest'.2.length + nest'.1.length < 2 * nest.2.length + nest.1.length := by
  cases h with
  | done => simp
  | items hne hheader =>
    have hshort := length_afterLine_lt hne
    simp only [List.length_cons]
    omega
  | payload hne hheader hrest =>
    have hshort := length_afterLine_lt hne
    rw [hrest, List.length_append] at hshort
    simp only [List.length_cons]
    omega
  | whole hne hheader =>
    have hshort := length_afterLine_lt hne
    simp only [List.length_cons]
    omega

/-! ### A call too many -/

/-- Where the stack runs out, a call was reached that it has no room for. -/
theorem exists_full {depth : Nat} {nest : Nest}
    (h : unwind depth nest.1 nest.2 = .error .outOfFuel) :
    ∃ pending arrays here, ReflTransGen NestStep nest ((pending + 1) :: arrays, here) ∧
      depth ≤ arrays.length := by
  induction hbound : 2 * nest.2.length + nest.1.length using Nat.strongRecOn generalizing nest with
  | ind bound ih =>
    subst hbound
    obtain ⟨_ | ⟨_ | pending, outer⟩, stream⟩ := nest
    · cases h
    · have hstep : NestStep (0 :: outer, stream) (outer, stream) := .done
      obtain ⟨pending, arrays, here, hreach, hfull⟩ :=
        @ih _ (nestStep_lower hstep) (outer, stream) h rfl
      exact ⟨pending, arrays, here, hreach.head hstep, hfull⟩
    · by_cases hroom : outer.length < depth
      · by_cases hne : stream = []
        · subst hne
          rw [unwind_nil hroom] at h
          cases h
        · rcases nestStep_or_error pending hne hroom with
            ⟨nest', hstep⟩ | ⟨error, herror, hio⟩
          · rw [unwind_step hstep hroom] at h
            obtain ⟨pending', arrays, here, hreach, hfull⟩ := ih _ (nestStep_lower hstep) h rfl
            exact ⟨pending', arrays, here, hreach.head hstep, hfull⟩
          · rw [herror] at h
            cases h
            exact absurd hio id
      · exact ⟨pending, outer, stream, .refl, Nat.le_of_not_lt hroom⟩

/-- A call that the stack has no room for is never returned from. -/
theorem unwind_of_full {depth : Nat} {nest nest' : Nest} (h : ReflTransGen NestStep nest nest')
    (hend : unwind depth nest'.1 nest'.2 = .error .outOfFuel) :
    unwind depth nest.1 nest.2 = .error .outOfFuel := by
  induction h using ReflTransGen.head_induction_on with
  | refl => exact hend
  | @head nest middle hstep _ ih =>
    by_cases hroom : nest.1.length ≤ depth
    · rw [unwind_step hstep hroom]
      exact ih
    · have hfull : depth < nest.1.length := Nat.lt_of_not_le hroom
      cases hstep with
      | done => exact ih
      | items hne hheader => exact unwind_full (Nat.le_of_lt_succ hfull) _
      | payload hne hheader hrest => exact unwind_full (Nat.le_of_lt_succ hfull) _
      | whole hne hheader => exact unwind_full (Nat.le_of_lt_succ hfull) _

theorem unwind_one (depth : Nat) (stream : Bytes) :
    unwind depth [1] stream = .error .outOfFuel ↔
      readFrameFuel .unlimited depth stream = .error .outOfFuel := by
  rw [unwind, List.length_nil, Nat.sub_zero, readItems]
  rcases readFrameFuel .unlimited depth stream with error | ⟨_ | frame, rest⟩
  · simp [Except.bind]
  · simp [Except.bind]
  · simp [Except.bind, readItems, unwind]

/-- **The stack runs out** on the streams that nest deeper than it has room for. -/
theorem readFrameFuel_outOfFuel (depth : Nat) (stream : Bytes) :
    readFrameFuel .unlimited depth stream = .error .outOfFuel ↔
      ∃ outer, CallsInside stream outer ∧ depth ≤ outer := by
  rw [← unwind_one]
  constructor
  · intro h
    obtain ⟨pending, arrays, here, hreach, hfull⟩ := @exists_full depth ([1], stream) h
    exact ⟨arrays.length, ⟨pending, arrays, here, hreach, rfl⟩, hfull⟩
  · rintro ⟨outer, ⟨pending, arrays, here, hreach, rfl⟩, hfull⟩
    exact unwind_of_full hreach (unwind_full hfull here)

/-- Every other error is one that `read_frame` returns. -/
theorem readFrameFuel_error (depth : Nat) {stream : Bytes} {error : ReadError}
    (h : readFrameFuel .unlimited depth stream = .error error) :
    error.IsIo ∨ error = .outOfFuel := by
  induction depth generalizing stream error with
  | zero =>
    cases h
    exact Or.inr rfl
  | succ depth ih =>
    by_cases hne : stream = []
    · subst hne
      cases h
    · rw [readFrameFuel_succ .unlimited depth hne] at h
      rcases hrest : readRest .unlimited (readFrameFuel .unlimited depth) (firstHeader stream)
        (afterLine stream) with other | ⟨frame, rest⟩
      · rw [hrest] at h
        cases h
        exact readRest_error (P := fun error => error.IsIo ∨ error = .outOfFuel)
          (readFrameFuel_progresses .unlimited depth) (fun _ _ _ h => ih h) (fun _ => Or.inl)
          (fun hlimited => absurd rfl hlimited) (Nat.le_refl _) hrest
      · rw [hrest] at h
        cases h

/-! ### Read loops -/

/-- The frames that a read loop gets, until its reader finds none. -/
def readLoop (next : FrameReader) : Nat → Bytes → List Frame
  | 0, _ => []
  | fuel + 1, stream =>
      match next stream with
      | .ok (some frame, rest) => frame :: readLoop next fuel rest
      | _ => []

/-- The loop has at most as many iterations with a frame as the stream has bytes. -/
theorem length_readLoop {next : FrameReader} (hnext : Progresses next) (fuel : Nat)
    (stream : Bytes) : (readLoop next fuel stream).length ≤ stream.length := by
  induction fuel generalizing stream with
  | zero => exact Nat.zero_le _
  | succ fuel ih =>
    rw [readLoop]
    split
    · rename_i frame rest hframe
      have hshort := hnext stream frame rest hframe
      have hrest := ih rest
      rw [List.length_cons]
      omega
    · exact Nat.zero_le _

end AerugoCache.Protocol

namespace AerugoCache.Server

open AerugoCache.ByteText AerugoCache.ByteReader AerugoCache.Protocol AerugoCache.Persistence
  Relation

/-- Decoding the stream ends, and makes progress, on a thread whose stack has room for
    `depth` calls of `read_frame`.  `iterations` is about every loop that reads on such a
    stack; `replay` and `connection` are the two loops of the source where the stack has room
    for all calls. -/
structure DecodingEnds (depth : Nat) (stream : Bytes) : Prop where
  returns : readFrameFuel .unlimited depth stream ≠ .error .outOfFuel
  errors : ∀ error, readFrameFuel .unlimited depth stream = .error error → error.IsIo
  progresses : ∀ frame rest, readFrameFuel .unlimited depth stream = .ok (some frame, rest) →
    rest.length < stream.length
  calls : (countedFrame .unlimited depth stream).2 = readFrameFuel .unlimited depth stream ∧
    (countedFrame .unlimited depth stream).1 ≤ stream.length + 1
  iterations : ∀ fuel, (readLoop (readFrameFuel .unlimited depth) fuel stream).length ≤
    stream.length
  replay : (scanLog .unlimited stream).1.length ≤ stream.length ∧
    ∀ envs store, replay .unlimited envs (some stream) store =
      ((scanLog .unlimited stream).2.map fun _ =>
          (replayFrames envs (scanLog .unlimited stream).1 0 0 store).1,
        (replayFrames envs (scanLog .unlimited stream).1 0 0 store).2)
  connection : ∀ rounds state,
    (handleConnection .unlimited rounds (stream.length + 1) 0 stream state).1.length ≤
      stream.length

/-- **Decoding ends on a stack with room for it.**  Whatever the stream holds, decoding it
    ends if and only if the stack has room for one call more than `read_frame` is nested
    inside itself anywhere. -/
theorem decoding_ends_iff (depth : Nat) (stream : Bytes) :
    DecodingEnds depth stream ↔ ∀ outer, CallsInside stream outer → outer < depth := by
  obtain ⟨-, -, -, ⟨hscan, -, hreplay⟩, hconnection⟩ := decoding_ends stream
  constructor
  · intro hends outer hcalls
    by_contra hfull
    exact hends.returns ((readFrameFuel_outOfFuel depth stream).mpr
      ⟨outer, hcalls, Nat.le_of_not_lt hfull⟩)
  · intro hroom
    have hreturns : readFrameFuel .unlimited depth stream ≠ .error .outOfFuel := by
      intro h
      obtain ⟨outer, hcalls, hfull⟩ := (readFrameFuel_outOfFuel depth stream).mp h
      exact Nat.not_lt.mpr hfull (hroom outer hcalls)
    have hprogresses := readFrameFuel_progresses .unlimited depth
    refine ⟨hreturns, fun error herror => ?_, hprogresses stream,
      ⟨countedFrame_snd _ depth stream, calls_le _ depth stream⟩,
      fun fuel => length_readLoop hprogresses fuel stream, ⟨hscan, hreplay⟩,
      fun rounds state => (hconnection rounds state).1⟩
    rcases readFrameFuel_error depth herror with hio | rfl
    · exact hio
    · exact absurd herror hreturns

/-- An array of an array of an array, and so on. -/
def deepArrays (count : Nat) : Bytes := (List.replicate count (utf8 "*1\r\n")).flatten

theorem callsInside_deepArrays (count : Nat) : CallsInside (deepArrays count) count := by
  have hreach : ∀ (count : Nat) (outer : List Nat), ReflTransGen NestStep
      (1 :: outer, deepArrays count) (1 :: (List.replicate count 0 ++ outer), []) := by
    intro count
    induction count with
    | zero => exact fun outer => .refl
    | succ count ih =>
      intro outer
      have hline : readUntil (ascii '\n') (deepArrays (count + 1)) =
          (utf8 "*1\r\n", deepArrays count) :=
        readUntil_line (show ascii '\n' ∉ utf8 "*1\r" by decide) (deepArrays count)
      have hheader : firstHeader (deepArrays (count + 1)) = .items 1 := by
        rw [firstHeader, hline]
        rfl
      have hafter : afterLine (deepArrays (count + 1)) = deepArrays count := by
        rw [afterLine, hline]
      have hne : deepArrays (count + 1) ≠ [] := List.cons_ne_nil _ _
      have hstep : NestStep (1 :: outer, deepArrays (count + 1))
          (1 :: 0 :: outer, deepArrays count) :=
        hafter ▸ NestStep.items hne hheader
      have hrest := ih (0 :: outer)
      rw [List.append_cons, ← List.replicate_succ'] at hrest
      exact hrest.head hstep
  have hall := hreach count []
  rw [List.append_nil] at hall
  exact ⟨0, List.replicate count 0, [], hall, List.length_replicate⟩

/-- 32000 bytes, on a stack with room for 8000 calls. -/
theorem deep_arrays_overflow : ¬ DecodingEnds 8000 (deepArrays 8000) := fun h =>
  h.returns ((readFrameFuel_outOfFuel 8000 (deepArrays 8000)).mpr
    ⟨8000, callsInside_deepArrays 8000, Nat.le_refl _⟩)

end AerugoCache.Server
