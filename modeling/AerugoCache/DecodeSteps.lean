import AerugoCache.DecodeProgress
import AerugoCache.LogScan
import AerugoCache.Server

/-!
# How long decoding takes

`countedFrame` is the decoder that also counts the calls of `read_frame`, the nested
ones included.  Every call but one that finds the end of the stream takes at least the
byte of its own line, so there are at most as many calls as bytes, plus one, whatever
lengths the headers claim.  The read loops of `replay` and of `handle_connection`
inherit the bound.  The stack of the thread is taken to have room for these calls.
-/

namespace AerugoCache.Protocol

open AerugoCache.ByteText AerugoCache.ByteReader

/-! ### The counting decoder -/

/-- A result with the number of calls of `read_frame` that were made for it. -/
abbrev Counted (α : Type) := Nat × Except ReadError (α × Bytes)

def countedItems (next : Bytes → Counted (Option Frame)) : Nat → Bytes → Counted (List Frame)
  | 0, stream => (0, .ok ([], stream))
  | len + 1, stream =>
      match next stream with
      | (calls, .error error) => (calls, .error error)
      | (calls, .ok (none, _)) =>
          (calls, .error (.unexpectedEof "unexpected EOF while reading RESP array"))
      | (calls, .ok (some frame, rest)) =>
          match countedItems next len rest with
          | (more, .error error) => (calls + more, .error error)
          | (more, .ok (items, rest)) => (calls + more, .ok (frame :: items, rest))

/-- Only the items of an array are read by further calls. -/
def countedRest (heap : Allocator) (next : Bytes → Counted (Option Frame)) (header : Header)
    (stream : Bytes) : Counted Frame :=
  match header with
  | .items len =>
      if heap.frames len then
        let run := countedItems next len stream
        (run.1, run.2.map fun (items, rest) => (.array items, rest))
      else (0, .error .capacityOverflow)
  | header => (0, readRest heap (fun stream => (next stream).2) header stream)

def countedFrame (heap : Allocator) : Nat → Bytes → Counted (Option Frame)
  | 0, _ => (0, .error .outOfFuel)
  | fuel + 1, stream =>
      if stream.isEmpty then (1, .ok (none, []))
      else
        let run := countedRest heap (countedFrame heap fuel) (firstHeader stream) (afterLine stream)
        (run.1 + 1, run.2.map fun (frame, rest) => (some frame, rest))

/-! ### Counting changes no result -/

theorem countedItems_snd (next : Bytes → Counted (Option Frame)) (len : Nat) (stream : Bytes) :
    (countedItems next len stream).2 = readItems (fun stream => (next stream).2) len stream := by
  induction len generalizing stream with
  | zero => rfl
  | succ len ih =>
    rw [countedItems, readItems]
    rcases next stream with ⟨calls, error | ⟨_ | frame, rest⟩⟩
    · rfl
    · rfl
    · simp only [← ih rest]
      rcases countedItems next len rest with ⟨more, error | ⟨items, last⟩⟩ <;> rfl

theorem countedRest_snd (heap : Allocator) (next : Bytes → Counted (Option Frame))
    (header : Header) (stream : Bytes) :
    (countedRest heap next header stream).2 =
      readRest heap (fun stream => (next stream).2) header stream := by
  cases header with
  | items len =>
    rw [countedRest, readRest]
    split
    · simp only [countedItems_snd]
    · rfl
  | payload len => rfl
  | whole frame => rfl
  | malformed error => rfl

theorem countedFrame_snd (heap : Allocator) (fuel : Nat) (stream : Bytes) :
    (countedFrame heap fuel stream).2 = readFrameFuel heap fuel stream := by
  induction fuel generalizing stream with
  | zero => rfl
  | succ fuel ih =>
    have hnext : (fun stream => (countedFrame heap fuel stream).2) = readFrameFuel heap fuel :=
      funext ih
    cases stream with
    | nil => rfl
    | cons byte stream =>
      rw [countedFrame, if_neg (by simp), readFrameFuel_succ heap fuel (List.cons_ne_nil _ _),
        ← hnext, ← countedRest_snd]

/-! ### Counting the calls -/

/-- The calls and what they leave of the stream are within its bytes; one call more
    is what finds its end, or an error. -/
structure Metered {α : Type} (found : α → Prop) (stream : Bytes) (run : Counted α) : Prop where
  calls : run.1 ≤ stream.length + 1
  rest : ∀ value rest, run.2 = .ok (value, rest) → found value →
    run.1 + rest.length ≤ stream.length

/-- A counting reader is metered when each frame it finds pays for its calls. -/
def MeteredReader (next : Bytes → Counted (Option Frame)) : Prop :=
  ∀ stream, Metered (· ≠ none) stream (next stream)

theorem Metered.of_error {α : Type} {found : α → Prop} {stream : Bytes} {calls : Nat}
    {error : ReadError} (h : calls ≤ stream.length + 1) :
    Metered found stream (calls, .error error) :=
  ⟨h, fun _ _ hok => by cases hok⟩

theorem countedItems_metered {next : Bytes → Counted (Option Frame)} (hnext : MeteredReader next)
    (len : Nat) (stream : Bytes) :
    Metered (fun _ => True) stream (countedItems next len stream) := by
  induction len generalizing stream with
  | zero =>
    refine ⟨Nat.zero_le _, fun items rest h _ => ?_⟩
    cases h
    exact Nat.le_of_eq (Nat.zero_add _)
  | succ len ih =>
    have hfirst := hnext stream
    rw [countedItems]
    generalize next stream = run at hfirst ⊢
    rcases run with ⟨calls, error | ⟨_ | frame, rest⟩⟩
    · exact Metered.of_error hfirst.calls
    · exact Metered.of_error hfirst.calls
    · have hspent : calls + rest.length ≤ stream.length :=
        hfirst.rest (some frame) rest rfl (Option.some_ne_none frame)
      have hmore := ih rest
      simp only
      generalize countedItems next len rest = tail at hmore ⊢
      rcases tail with ⟨more, error | ⟨items, last⟩⟩
      · have hcalls : more ≤ rest.length + 1 := hmore.calls
        exact Metered.of_error (by omega)
      · have hleft : more + last.length ≤ rest.length := hmore.rest items last rfl trivial
        constructor
        · simp only
          omega
        · intro items' rest' h _
          cases h
          simp only
          omega

theorem countedRest_metered (heap : Allocator) {next : Bytes → Counted (Option Frame)}
    (hnext : MeteredReader next) (header : Header) (stream : Bytes) :
    Metered (fun _ => True) stream (countedRest heap next header stream) := by
  cases header with
  | items len =>
    rw [countedRest]
    split
    · have hitems := countedItems_metered hnext len stream
      generalize countedItems next len stream = run at hitems ⊢
      rcases run with ⟨calls, error | ⟨items, rest⟩⟩
      · exact Metered.of_error hitems.calls
      · refine ⟨hitems.calls, fun frame last h _ => ?_⟩
        cases h
        exact hitems.rest items rest rfl trivial
    · exact Metered.of_error (Nat.zero_le _)
  | payload len =>
    refine ⟨Nat.zero_le _, fun frame rest h _ => ?_⟩
    have hrest : readRest heap (fun stream => (next stream).2) (.payload len) stream =
      .ok (frame, rest) := h
    rw [readRest] at hrest
    split at hrest
    · obtain ⟨value, -, -, rfl⟩ := readPayload_ok hrest
      simp only [countedRest, List.length_append]
      omega
    · cases hrest
  | whole frame =>
    refine ⟨Nat.zero_le _, fun frame rest h _ => ?_⟩
    cases h
    exact Nat.le_of_eq (Nat.zero_add _)
  | malformed error => exact Metered.of_error (Nat.zero_le _)

theorem countedFrame_metered (heap : Allocator) (fuel : Nat) :
    MeteredReader (countedFrame heap fuel) := by
  induction fuel with
  | zero => exact fun stream => Metered.of_error (Nat.zero_le _)
  | succ fuel ih =>
    intro stream
    cases hstream : stream with
    | nil => exact ⟨Nat.le_refl 1, fun found rest h hfound => by cases h; exact absurd rfl hfound⟩
    | cons byte bytes =>
      have hne : stream ≠ [] := hstream ▸ List.cons_ne_nil byte bytes
      have hshort := length_afterLine_lt hne
      have hrun := countedRest_metered heap ih (firstHeader stream) (afterLine stream)
      rw [← hstream, countedFrame, if_neg (by simp [hne])]
      generalize countedRest heap (countedFrame heap fuel) (firstHeader stream)
        (afterLine stream) = run at hrun ⊢
      rcases run with ⟨calls, error | ⟨frame, rest⟩⟩
      · have hcalls : calls ≤ (afterLine stream).length + 1 := hrun.calls
        exact Metered.of_error (by omega)
      · have hspent : calls + rest.length ≤ (afterLine stream).length :=
          hrun.rest frame rest rfl trivial
        constructor
        · simp only
          omega
        · intro found last h _
          cases h
          simp only
          omega

/-- **The calls of `read_frame` for one frame**: at most the bytes left, plus one. -/
theorem calls_le (heap : Allocator) (fuel : Nat) (stream : Bytes) :
    (countedFrame heap fuel stream).1 ≤ stream.length + 1 :=
  (countedFrame_metered heap fuel stream).calls

end AerugoCache.Protocol

namespace AerugoCache.Persistence

open AerugoCache.ByteText AerugoCache.Protocol AerugoCache.Storage

/-- The loop of `replay` reads at most as many frames as the log has bytes, and ends
    at the end of the log or at an error of the decoder. -/
theorem scan_ends (heap : Allocator) {fuel : Nat} {stream : Bytes} (h : stream.length < fuel) :
    (scan heap fuel stream).1.length ≤ stream.length ∧
      (scan heap fuel stream).2 ≠ .error .outOfFuel := by
  induction fuel generalizing stream with
  | zero => cases h
  | succ fuel ih =>
    rw [scan]
    rcases hframe : readFrame heap stream with error | ⟨_ | frame, rest⟩
    · refine ⟨Nat.zero_le _, fun heq => ?_⟩
      cases heq
      exact readFrame_ne_outOfFuel heap stream hframe
    · exact ⟨Nat.zero_le _, fun heq => by cases heq⟩
    · have hshort := readFrame_progresses heap stream frame rest hframe
      have hfuel : rest.length < fuel := by omega
      obtain ⟨hcount, hend⟩ := ih hfuel
      refine ⟨?_, hend⟩
      rw [List.length_cons]
      omega

end AerugoCache.Persistence

namespace AerugoCache.Server

open AerugoCache.ByteText AerugoCache.Protocol AerugoCache.Storage AerugoCache.Persistence

/-- The loop of `handle_connection` gives at most as many responses as there are
    bytes, and ends as the source ends it. -/
theorem handleConnection_ends (heap : Allocator) (rounds : Nat → Round) {fuel round : Nat}
    {stream : Bytes} (h : stream.length < fuel) (state : ServerState) :
    (handleConnection heap rounds fuel round stream state).1.length ≤ stream.length ∧
      (handleConnection heap rounds fuel round stream state).2.1 ≠ .readFailed .outOfFuel := by
  induction fuel generalizing round stream state with
  | zero => cases h
  | succ fuel ih =>
    rw [handleConnection]
    rcases hframe : readFrame heap stream with error | ⟨_ | frame, rest⟩
    · refine ⟨Nat.zero_le _, fun heq => ?_⟩
      cases heq
      exact readFrame_ne_outOfFuel heap stream hframe
    · exact ⟨Nat.zero_le _, fun heq => by cases heq⟩
    · have hshort := readFrame_progresses heap stream frame rest hframe
      have hfuel : rest.length < fuel := by omega
      simp only
      split
      · obtain ⟨hcount, hend⟩ := ih hfuel
          (handleFrame frame (rounds round).env (rounds round).outcome state).2
        refine ⟨?_, hend⟩
        rw [List.length_cons]
        omega
      · refine ⟨?_, fun heq => by cases heq⟩
        rw [List.length_singleton]
        omega

/-- **Decoding ends**, on a stack with room for the calls.  Whatever lengths the headers
    claim, `read_frame` returns within as many calls as bytes plus one, takes at least a
    byte for each frame, and the two read loops run at most as many iterations as there are
    bytes.  More room gives the same result. -/
theorem decoding_ends (stream : Bytes) :
    (∀ fuel, stream.length < fuel →
      readFrameFuel .unlimited fuel stream = readFrame .unlimited stream ∧
        (countedFrame .unlimited fuel stream).2 = readFrame .unlimited stream ∧
        (countedFrame .unlimited fuel stream).1 ≤ stream.length + 1) ∧
      (∀ error, readFrame .unlimited stream = .error error → error.IsIo) ∧
      (∀ frame rest, readFrame .unlimited stream = .ok (some frame, rest) →
        rest.length < stream.length) ∧
      ((scanLog .unlimited stream).1.length ≤ stream.length ∧
        (scanLog .unlimited stream).2 ≠ .error .outOfFuel ∧
        ∀ envs store, replay .unlimited envs (some stream) store =
          ((scanLog .unlimited stream).2.map fun _ =>
              (replayFrames envs (scanLog .unlimited stream).1 0 0 store).1,
            (replayFrames envs (scanLog .unlimited stream).1 0 0 store).2)) ∧
      ∀ rounds state,
        (handleConnection .unlimited rounds (stream.length + 1) 0 stream state).1.length ≤
            stream.length ∧
          (handleConnection .unlimited rounds (stream.length + 1) 0 stream state).2.1 ≠
            .readFailed .outOfFuel := by
  refine ⟨?_, ?_, ?_, ?_, ?_⟩
  · intro fuel hfuel
    have hsame := readFrameFuel_eq .unlimited hfuel
    exact ⟨hsame, (countedFrame_snd _ fuel stream).trans hsame, calls_le _ fuel stream⟩
  · intro error h
    rcases readFrame_error h with hio | ⟨-, hlimited⟩
    · exact hio
    · exact absurd rfl hlimited
  · exact readFrame_progresses .unlimited stream
  · obtain ⟨hcount, hend⟩ := scan_ends .unlimited (Nat.lt_succ_self stream.length)
    exact ⟨hcount, hend, fun envs store => replay_scan .unlimited envs stream store⟩
  · intro rounds state
    exact handleConnection_ends .unlimited rounds (Nat.lt_succ_self _) state

end AerugoCache.Server
