import AerugoCache.Network
import AerugoCache.TornLog

/-!
# A connection cut off anywhere

A client may vanish in the middle of a request.  Its requests that arrived whole are
handled, in order; no beginning of a request is executed, and the connection ends with
an error instead of the end of the stream.  The replies to what arrived are taken to reach
the client.
-/

namespace AerugoCache.Concurrent

open AerugoCache.ByteText AerugoCache.Protocol AerugoCache.Storage AerugoCache.Commands
  AerugoCache.Persistence AerugoCache.Server

/-- The request of a frame that is read in a round. -/
def requestOf (rounds : Nat → Round) (round : Nat) (frame : Frame)
    (held : frame.Fits .unlimited) : Request :=
  ⟨frame, (rounds round).env, (rounds round).outcome, held⟩

/-- Frames that were written whole are the first requests of the stream. -/
theorem reads_frames {heap : Allocator} {rounds : Nat → Round}
    (hsent : ∀ round, (rounds round).sent = true) {frames : List Frame}
    (hread : ∀ frame ∈ frames, frame.Readable) (hfits : ∀ frame ∈ frames, frame.Fits heap)
    {rest : Bytes} {ending : ConnectionEnd} (round : Nat)
    (hrest : Reads heap rounds (round + frames.length) rest [] ending) :
    ∃ requests, requests.map Request.frame = frames ∧
      Reads heap rounds round (frames.flatMap writeFrame ++ rest) requests ending := by
  induction frames generalizing round with
  | nil => exact ⟨[], rfl, hrest⟩
  | cons frame frames ih =>
    rw [List.length_cons, ← Nat.add_assoc, Nat.add_right_comm] at hrest
    obtain ⟨requests, hframes, hreads⟩ := ih (fun f hf => hread f (List.mem_cons_of_mem _ hf))
      (fun f hf => hfits f (List.mem_cons_of_mem _ hf)) (round + 1) hrest
    have hfit := hfits frame List.mem_cons_self
    refine ⟨requestOf rounds round frame hfit.unlimited :: requests, ?_, rfl, rfl,
      frames.flatMap writeFrame ++ rest, ?_, ?_⟩
    · rw [List.map_cons, hframes]
      rfl
    · rw [List.flatMap_cons, List.append_assoc]
      exact readFrame_writeFrame (hread frame List.mem_cons_self) hfit _
    · rw [if_pos (hsent round)]
      exact hreads

/-- **A torn connection.**  However the bytes of a client's requests are cut, a connection
    whose replies can all be written handles exactly those that arrived whole, in order, and
    closes if the cut is between two requests; otherwise it ends with an error of the
    decoder. -/
theorem torn_connection {heap : Allocator} (hheap : heap.Downward) {commands : List (List Bytes)}
    (hargs : ∀ args ∈ commands, args ≠ []) (hfits : ∀ args ∈ commands, (bulks args).Fits heap)
    {cut : Nat} (hcut : cut ≤ ((commands.map bulks).flatMap writeFrame).length)
    {rounds : Nat → Round} (hsent : ∀ round, (rounds round).sent = true) (state : ServerState) :
    let stream := ((commands.map bulks).flatMap writeFrame).take cut
    let alone := handleConnection heap rounds (stream.length + 1) 0 stream state
    ∃ requests, requests.map Request.frame = framesBefore (commands.map bulks) cut ∧
      (∀ round request, requests[round]? = some request →
        request.env = (rounds round).env ∧ request.outcome = (rounds round).outcome) ∧
      alone.1 = (serve requests state).1 ∧ alone.2.2 = (serve requests state).2 ∧
      (OnBoundary (commands.map bulks) cut → alone.2.1 = .closed) ∧
      (¬ OnBoundary (commands.map bulks) cut →
        ∃ error, alone.2.1 = .readFailed error ∧ error.IsIo) := by
  intro stream alone
  have hmem := framesBefore_subset (commands.map bulks) cut
  have hread : ∀ frame ∈ framesBefore (commands.map bulks) cut, frame.Readable := by
    intro frame hframe
    obtain ⟨args, -, rfl⟩ := List.mem_map.mp (hmem frame hframe)
    exact bulks_readable args
  have hheld : ∀ frame ∈ framesBefore (commands.map bulks) cut, frame.Fits heap := by
    intro frame hframe
    obtain ⟨args, hargs, rfl⟩ := List.mem_map.mp (hmem frame hframe)
    exact hfits args hargs
  obtain ⟨piece, hstream, hon, hoff⟩ := take_flatMap_writeFrame (commands.map bulks) hcut
  have hend : ∃ ending, Reads heap rounds (0 + (framesBefore (commands.map bulks) cut).length)
      piece [] ending ∧ (OnBoundary (commands.map bulks) cut → ending = .closed) ∧
      (¬ OnBoundary (commands.map bulks) cut →
        ∃ error, ending = .readFailed error ∧ error.IsIo) := by
    by_cases hboundary : OnBoundary (commands.map bulks) cut
    · rw [hon hboundary]
      exact ⟨.closed, Or.inl ⟨[], readFrame_nil heap, rfl⟩, fun _ => rfl,
        fun h => absurd hboundary h⟩
    · obtain ⟨hne, frame, hframe, hpiece⟩ := hoff hboundary
      obtain ⟨args, hcommand, rfl⟩ := List.mem_map.mp hframe
      obtain ⟨error, herror, hio⟩ := readFrame_torn hheap (hargs args hcommand)
        (hfits args hcommand) hpiece hne
      exact ⟨.readFailed error, Or.inr ⟨error, herror, rfl⟩, fun h => absurd h hboundary,
        fun _ => ⟨error, rfl, hio⟩⟩
  obtain ⟨ending, hpiece, hclosed, hfailed⟩ := hend
  obtain ⟨requests, hframes, hreads⟩ := reads_frames hsent hread hheld 0 hpiece
  rw [← hstream] at hreads
  have halone : alone = ((serve requests state).1, ending, (serve requests state).2) :=
    hreads.handleConnection (Nat.lt_succ_self _) state
  rw [halone]
  refine ⟨requests, hframes, fun round request hrequest => ?_, rfl, rfl, hclosed, hfailed⟩
  have hround := hreads.rounds hrequest
  rwa [Nat.zero_add] at hround

/-- Two requests, cut in the payload of the second: the first is handled, the second not. -/
theorem torn_connection_payload :
    let commands := [[utf8 "DEL", utf8 "k"], [utf8 "DEL", utf8 "events"]]
    let stream := ((commands.map bulks).flatMap writeFrame).take 40
    let rounds : Nat → Round := fun _ => ⟨.at 1 0, .written, true⟩
    let state := (serve [clientRequest "SET" [utf8 "k", [1]] (.at 0 0),
      clientRequest "SET" [utf8 "events", [2]] (.at 0 0)] (.initial .default)).2
    let alone := handleConnection .unlimited rounds (stream.length + 1) 0 stream state
    (framesBefore (commands.map bulks) 40).map writeFrame =
        [writeFrame (bulks [utf8 "DEL", utf8 "k"])] ∧
      alone.1.map writeFrame = [utf8 ":1\r\n"] ∧ alone.2.2.store.entries.keys = {"events"} ∧
      ∃ requests, requests.map Request.frame = framesBefore (commands.map bulks) 40 ∧
        (∀ round request, requests[round]? = some request →
          request.env = (rounds round).env ∧ request.outcome = (rounds round).outcome) ∧
        alone.1 = (serve requests state).1 ∧ alone.2.2 = (serve requests state).2 ∧
        ∃ error, alone.2.1 = .readFailed error ∧ error.IsIo := by
  intro commands stream rounds state alone
  have hfits : ∀ args ∈ commands, (bulks args).Fits .unlimited := by
    simp [commands, bulks, Frame.Fits, Frame.Held, Frame.subframes, subframesOf,
      Allocator.unlimited]
    decide
  have hsent : ∀ round, (rounds round).sent = true := fun _ => rfl
  obtain ⟨requests, hframes, hrounds, hreplies, hserver, -, hfailed⟩ :=
    torn_connection Allocator.unlimited_downward (by decide) hfits
      (by decide : 40 ≤ ((commands.map bulks).flatMap writeFrame).length) hsent state
  refine ⟨by decide +kernel, by decide +kernel, by decide +kernel, requests, hframes, hrounds,
    hreplies, hserver, hfailed (by decide)⟩

end AerugoCache.Concurrent
