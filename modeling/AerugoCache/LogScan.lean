import AerugoCache.AppendOnlyFile
import AerugoCache.RespRoundTrip

/-!
# What replay reads from a log

The loop of `replay` reads frame after frame and executes each; what it reads does
not depend on the store.  `scan` is the reading alone: the frames up to the end of the
log or up to the first error.  `replay` executes exactly these frames, in order, and
ends as the scan ends.
-/

namespace AerugoCache.Persistence

open AerugoCache.ByteText AerugoCache.Protocol AerugoCache.Storage AerugoCache.Commands

/-- The frames the loop of `replay` reads, and how the reading ends. -/
def scan (heap : Allocator) : Nat → Bytes → List Frame × Except ReadError Unit
  | 0, _ => ([], .error .outOfFuel)
  | fuel + 1, stream =>
      match readFrame heap stream with
      | .error error => ([], .error error)
      | .ok (none, _) => ([], .ok ())
      | .ok (some frame, rest) =>
          let (frames, result) := scan heap fuel rest
          (frame :: frames, result)

/-- The scan of a whole log, with the fuel that `replay` gives it. -/
def scanLog (heap : Allocator) (log : Bytes) : List Frame × Except ReadError Unit :=
  scan heap (log.length + 1) log

/-- The loop of `replay` on frames that were already read. -/
def replayFrames (envs : Nat → Env) : List Frame → Nat → Nat → MemoryStore → Nat × MemoryStore
  | [], _, count, store => (count, store)
  | frame :: frames, round, count, store =>
      let (count, store) := replayFrame frame (envs round) count store
      replayFrames envs frames (round + 1) count store

theorem replayLoop_scan (heap : Allocator) (envs : Nat → Env) (fuel round : Nat) (stream : Bytes)
    (count : Nat) (store : MemoryStore) :
    replayLoop heap envs fuel round stream count store =
      ((scan heap fuel stream).2.map fun _ =>
          (replayFrames envs (scan heap fuel stream).1 round count store).1,
        (replayFrames envs (scan heap fuel stream).1 round count store).2) := by
  induction fuel generalizing round stream count store with
  | zero => rfl
  | succ fuel ih =>
    rw [replayLoop, scan]
    rcases readFrame heap stream with error | ⟨_ | frame, rest⟩
    · rfl
    · rfl
    · exact ih (round + 1) rest _ _

/-- **Replay executes what it reads.** -/
theorem replay_scan (heap : Allocator) (envs : Nat → Env) (log : Bytes) (store : MemoryStore) :
    replay heap envs (some log) store =
      ((scanLog heap log).2.map fun _ =>
          (replayFrames envs (scanLog heap log).1 0 0 store).1,
        (replayFrames envs (scanLog heap log).1 0 0 store).2) :=
  replayLoop_scan heap envs _ 0 log 0 store

/-! ### Records at the front of a log -/

/-- Frames that are written whole are read back, whatever follows them. -/
theorem scan_written {heap : Allocator} {frames : List Frame}
    (hread : ∀ frame ∈ frames, frame.Readable) (hfits : ∀ frame ∈ frames, frame.Fits heap)
    (fuel : Nat) (rest : Bytes) :
    scan heap (frames.length + fuel) (frames.flatMap writeFrame ++ rest) =
      (frames ++ (scan heap fuel rest).1, (scan heap fuel rest).2) := by
  induction frames with
  | nil => simp
  | cons frame frames ih =>
    have hfirst := readFrame_writeFrame (hread frame List.mem_cons_self)
      (hfits frame List.mem_cons_self) (frames.flatMap writeFrame ++ rest)
    have hrest := ih (fun f hf => hread f (List.mem_cons_of_mem _ hf))
      (fun f hf => hfits f (List.mem_cons_of_mem _ hf))
    rw [List.flatMap_cons, List.append_assoc, List.length_cons, Nat.add_right_comm, scan, hfirst]
    simp only [hrest, List.cons_append]

theorem scanLog_written {heap : Allocator} {frames : List Frame}
    (hread : ∀ frame ∈ frames, frame.Readable) (hfits : ∀ frame ∈ frames, frame.Fits heap)
    (rest : Bytes) :
    ∃ fuel, scanLog heap (frames.flatMap writeFrame ++ rest) =
      (frames ++ (scan heap (fuel + 1) rest).1, (scan heap (fuel + 1) rest).2) := by
  have hlength := length_le_flatMap_writeFrame frames
  refine ⟨(frames.flatMap writeFrame ++ rest).length - frames.length, ?_⟩
  rw [← scan_written hread hfits, scanLog]
  congr 1
  rw [List.length_append]
  omega

theorem scanLog_whole {heap : Allocator} {frames : List Frame}
    (hread : ∀ frame ∈ frames, frame.Readable) (hfits : ∀ frame ∈ frames, frame.Fits heap) :
    scanLog heap (frames.flatMap writeFrame) = (frames, .ok ()) := by
  obtain ⟨fuel, hscan⟩ := scanLog_written hread hfits []
  rw [List.append_nil] at hscan
  simpa [scan, readFrame_nil] using hscan

end AerugoCache.Persistence
