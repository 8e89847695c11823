import AerugoCache.Client
import AerugoCache.Server

/-!
# Error replies at the client

The decoder that client and server share has no case for the type byte of an error: it
takes the line for an inline command.  So no error the server sends arrives as one.
-/

namespace AerugoCache.Client

open AerugoCache.ByteText AerugoCache.ByteReader AerugoCache.Protocol AerugoCache.Storage
  AerugoCache.Commands AerugoCache.Persistence AerugoCache.Server

/-- Trimming a line ending leaves the first byte of a line. -/
theorem trimCrlf_cons {kind : UInt8} (hcr : kind ≠ ascii '\r') (hlf : kind ≠ ascii '\n')
    (text : Bytes) : ∃ trimmed, trimCrlf (kind :: text) = kind :: trimmed := by
  have hstrip : ∀ (first : UInt8) (suffix trimmed : Bytes), first ≠ kind →
      stripSuffix (first :: suffix) (kind :: text) = some trimmed → ∃ t, trimmed = kind :: t := by
    intro first suffix trimmed hne h
    have heq := eq_append_of_stripSuffix h
    cases trimmed with
    | nil => exact absurd (List.cons.inj heq).1.symm hne
    | cons byte trimmed => exact ⟨trimmed, by rw [(List.cons.inj heq).1]⟩
  unfold trimCrlf
  split
  · rename_i trimmed h
    exact hstrip _ _ trimmed hcr.symm h
  · cases h : stripSuffix [ascii '\n'] (kind :: text) with
    | none => exact ⟨text, rfl⟩
    | some trimmed => exact hstrip _ _ trimmed hlf.symm h

/-- Whatever follows it, a minus sign starts an inline command. -/
theorem readFrame_minus (heap : Allocator) (stream : Bytes) :
    readFrame heap (ascii '-' :: stream) =
      .ok (some (parseInlineCommand (trimCrlf (ascii '-' :: (readUntil (ascii '\n') stream).1))),
        (readUntil (ascii '\n') stream).2) := by
  have hline : readUntil (ascii '\n') (ascii '-' :: stream) =
      (ascii '-' :: (readUntil (ascii '\n') stream).1, (readUntil (ascii '\n') stream).2) := by
    rw [readUntil, if_neg (by decide)]
  obtain ⟨trimmed, htrim⟩ := trimCrlf_cons (by decide : ascii '-' ≠ ascii '\r') (by decide)
    (readUntil (ascii '\n') stream).1
  rw [readFrame, readFrameFuel, hline]
  simp only [List.isEmpty_cons, Bool.false_eq_true, if_false, htrim]
  rfl

/-- The request is rejected: its command does not parse, or it fails. -/
def Rejected (request : Request) (state : ServerState) (error : CommandError) : Prop :=
  (executeRequest request state.store).1 = .error error

theorem handleRequest_rejected {request : Request} {state : ServerState} {error : CommandError}
    (h : Rejected request state error) :
    (handleRequest request state).1 = Command.errorFrame error := by
  unfold Rejected at h
  unfold handleRequest
  rcases hexecute : executeRequest request state.store with ⟨result, store⟩
  rw [hexecute] at h
  obtain rfl : result = .error error := h
  rfl

theorem errorFrame_bytes (error : CommandError) :
    ∃ bytes, writeFrame (Command.errorFrame error) = ascii '-' :: bytes := by
  cases error <;> exact ⟨_, rfl⟩

/-- **No error arrives as an error.**  The bytes of an error frame are never decoded as
    that frame, whatever follows them; and `command` returns `Ok` with an array for every
    request that the server rejects. -/
theorem error_never_arrives (heap : Allocator) (error : CommandError) :
    (∀ rest, readFrame heap (writeFrame (Command.errorFrame error) ++ rest) ≠
        .ok (some (Command.errorFrame error), rest)) ∧
      ∀ args request state rest, request.frame = requestFrame args →
        Rejected request state error → ∃ items,
          command heap (fun _ => writeFrame (handleRequest request state).1 ++ rest) args =
            .ok (.array items) := by
  obtain ⟨bytes, hbytes⟩ := errorFrame_bytes error
  constructor
  · intro rest heq
    rw [hbytes, List.cons_append, readFrame_minus] at heq
    cases error <;> cases heq
  · intro args request state rest _ hrejected
    exact ⟨_, by rw [command, handleRequest_rejected hrejected, hbytes, List.cons_append, receive,
      readFrame_minus, parseInlineCommand]⟩

/-- `GET` without a key, on an empty store. -/
def shortRequest : Request := clientRequest "GET" [] (.at 0 0)

theorem error_never_arrives_short :
    ∃ items, command .unlimited
      (fun _ => writeFrame (handleRequest shortRequest (.initial .default)).1 ++ []) ["GET"] =
        .ok (.array items) :=
  (error_never_arrives .unlimited (.wrongArity "GET")).2 ["GET"] shortRequest (.initial .default)
    [] rfl rfl

theorem short_error_as_array :
    command .unlimited (fun _ => writeFrame (handleRequest shortRequest (.initial .default)).1)
        ["GET"] =
      .ok (.array [bulk "-ERR", bulk "wrong", bulk "number", bulk "of", bulk "arguments", bulk "for",
        bulk "'GET'"]) :=
  rfl

end AerugoCache.Client
