import AerugoCache.Fallible
import AerugoCache.RespRoundTrip

/-!
# Header lines

What the first line of a frame says about the bytes after it: that so many items
follow, that a payload of so many bytes follows, nothing, or that the line is
malformed.  `readLine` is this classification followed by `readRest`, so that each
fact about the decoder is a case analysis over four headers.
-/

namespace AerugoCache.Protocol

open AerugoCache.ByteText AerugoCache.ByteReader AerugoCache.Fallible

/-- What reads one frame, `none` at the end of the stream. -/
abbrev FrameReader := Bytes → Except ReadError (Option Frame × Bytes)

inductive Header where
  | items (len : Nat)
  | payload (len : Nat)
  | whole (frame : Frame)
  | malformed (error : ReadError)

/-! ### Classifying a line -/

/-- The header of a `$` line of the length `len`. -/
def bulkHeader (len : Int64) : Header :=
  if len.toInt = -1 then .whole .null
  else if len.toInt < 0 then .malformed (.invalidData "negative bulk length")
  else .payload len.toInt.toNat

/-- The header of a text that parses to a value, malformed when it does not. -/
def parsedHeader {α : Type} (header : α → Header) : Except ReadError α → Header
  | .ok value => header value
  | .error error => .malformed error

/-- The header that a trimmed line is. -/
def lineHeader : Bytes → Header
  | [] => .whole (.error "ERR empty request")
  | kind :: text =>
      if kind = ascii '*' then parsedHeader .items (parseUsize text)
      else if kind = ascii '$' then parsedHeader bulkHeader (parseI64 text)
      else if kind = ascii '+' then parsedHeader (.whole ∘ .simple) (bytesToString text)
      else if kind = ascii ':' then parsedHeader (.whole ∘ .integer) (parseI64 text)
      else .whole (parseInlineCommand (kind :: text))

/-! ### Reading what follows a header -/

def readPayload (len : Nat) (stream : Bytes) : Except ReadError (Frame × Bytes) :=
  match readExact (len + 2) stream with
  | none => .error (.unexpectedEof "early eof")
  | some (buffer, rest) =>
      if buffer.drop len = crlf then .ok (.bulk (buffer.take len), rest)
      else .error (.invalidData "bulk string missing CRLF terminator")

def readRest (heap : Allocator) (next : FrameReader) (header : Header) (stream : Bytes) :
    Except ReadError (Frame × Bytes) :=
  match header with
  | .items len =>
      if heap.frames len then
        (readItems next len stream).map fun (items, rest) => (.array items, rest)
      else .error .capacityOverflow
  | .payload len =>
      if heap.bytes (len + 2) then readPayload len stream else .error .capacityOverflow
  | .whole frame => .ok (frame, stream)
  | .malformed error => .error error

theorem readBulk_header (heap : Allocator) (next : FrameReader) (lenBytes stream : Bytes) :
    readBulk heap lenBytes stream =
      readRest heap next (parsedHeader bulkHeader (parseI64 lenBytes)) stream := by
  unfold readBulk
  rcases parseI64 lenBytes with error | len
  · rfl
  · simp only [bind, Except.bind, parsedHeader, bulkHeader]
    split
    · rfl
    · split
      · rfl
      · rw [readRest, readPayload]
        generalize len.toInt.toNat = size
        cases heap.bytes (size + 2) with
        | false => rfl
        | true =>
          rcases readExact (size + 2) stream with _ | ⟨buffer, rest⟩
          · rfl
          · by_cases hcrlf : buffer.drop size = crlf
            · simp [hcrlf, pure, Except.pure]
            · simp [hcrlf, throw, throwThe, MonadExceptOf.throw]

theorem readArray_header (heap : Allocator) (next : FrameReader) (lenBytes stream : Bytes) :
    readArray heap next lenBytes stream =
      readRest heap next (parsedHeader .items (parseUsize lenBytes)) stream := by
  unfold readArray
  rcases parseUsize lenBytes with error | len
  · rfl
  · simp only [bind, Except.bind, parsedHeader, readRest]
    cases heap.frames len
    · rfl
    · cases readItems next len stream <;> rfl

/-- The dispatch of `read_frame` is the classification of its line. -/
theorem readLine_header (heap : Allocator) (next : FrameReader) (line stream : Bytes) :
    readLine heap next line stream = readRest heap next (lineHeader line) stream := by
  cases line with
  | nil => rfl
  | cons kind text =>
    rw [readLine, lineHeader]
    split_ifs
    · exact readArray_header heap next text stream
    · exact readBulk_header heap next text stream
    · cases bytesToString text <;> rfl
    · cases parseI64 text <;> rfl
    · rfl

end AerugoCache.Protocol
