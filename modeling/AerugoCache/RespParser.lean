import Mathlib.Algebra.GroupWithZero.Nat
import AerugoCache.RespFrame

/-!
# Decoding RESP frames

`protocol/parser.rs`, over the finite stream of bytes still to be read.  A call
of `readFrame` returns the frame and the rest of the stream, `none` at the end of
the stream, or the error that `read_frame` returns.

Two things the source leaves to the runtime are explicit.  An `Allocator` says
which buffer requests are granted: a refused one is the panic of
`Vec::with_capacity` or `vec![0; n]`, or the abort where memory runs out.  The recursion
`read_frame → read_array → read_frame` runs on fuel, the number of calls that the stack of
the thread has room for.  `readFrame` has room for one call per byte of the stream, which
is enough for all of them: the overflow of a real stack is not among its results.
-/

namespace AerugoCache.Protocol

open AerugoCache.ByteText AerugoCache.ByteReader

inductive ReadError where
  | invalidData (message : String)
  | unexpectedEof (message : String)
  | capacityOverflow
  | outOfFuel
deriving DecidableEq, Repr

/-- The errors that `read_frame` returns: a refused buffer is a panic instead. -/
def ReadError.IsIo : ReadError → Prop
  | .invalidData _ | .unexpectedEof _ => True
  | .capacityOverflow | .outOfFuel => False

/-- Which buffers can be allocated: `Vec::with_capacity(len)` of frames, and
    `vec![0; len]` of bytes. -/
structure Allocator where
  frames : Nat → Bool
  bytes : Nat → Bool

/-- Memory is not a limit. -/
def Allocator.unlimited : Allocator := ⟨fun _ => true, fun _ => true⟩

/-- Where a buffer is granted, so is a smaller one. -/
structure Allocator.Downward (heap : Allocator) : Prop where
  frames : ∀ {m n : Nat}, m ≤ n → heap.frames n = true → heap.frames m = true
  bytes : ∀ {m n : Nat}, m ≤ n → heap.bytes n = true → heap.bytes m = true

theorem Allocator.unlimited_downward : Allocator.unlimited.Downward :=
  ⟨fun _ _ => rfl, fun _ _ => rfl⟩

/-! ### Lines and numbers -/

def trimCrlf (line : Bytes) : Bytes :=
  match stripSuffix crlf line with
  | some trimmed => trimmed
  | none => (stripSuffix [ascii '\n'] line).getD line

def bytesToString (bytes : Bytes) : Except ReadError String :=
  match fromUtf8 bytes with
  | some value => .ok value
  | none => .error (.invalidData "invalid UTF-8")

def parseUsize (bytes : Bytes) : Except ReadError Nat := do
  let value ← bytesToString bytes
  match parseUnsigned (2 ^ 64) value with
  | some len => .ok len
  | none => .error (.invalidData "invalid integer")

def parseI64 (bytes : Bytes) : Except ReadError Int64 := do
  let value ← bytesToString bytes
  match parseSigned (2 ^ 63) value with
  | some v => .ok (Int64.ofInt v)
  | none => .error (.invalidData "invalid integer")

/-- `u8::is_ascii_whitespace`. -/
def isAsciiWhitespace (byte : UInt8) : Bool :=
  byte = ascii ' ' ∨ byte = ascii '\t' ∨ byte = ascii '\n' ∨ byte = 12 ∨ byte = ascii '\r'

def parseInlineCommand (line : Bytes) : Frame :=
  .array (((line.splitOnP isAsciiWhitespace).filter fun arg => !arg.isEmpty).map Frame.bulk)

/-! ### Frames -/

def readBulk (heap : Allocator) (lenBytes stream : Bytes) : Except ReadError (Frame × Bytes) := do
  let len ← parseI64 lenBytes
  if len.toInt = -1 then
    return (.null, stream)
  if len.toInt < 0 then
    throw (.invalidData "negative bulk length")
  let len := len.toInt.toNat
  if !heap.bytes (len + 2) then
    throw .capacityOverflow
  match readExact (len + 2) stream with
  | none => throw (.unexpectedEof "early eof")
  | some (buffer, rest) =>
    if buffer.drop len ≠ crlf then
      throw (.invalidData "bulk string missing CRLF terminator")
    return (.bulk (buffer.take len), rest)

/-- The loop of `read_array`: `len` more items, each read by `next`. -/
def readItems (next : Bytes → Except ReadError (Option Frame × Bytes)) :
    Nat → Bytes → Except ReadError (List Frame × Bytes)
  | 0, stream => .ok ([], stream)
  | len + 1, stream =>
      match next stream with
      | .error error => .error error
      | .ok (none, _) =>
          .error (.unexpectedEof "unexpected EOF while reading RESP array")
      | .ok (some frame, rest) =>
          match readItems next len rest with
          | .error error => .error error
          | .ok (items, rest) => .ok (frame :: items, rest)

def readArray (heap : Allocator) (next : Bytes → Except ReadError (Option Frame × Bytes))
    (lenBytes stream : Bytes) : Except ReadError (Frame × Bytes) := do
  let len ← parseUsize lenBytes
  if !heap.frames len then
    throw .capacityOverflow
  let (items, rest) ← readItems next len stream
  return (.array items, rest)

/-- The dispatch of `read_frame` on a trimmed line, with `stream` after it. -/
def readLine (heap : Allocator) (next : Bytes → Except ReadError (Option Frame × Bytes))
    (line stream : Bytes) : Except ReadError (Frame × Bytes) :=
  match line with
  | [] => .ok (.error "ERR empty request", stream)
  | kind :: text =>
      if kind = ascii '*' then readArray heap next text stream
      else if kind = ascii '$' then readBulk heap text stream
      else if kind = ascii '+' then do
        let value ← bytesToString text
        return (.simple value, stream)
      else if kind = ascii ':' then do
        let value ← parseI64 text
        return (.integer value, stream)
      else .ok (parseInlineCommand (kind :: text), stream)

def readFrameFuel (heap : Allocator) : Nat → Bytes → Except ReadError (Option Frame × Bytes)
  | 0, _ => .error .outOfFuel
  | fuel + 1, stream =>
      let (line, rest) := readUntil (ascii '\n') stream
      if line.isEmpty then .ok (none, rest)
      else
        (readLine heap (readFrameFuel heap fuel) (trimCrlf line) rest).map fun (frame, rest) =>
          (some frame, rest)

def readFrame (heap : Allocator) (stream : Bytes) : Except ReadError (Option Frame × Bytes) :=
  readFrameFuel heap (stream.length + 1) stream

/-! ### What the decoder can hold

A length header has to fit its type and the allocator has to grant the buffer.
The first always holds of a frame in memory, where no vector is longer than
`isize::MAX` bytes. -/

def Frame.Held (heap : Allocator) : Frame → Prop
  | .bulk value => value.length < 2 ^ 63 ∧ heap.bytes (value.length + 2) = true
  | .array items => items.length < 2 ^ 64 ∧ heap.frames items.length = true
  | _ => True

def Frame.Fits (heap : Allocator) (frame : Frame) : Prop :=
  ∀ sub ∈ frame.subframes, sub.Held heap

end AerugoCache.Protocol
