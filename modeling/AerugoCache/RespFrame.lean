import AerugoCache.ByteReader

/-!
# RESP frames and their encoding

`protocol/frame.rs` and `protocol/encoder.rs`.  A frame is one of the five RESP2
types plus the null bulk; `writeFrame` is the sequence of bytes that
`write_frame` hands to its writer.
-/

namespace AerugoCache.Protocol

open AerugoCache.ByteText AerugoCache.ByteReader

inductive Frame where
  | simple (value : String)
  | error (value : String)
  | integer (value : Int64)
  | bulk (value : Bytes)
  | null
  | array (items : List Frame)
deriving Repr

/-- Induction over frames: an array is proved from its items. -/
theorem Frame.induction {P : Frame → Prop} (simple : ∀ value, P (.simple value))
    (error : ∀ value, P (.error value)) (integer : ∀ value, P (.integer value))
    (bulk : ∀ value, P (.bulk value)) (null : P .null)
    (array : ∀ items, (∀ item ∈ items, P item) → P (.array items)) (frame : Frame) :
    P frame := by
  refine Frame.rec (motive_1 := P) (motive_2 := fun items => ∀ item ∈ items, P item)
    simple error integer bulk null array ?_ ?_ frame
  · intro item hitem
    cases hitem
  · intro head tail hhead htail item hitem
    rcases List.mem_cons.mp hitem with rfl | hmem
    · exact hhead
    · exact htail item hmem

/-! ### Frames inside a frame

`subframes` lists a frame and every frame nested in it, at any depth. -/

mutual

def Frame.subframes : Frame → List Frame
  | .array items => .array items :: subframesOf items
  | frame => [frame]

def subframesOf : List Frame → List Frame
  | [] => []
  | item :: items => item.subframes ++ subframesOf items

end

theorem subframesOf_eq (items : List Frame) :
    subframesOf items = items.flatMap Frame.subframes := by
  induction items with
  | nil => rfl
  | cons item items ih => simp [subframesOf, ih]

theorem Frame.self_mem_subframes (frame : Frame) : frame ∈ frame.subframes := by
  cases frame <;> simp [Frame.subframes]

theorem Frame.mem_subframes_array {items : List Frame} {frame : Frame} :
    frame ∈ (Frame.array items).subframes ↔
      frame = .array items ∨ ∃ item ∈ items, frame ∈ item.subframes := by
  simp [Frame.subframes, subframesOf_eq]

/-! ### Encoding -/

mutual

def writeFrame : Frame → Bytes
  | .simple value => [ascii '+'] ++ utf8 value ++ crlf
  | .error value => [ascii '-'] ++ utf8 value ++ crlf
  | .integer value => utf8 s!":{value}\r\n"
  | .bulk value => utf8 s!"${value.length}\r\n" ++ value ++ crlf
  | .null => utf8 "$-1\r\n"
  | .array items => utf8 s!"*{items.length}\r\n" ++ writeItems items

def writeItems : List Frame → Bytes
  | [] => []
  | item :: items => writeFrame item ++ writeItems items

end

theorem writeItems_eq (items : List Frame) : writeItems items = items.flatMap writeFrame := by
  induction items with
  | nil => rfl
  | cons item items ih => simp [writeItems, ih]

/-! Every frame starts with a header line: a type byte, a text, CRLF. -/

def headerLine (kind : Char) (text : String) : Bytes :=
  ascii kind :: (utf8 text ++ crlf)

theorem writeFrame_simple (value : String) :
    writeFrame (.simple value) = headerLine '+' value := by
  simp [writeFrame, headerLine]

theorem writeFrame_error (value : String) :
    writeFrame (.error value) = headerLine '-' value := by
  simp [writeFrame, headerLine]

theorem writeFrame_integer (value : Int64) :
    writeFrame (.integer value) = headerLine ':' (toString value) := by
  change utf8 (":" ++ toString value ++ "\r\n") = _
  rw [utf8_append, utf8_append]
  rfl

theorem writeFrame_bulk (value : Bytes) :
    writeFrame (.bulk value) = headerLine '$' (toString value.length) ++ (value ++ crlf) := by
  change utf8 ("$" ++ toString value.length ++ "\r\n") ++ value ++ crlf = _
  rw [utf8_append, utf8_append, List.append_assoc]
  rfl

theorem writeFrame_null : writeFrame .null = headerLine '$' (toString (-1 : Int)) := by
  rfl

theorem writeFrame_array (items : List Frame) :
    writeFrame (.array items) =
      headerLine '*' (toString items.length) ++ items.flatMap writeFrame := by
  rw [← writeItems_eq]
  change utf8 ("*" ++ toString items.length ++ "\r\n") ++ writeItems items = _
  rw [utf8_append, utf8_append]
  rfl

end AerugoCache.Protocol
