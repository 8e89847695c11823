import AerugoCache.CommandErrors
import AerugoCache.Server

/-!
# What a reply looks like on the wire

A reply whose line texts hold no line break is sent as exactly one RESP reply.  Every
reply of the server is of that kind, except the one to an unknown command: it repeats
the name it was given, line breaks included.
-/

namespace AerugoCache.Server

open AerugoCache.ByteText AerugoCache.ByteReader AerugoCache.Protocol AerugoCache.RespReply
  AerugoCache.Storage AerugoCache.Commands AerugoCache.Persistence

/-! ### Frames that are sent as one reply -/

/-- No line break in a simple or error text at any depth. -/
def LineSafe (frame : Frame) : Prop :=
  ∀ text, .simple text ∈ frame.subframes ∨ .error text ∈ frame.subframes → OneLine (utf8 text)

theorem lineSafe_bulk (value : Bytes) : LineSafe (.bulk value) := by
  intro text h
  simp [Frame.subframes] at h

theorem lineSafe_integer (value : Int64) : LineSafe (.integer value) := by
  intro text h
  simp [Frame.subframes] at h

theorem lineSafe_null : LineSafe .null := by
  intro text h
  simp [Frame.subframes] at h

theorem lineSafe_simple {text : String} (h : OneLine (utf8 text)) : LineSafe (.simple text) := by
  intro text' h'
  have heq : text' = text := by simpa [Frame.subframes] using h'
  rwa [heq]

theorem lineSafe_error {text : String} : LineSafe (.error text) ↔ OneLine (utf8 text) := by
  constructor
  · intro h
    exact h text (Or.inr (Frame.self_mem_subframes _))
  · intro h text' h'
    have heq : text' = text := by simpa [Frame.subframes] using h'
    rwa [heq]

theorem lineSafe_array {items : List Frame} :
    LineSafe (.array items) ↔ ∀ item ∈ items, LineSafe item := by
  constructor
  · intro h item hitem text hmem
    apply h text
    rcases hmem with hsimple | herror
    · exact Or.inl (Frame.mem_subframes_array.mpr (Or.inr ⟨item, hitem, hsimple⟩))
    · exact Or.inr (Frame.mem_subframes_array.mpr (Or.inr ⟨item, hitem, herror⟩))
  · intro h text hmem
    rcases hmem with hsimple | herror
    · rcases Frame.mem_subframes_array.mp hsimple with heq | ⟨item, hitem, hsub⟩
      · cases heq
      · exact h item hitem text (Or.inl hsub)
    · rcases Frame.mem_subframes_array.mp herror with heq | ⟨item, hitem, hsub⟩
      · cases heq
      · exact h item hitem text (Or.inr hsub)

theorem writeFrame_isReply (frame : Frame) : LineSafe frame → IsReply (writeFrame frame) := by
  induction frame using Frame.induction with
  | simple value =>
    intro h
    rw [writeFrame_simple]
    exact .simple _ (h value (Or.inl (Frame.self_mem_subframes _)))
  | error value =>
    intro h
    rw [writeFrame_error]
    exact .error _ (lineSafe_error.mp h)
  | integer value =>
    intro _
    rw [writeFrame_integer]
    exact .integer value.toInt
  | bulk value =>
    intro _
    rw [writeFrame_bulk]
    exact .bulk value
  | null =>
    intro _
    rw [writeFrame_null]
    exact .null
  | array items ih =>
    intro h
    have hitems := lineSafe_array.mp h
    rw [writeFrame_array, List.flatMap_def]
    have harray := IsReply.array (items.map writeFrame) (by
      intro bytes hbytes
      obtain ⟨item, hitem, rfl⟩ := List.mem_map.mp hbytes
      exact ih item hitem (hitems item hitem))
    rwa [List.length_map] at harray

/-! ### Replies of the server -/

theorem lineSafe_errorFrame {error : CommandError} :
    LineSafe (Command.errorFrame error) ↔ OneLine (utf8 error.display) := by
  have hprefixed : LineSafe (.error ("ERR " ++ error.display)) ↔ OneLine (utf8 error.display) := by
    rw [lineSafe_error, utf8_append, oneLine_append]
    exact and_iff_right (by decide)
  cases error with
  | wrongType | outOfMemory => exact lineSafe_error
  | _ => exact hprefixed

theorem lineSafe_flag (value : Bool) : LineSafe (flag value) := lineSafe_integer _

theorem lineSafe_bulkOrNull (value : Option Bytes) : LineSafe (bulkOrNull value) := by
  cases value with
  | none => exact lineSafe_null
  | some value => exact lineSafe_bulk value

theorem lineSafe_inspectionToFrame (inspection : KeyInspection) :
    LineSafe (inspectionToFrame inspection) := by
  rw [inspectionToFrame, lineSafe_array]
  intro item hitem
  simp only [List.mem_cons, List.not_mem_nil, or_false] at hitem
  rcases hitem with rfl | rfl | rfl | rfl | rfl | rfl
  · exact lineSafe_bulk _
  · exact lineSafe_bulk _
  · exact lineSafe_integer _
  · exact lineSafe_integer _
  · exact lineSafe_integer _
  · exact lineSafe_integer _

/-- The reply a command computes, or the frame of its error. -/
def responseFrame : Except CommandError Frame → Frame
  | .ok response => response
  | .error error => Command.errorFrame error

theorem lineSafe_reply {α : Type} {frame : α → Frame} (h : ∀ value, LineSafe (frame value))
    (result : Except StoreError α) : LineSafe (responseFrame (reply frame result)) := by
  cases result with
  | ok value => exact h value
  | error error =>
    have htext : OneLine (utf8 (CommandError.ofStoreError error).display) := by
      cases error <;> decide
    exact lineSafe_errorFrame.mpr htext

/-- Whatever a command answers is sent as one reply. -/
theorem lineSafe_execute (command : Command) (env : Env) (store : MemoryStore) :
    LineSafe (responseFrame (command.execute env store).1) := by
  cases command with
  | ping value =>
    cases value with
    | none => exact lineSafe_simple (by decide)
    | some value => exact lineSafe_bulk value
  | echo value => exact lineSafe_bulk value
  | set key value => exact lineSafe_reply (fun _ => lineSafe_simple (by decide)) _
  | get key => exact lineSafe_reply lineSafe_bulkOrNull _
  | del keys => exact lineSafe_integer _
  | «exists» keys => exact lineSafe_integer _
  | expire key seconds => exact lineSafe_flag _
  | expireAt key unixSeconds => exact lineSafe_flag _
  | ttl key => exact lineSafe_integer _
  | persist key => exact lineSafe_flag _
  | lpush key values => exact lineSafe_reply (fun _ => lineSafe_integer _) _
  | rpush key values => exact lineSafe_reply (fun _ => lineSafe_integer _) _
  | lpop key => exact lineSafe_reply lineSafe_bulkOrNull _
  | rpop key => exact lineSafe_reply lineSafe_bulkOrNull _
  | lrange key start stop =>
    refine lineSafe_reply (fun values => lineSafe_array.mpr ?_) _
    intro item hitem
    obtain ⟨value, -, rfl⟩ := List.mem_map.mp hitem
    exact lineSafe_bulk value
  | dbSize => exact lineSafe_integer _
  | info => exact lineSafe_bulk _
  | aerugoStats => exact lineSafe_bulk _
  | aerugoInspect limit =>
    refine lineSafe_array.mpr ?_
    intro item hitem
    obtain ⟨inspection, -, rfl⟩ := List.mem_map.mp hitem
    exact lineSafe_inspectionToFrame inspection

/-- The reply to a request: of its command, of its error, or about the log. -/
theorem handleRequest_response (request : Request) (state : ServerState) :
    (∃ command, Command.fromFrame request.frame = .ok command ∧
        ((handleRequest request state).1 =
            responseFrame (command.execute request.env state.store).1 ∨
          (handleRequest request state).1 = PERSIST_FAILURE)) ∨
      ∃ error, Command.fromFrame request.frame = .error error ∧
        (handleRequest request state).1 = Command.errorFrame error := by
  unfold handleRequest executeRequest
  cases hparse : Command.fromFrame request.frame with
  | error error => exact Or.inr ⟨error, rfl, rfl⟩
  | ok command =>
    refine Or.inl ⟨command, rfl, ?_⟩
    rcases hexecute : command.execute request.env state.store with ⟨error | response, store⟩
    · exact Or.inl (by simp only [hexecute, Except.map, responseFrame])
    · simp only [hexecute, Except.map, responseFrame]
      split
      · exact Or.inl rfl
      · exact Or.inr rfl

/-- The request is a command whose name holds a line break. -/
def NameBreaksLine (frame : Frame) : Prop :=
  ∃ name args, frame = commandFrame name args ∧ ¬ OneLine (utf8 name)

/-- A name with a line break is unknown, and is repeated in upper case. -/
theorem fromFrame_breakingName {name : String} (hbreak : ¬ OneLine (utf8 name))
    (args : List Bytes) :
    Command.fromFrame (commandFrame name args) = .error (.unknown (toAsciiUppercase name)) := by
  rw [fromFrame_commandFrame]
  apply parseCommand_unknown
  intro hknown
  exact hbreak ((oneLine_toAsciiUppercase name).mp (oneLine_of_mem_names hknown))

/-- **Replies on the wire.**  The reply to a request holds no line break in a text,
    and is sent as exactly one RESP reply, if and only if the request is not a command
    whose name holds a line break. -/
theorem reply_exactly_one_iff (request : Request) (state : ServerState) :
    (LineSafe (handleRequest request state).1 ∧
        ExactlyOneReply (writeFrame (handleRequest request state).1)) ↔
      ¬ NameBreaksLine request.frame := by
  constructor
  · rintro ⟨hsafe, -⟩ ⟨name, args, hframe, hbreak⟩
    have hparse := fromFrame_breakingName hbreak args
    rw [← hframe] at hparse
    rcases handleRequest_response request state with ⟨command, hok, -⟩ | ⟨error, herror, hreply⟩
    · rw [hparse] at hok
      cases hok
    · rw [hparse] at herror
      cases herror
      rw [hreply, lineSafe_errorFrame, oneLine_unknown, oneLine_toAsciiUppercase] at hsafe
      exact hbreak hsafe
  · intro hname
    have hsafe : LineSafe (handleRequest request state).1 := by
      rcases handleRequest_response request state with
        ⟨command, -, hreply | hreply⟩ | ⟨error, herror, hreply⟩
      · rw [hreply]
        exact lineSafe_execute command request.env state.store
      · rw [hreply]
        exact lineSafe_error.mpr (by decide)
      · rw [hreply, lineSafe_errorFrame]
        rcases fromFrame_error herror with hline | ⟨name, args, hframe, rfl⟩
        · exact hline
        · rw [oneLine_unknown, oneLine_toAsciiUppercase]
          by_contra hbreak
          exact hname ⟨name, args, hframe, hbreak⟩
    exact ⟨hsafe, (writeFrame_isReply _ hsafe).exactlyOne⟩

/-- A request as `read_frame` returns it, whose name carries a second reply. -/
def smugglingRequest : Request :=
  clientRequest "x\r\n+OK" [] (.at 0 0)

theorem reply_smuggles :
    readFrame .unlimited (utf8 "*1\r\n$6\r\nx\r\n+OK\r\n") =
        .ok (some smugglingRequest.frame, []) ∧
      writeFrame (handleRequest smugglingRequest (.initial .default)).1 =
        utf8 "-ERR unknown command 'X\r\n+OK'\r\n" ∧
      ¬ LineSafe (handleRequest smugglingRequest (.initial .default)).1 := by
  refine ⟨rfl, rfl, ?_⟩
  intro hsafe
  exact absurd (lineSafe_error.mp hsafe) (by decide)

end AerugoCache.Server
