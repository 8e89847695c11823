import AerugoCache.Concurrent
import AerugoCache.ErrorReplies
import AerugoCache.LogScan

/-!
# The ledger of acknowledged writes

Every append adds the record of one request of one connection.  The ledger of a run
names them: the connection, the number of the request, and the frame.  The records of
one connection are those of the requests it answered without an error, in the order
of the requests; a request whose record is appended and whose reply is still to be
sent may follow them.  An append here either writes the whole record or nothing.
-/

namespace AerugoCache.Concurrent

open AerugoCache.ByteText AerugoCache.Protocol AerugoCache.Storage AerugoCache.Commands
  AerugoCache.Persistence AerugoCache.Server

/-! ### What a run appends -/

/-- A record of the log: whose it is, the number of the request, and its frame. -/
structure Receipt (Id : Type) where
  id : Id
  index : Nat
  frame : Frame

/-- The frame a request is logged as if its command succeeds. -/
def loggedFrame (request : Request) : Option Frame :=
  (Command.fromFrame request.frame).toOption.bind fun command =>
    command.toAofFrame request.env.clock

/-- What the log owes a request that got this reply: nothing if the reply is an error. -/
def owed (request : Request) : Frame → Option Frame
  | .error _ => none
  | _ => loggedFrame request

section

variable {Id : Type}

/-- The record a step of a connection appends.  A connection that has sent `n` replies
    is at its request number `n`. -/
def Connection.appended (connection : Connection) (id : Id) (action : Action) :
    Option (Receipt Id) :=
  match action, connection.stage with
  | .append, .executed _ (some frame) .written => some ⟨id, connection.replies.length, frame⟩
  | _, _ => none

/-- The records of answered requests, in the order of the requests. -/
def answered (id : Id) (requests : List Request) (replies : List Frame) : List (Receipt Id) :=
  (requests.zip replies).zipIdx.filterMap fun ((request, reply), index) =>
    (owed request reply).map (Receipt.mk id index)

theorem mem_answered {id : Id} {requests : List Request} {replies : List Frame}
    {receipt : Receipt Id} :
    receipt ∈ answered id requests replies ↔
      ∃ request reply, requests[receipt.index]? = some request ∧
        replies[receipt.index]? = some reply ∧ receipt.id = id ∧
        owed request reply = some receipt.frame := by
  simp only [answered, List.mem_filterMap, Option.map_eq_some_iff, Prod.exists]
  constructor
  · rintro ⟨request, reply, index, hmem, frame, howed, rfl⟩
    obtain ⟨hrequest, hreply⟩ := List.getElem?_zip_eq_some.mp
      (List.mem_zipIdx_iff_getElem?.mp hmem)
    exact ⟨request, reply, hrequest, hreply, rfl, howed⟩
  · rintro ⟨request, reply, hrequest, hreply, rfl, howed⟩
    refine ⟨request, reply, receipt.index, ?_, receipt.frame, howed, rfl⟩
    exact List.mem_zipIdx_iff_getElem?.mpr (List.getElem?_zip_eq_some.mpr ⟨hrequest, hreply⟩)

theorem answered_pairwise (id : Id) (requests : List Request) (replies : List Frame) :
    (answered id requests replies).Pairwise fun earlier later => earlier.index < later.index := by
  have hindices : (requests.zip replies).zipIdx.Pairwise fun earlier later =>
      earlier.2 < later.2 := by
    apply List.pairwise_map.mp
    rw [List.zipIdx_map_snd]
    exact List.pairwise_lt_range'
  refine List.Pairwise.filterMap _ ?_ hindices
  rintro ⟨_, index⟩ ⟨_, index'⟩ hlt receipt hreceipt receipt' hreceipt'
  obtain ⟨frame, -, rfl⟩ := Option.map_eq_some_iff.mp hreceipt
  obtain ⟨frame', -, rfl⟩ := Option.map_eq_some_iff.mp hreceipt'
  exact hlt

theorem answered_concat (id : Id) {requests : List Request} {replies : List Frame}
    (hlength : requests.length = replies.length) (request : Request) (reply : Frame) :
    answered id (requests ++ [request]) (replies ++ [reply]) =
      answered id requests replies ++
        ((owed request reply).map (Receipt.mk id replies.length)).toList := by
  unfold answered
  rw [List.zip_append hlength, List.zipIdx_append, List.filterMap_append]
  congr 1
  have hzip : (requests.zip replies).length = replies.length := by
    rw [List.length_zip, hlength, Nat.min_self]
  simp only [List.zip_cons_cons, List.zip_nil_right, List.zipIdx_singleton, hzip, Nat.zero_add,
    List.filterMap_cons, List.filterMap_nil]
  cases (owed request reply) <;> rfl

/-! ### Executing a request -/

theorem exists_errorFrame (error : CommandError) :
    ∃ text, Command.errorFrame error = .error text := by
  cases error <;> exact ⟨_, rfl⟩

theorem owed_of_ne_error {request : Request} {reply : Frame}
    (h : ∀ text, reply ≠ .error text) : owed request reply = loggedFrame request := by
  cases reply with
  | error text => exact absurd rfl (h text)
  | simple | integer | bulk | null | array => rfl

/-- A request that succeeds hands on its record, and its response is no error. -/
theorem executeRequest_ok {request : Request} {store : MemoryStore} {response : Frame}
    {aofFrame : Option Frame}
    (h : (executeRequest request store).1 = .ok (response, aofFrame)) :
    aofFrame = loggedFrame request ∧ ∀ text, response ≠ .error text := by
  unfold executeRequest at h
  split at h
  · rename_i command hparse
    rcases hexecute : (command.execute request.env store).1 with error | reply
    · simp [hexecute, Except.map] at h
    · simp only [hexecute, Except.map, Except.ok.injEq, Prod.mk.injEq] at h
      obtain ⟨rfl, rfl⟩ := h
      refine ⟨?_, execute_ne_error hexecute⟩
      rw [loggedFrame, hparse]
      rfl
  · cases h

/-! ### The records of one connection -/

/-- The records of a connection are those its replies call for. -/
def Booked (id : Id) (requests : List Request) (records : List (Receipt Id))
    (connection : Connection) : Prop :=
  ∃ past, past.length = connection.replies.length ∧
    match connection.stage with
    | .reading =>
        requests = past ++ connection.requests ∧
          records = answered id past connection.replies
    | .executed response aofFrame outcome =>
        ∃ request, requests = past ++ request :: connection.requests ∧
          (outcome = request.outcome ∧ aofFrame = loggedFrame request ∧
            ∀ text, response ≠ .error text) ∧
          records = answered id past connection.replies
    | .replying response =>
        ∃ request, requests = past ++ request :: connection.requests ∧
          records = answered id (past ++ [request]) (connection.replies ++ [response])

/-- In every stage the records answer a beginning of the requests, by the replies sent and
    at most one more. -/
theorem Booked.exists_answered {id : Id} {requests : List Request} {records : List (Receipt Id)}
    {connection : Connection} (h : Booked id requests records connection) :
    ∃ past replies, past.length = replies.length ∧ past <+: requests ∧
      connection.replies <+: replies ∧ records = answered id past replies := by
  obtain ⟨past, hlength, h⟩ := h
  split at h
  · obtain ⟨hrequests, hrecords⟩ := h
    exact ⟨past, _, hlength, ⟨_, hrequests.symm⟩, List.prefix_rfl, hrecords⟩
  · obtain ⟨request, hrequests, -, hrecords⟩ := h
    exact ⟨past, _, hlength, ⟨_, hrequests.symm⟩, List.prefix_rfl, hrecords⟩
  · obtain ⟨request, hrequests, hrecords⟩ := h
    refine ⟨past ++ [request], _, ?_, ⟨connection.requests, ?_⟩, List.prefix_append _ _, hrecords⟩
    · simp [hlength]
    · rw [hrequests]
      simp

/-- A step of a connection keeps its records those that its replies call for. -/
theorem Booked.step {id : Id} {requests : List Request} {records : List (Receipt Id)}
    {connection next : Connection} {server server' : ServerState} {action : Action}
    (h : Booked id requests records connection)
    (houtcome : ∀ request ∈ requests, request.outcome = .written ∨ request.outcome = .failed 0)
    (haof : server.aof.isSome)
    (hstep : connection.step action server = some (next, server')) :
    Booked id requests (records ++ (connection.appended id action).toList) next := by
  obtain ⟨past, hlength, h⟩ := h
  rcases Connection.step_cases hstep with
    ⟨request, rest, rfl, hstage, hrequests, rfl, rfl⟩ |
    ⟨response, aofFrame, outcome, rfl, hstage, rfl, rfl⟩ |
    ⟨response, rfl, hstage, rfl, rfl⟩
  · rw [hstage] at h
    obtain ⟨hall, hrecords⟩ := h
    rw [hrequests] at hall
    simp only [Connection.appended, Option.toList_none, List.append_nil]
    refine ⟨past, hlength, ?_⟩
    rcases hexecute : (executeRequest request server.store).1 with error | ⟨response, aofFrame⟩
    · -- the error is the reply, and the log owes it nothing
      obtain ⟨text, htext⟩ := exists_errorFrame error
      refine ⟨request, hall, ?_⟩
      rw [answered_concat id hlength, htext, hrecords]
      simp [owed]
    · exact ⟨request, hall, ⟨rfl, executeRequest_ok hexecute⟩, hrecords⟩
  · rw [hstage] at h
    obtain ⟨request, hall, ⟨rfl, rfl, hresponse⟩, hrecords⟩ := h
    obtain ⟨log, hlog⟩ := Option.isSome_iff_exists.mp haof
    refine ⟨past, hlength, request, hall, ?_⟩
    rw [answered_concat id hlength, hrecords, hlog]
    congr 1
    have hmem : request ∈ requests := by
      rw [hall]
      simp
    simp only [Connection.appended, hstage]
    rcases hframe : loggedFrame request with _ | frame
    · simp [appendCommand, owed_of_ne_error hresponse, hframe]
    · rcases houtcome request hmem with hwritten | hfailed
      · simp [appendCommand, append, hwritten, owed_of_ne_error hresponse, hframe]
      · simp [appendCommand, append, hfailed, PERSIST_FAILURE, owed]
  · rw [hstage] at h
    obtain ⟨request, hall, hrecords⟩ := h
    simp only [Connection.appended, Option.toList_none, List.append_nil]
    refine ⟨past ++ [request], ?_, ?_, hrecords⟩
    · simp [hlength]
    · rw [hall]
      simp

/-! ### The records of the system -/

variable [DecidableEq Id]

/-- The records a run appends, in the order in which it appends them. -/
def System.ledger : List (Id × Action) → System Id → List (Receipt Id)
  | [], _ => []
  | (id, action) :: schedule, system =>
      ((system.connections id).appended id action).toList ++
        match system.step id action with
        | some next => System.ledger schedule next
        | none => []

/-- Connections that have read nothing yet, on any server. -/
def System.fresh (server : ServerState) (requests : Id → List Request) : System Id where
  server := server
  connections id := { requests := requests id, stage := .reading, replies := [] }

/-- The bytes of the records of a ledger. -/
def ledgerBytes (ledger : List (Receipt Id)) : Bytes :=
  (ledger.map Receipt.frame).flatMap writeFrame

/-- The log ends with the records of the ledger, and each connection has in it the
    records its replies call for. -/
structure Ledgered (log : Bytes) (requests : Id → List Request) (system : System Id)
    (ledger : List (Receipt Id)) : Prop where
  aof : system.server.aof = some (log ++ ledgerBytes ledger)
  booked : ∀ id, Booked id (requests id) (ledger.filter fun receipt => receipt.id = id)
    (system.connections id)

omit [DecidableEq Id] in
theorem appended_id {connection : Connection} {id : Id} {action : Action} {receipt : Receipt Id}
    (h : connection.appended id action = some receipt) : receipt.id = id := by
  unfold Connection.appended at h
  split at h
  · cases h
    rfl
  · cases h

omit [DecidableEq Id] in
/-- A step writes to the log what it appends to the ledger. -/
theorem step_aof {connection next : Connection} {server server' : ServerState} {id : Id}
    {action : Action} {log : Bytes} (haof : server.aof = some log)
    (houtcome : ∀ response aofFrame outcome,
      connection.stage = .executed response aofFrame outcome →
      outcome = .written ∨ outcome = .failed 0)
    (hstep : connection.step action server = some (next, server')) :
    server'.aof = some (log ++ ledgerBytes (connection.appended id action).toList) := by
  rcases Connection.step_cases hstep with
    ⟨request, rest, rfl, hstage, hrequests, rfl, rfl⟩ |
    ⟨response, aofFrame, outcome, rfl, hstage, rfl, rfl⟩ |
    ⟨response, rfl, hstage, rfl, rfl⟩
  · simp [Connection.appended, ledgerBytes, haof]
  · simp only [Connection.appended, hstage]
    rcases aofFrame with _ | frame
    · simp [appendCommand, haof, ledgerBytes]
    · rcases houtcome _ _ _ hstage with rfl | rfl
      · simp [appendCommand, append, haof, ledgerBytes]
      · simp [appendCommand, append, haof, ledgerBytes]
  · simp [Connection.appended, ledgerBytes, haof]

omit [DecidableEq Id] in
theorem Booked.outcome {id : Id} {requests : List Request} {records : List (Receipt Id)}
    {connection : Connection} (h : Booked id requests records connection)
    (houtcome : ∀ request ∈ requests, request.outcome = .written ∨ request.outcome = .failed 0)
    {response : Frame} {aofFrame : Option Frame} {outcome : AppendOutcome}
    (hstage : connection.stage = .executed response aofFrame outcome) :
    outcome = .written ∨ outcome = .failed 0 := by
  obtain ⟨past, -, h⟩ := h
  rw [hstage] at h
  obtain ⟨request, hall, ⟨rfl, -, -⟩, -⟩ := h
  apply houtcome
  rw [hall]
  simp

theorem Ledgered.step {log : Bytes} {requests : Id → List Request} {system next : System Id}
    {ledger : List (Receipt Id)} {id : Id} {action : Action}
    (h : Ledgered log requests system ledger)
    (houtcome : ∀ id, ∀ request ∈ requests id,
      request.outcome = .written ∨ request.outcome = .failed 0)
    (hstep : system.step id action = some next) :
    Ledgered log requests next
      (ledger ++ ((system.connections id).appended id action).toList) := by
  obtain ⟨connection, server, hconnection, rfl⟩ := System.step_some hstep
  constructor
  · have hstage : ∀ response aofFrame outcome,
        (system.connections id).stage = .executed response aofFrame outcome →
        outcome = .written ∨ outcome = .failed 0 := by
      intro response aofFrame outcome hstage
      exact (h.booked id).outcome (houtcome id) hstage
    have hlog : server.aof = some (log ++ ledgerBytes ledger ++
        ledgerBytes ((system.connections id).appended id action).toList) :=
      step_aof h.aof hstage hconnection
    rw [hlog]
    simp [ledgerBytes]
  · intro other
    change Booked other _ _ (Function.update system.connections id connection other)
    rw [List.filter_append]
    by_cases hother : other = id
    · subst hother
      have hown : ((system.connections other).appended other action).toList.filter
          (fun receipt => receipt.id = other) =
          ((system.connections other).appended other action).toList := by
        apply List.filter_eq_self.mpr
        intro receipt hreceipt
        simpa using appended_id (Option.mem_toList.mp hreceipt)
      rw [Function.update_self, hown]
      exact (h.booked other).step (houtcome other) (by rw [h.aof]; rfl) hconnection
    · have hforeign : ((system.connections id).appended id action).toList.filter
          (fun receipt => receipt.id = other) = [] := by
        apply List.filter_eq_nil_iff.mpr
        intro receipt hreceipt
        rw [appended_id (Option.mem_toList.mp hreceipt)]
        simpa using Ne.symm hother
      rw [Function.update_of_ne hother, hforeign, List.append_nil]
      exact h.booked other

theorem Ledgered.run {log : Bytes} {requests : Id → List Request} {system last : System Id}
    {ledger : List (Receipt Id)} {schedule : List (Id × Action)}
    (h : Ledgered log requests system ledger)
    (houtcome : ∀ id, ∀ request ∈ requests id,
      request.outcome = .written ∨ request.outcome = .failed 0)
    (hrun : system.run schedule = some last) :
    Ledgered log requests last (ledger ++ system.ledger schedule) := by
  induction schedule generalizing system ledger with
  | nil =>
    cases hrun
    simpa [System.ledger] using h
  | cons event schedule ih =>
    obtain ⟨id, action⟩ := event
    obtain ⟨next, hstep, hrun⟩ := Option.bind_eq_some_iff.mp hrun
    have hlast := ih (h.step houtcome hstep) hrun
    rw [List.append_assoc] at hlast
    simpa only [System.ledger, hstep] using hlast

theorem ledgered_fresh {server : ServerState} {log : Bytes} (haof : server.aof = some log)
    (requests : Id → List Request) :
    Ledgered log requests (.fresh server requests) [] where
  aof := by simp [System.fresh, haof, ledgerBytes]
  booked _ := ⟨[], rfl, rfl, rfl⟩

/-! ### What the ledger says -/

omit [DecidableEq Id] in
/-- A record of strictly increasing indices is the only one with its index. -/
theorem filter_index {records : List (Receipt Id)}
    (h : records.Pairwise fun earlier later => earlier.index < later.index)
    {receipt : Receipt Id} (hmem : receipt ∈ records) :
    records.filter (fun other => other.index = receipt.index) = [receipt] := by
  induction records with
  | nil => cases hmem
  | cons first records ih =>
    obtain ⟨hfirst, hrest⟩ := List.pairwise_cons.mp h
    rcases List.mem_cons.mp hmem with rfl | hmem
    · have hnone : records.filter (fun other => other.index = receipt.index) = [] := by
        apply List.filter_eq_nil_iff.mpr
        intro other hother
        have hlt := hfirst other hother
        simp only [decide_eq_true_eq]
        omega
      simp [hnone]
    · have hlt := hfirst receipt hmem
      have hne : first.index ≠ receipt.index := by omega
      simp [hne, ih hrest hmem]

theorem getElem?_of_isPrefix {α : Type} {beginning whole : List α} (h : beginning <+: whole)
    {index : Nat} {item : α} (hitem : beginning[index]? = some item) :
    whole[index]? = some item := by
  obtain ⟨rest, rfl⟩ := h
  obtain ⟨hindex, -⟩ := List.getElem?_eq_some_iff.mp hitem
  rw [List.getElem?_append_left hindex, hitem]

omit [DecidableEq Id] in
/-- What is in the records of a connection: the frames its answered requests are logged
    as, and at most one whose reply is still to be sent. -/
theorem Booked.mem {id : Id} {requests : List Request} {records : List (Receipt Id)}
    {connection : Connection} (h : Booked id requests records connection) {receipt : Receipt Id}
    (hmem : receipt ∈ records) :
    ∃ request reply, requests[receipt.index]? = some request ∧
      owed request reply = some receipt.frame ∧
      ∀ sent, connection.replies[receipt.index]? = some sent → sent = reply := by
  obtain ⟨past, replies, -, hpast, hreplies, rfl⟩ := h.exists_answered
  obtain ⟨request, reply, hrequest, hreply, -, howed⟩ := mem_answered.mp hmem
  refine ⟨request, reply, getElem?_of_isPrefix hpast hrequest, howed, ?_⟩
  intro sent hsent
  have hsame := getElem?_of_isPrefix hreplies hsent
  rw [hreply] at hsame
  exact (Option.some.inj hsame).symm

omit [DecidableEq Id] in
theorem Booked.mem_of_sent {id : Id} {requests : List Request} {records : List (Receipt Id)}
    {connection : Connection} (h : Booked id requests records connection) {index : Nat}
    {request : Request} {reply frame : Frame} (hrequest : requests[index]? = some request)
    (hreply : connection.replies[index]? = some reply) (howed : owed request reply = some frame) :
    ⟨id, index, frame⟩ ∈ records := by
  obtain ⟨past, replies, hlength, hpast, hreplies, rfl⟩ := h.exists_answered
  have hsent := getElem?_of_isPrefix hreplies hreply
  obtain ⟨hindex, -⟩ := List.getElem?_eq_some_iff.mp hsent
  have hanswered : index < past.length := by omega
  have hsame := getElem?_of_isPrefix hpast (List.getElem?_eq_getElem hanswered)
  refine mem_answered.mpr ⟨request, reply, ?_, hsent, rfl, howed⟩
  rw [List.getElem?_eq_getElem hanswered, ← hsame, hrequest]

theorem loggedFrame_some {request : Request} {frame : Frame}
    (h : loggedFrame request = some frame) :
    ∃ command, Command.fromFrame request.frame = .ok command ∧
      command.toAofFrame request.env.clock = some frame := by
  obtain ⟨command, hparse, hframe⟩ := Option.bind_eq_some_iff.mp h
  refine ⟨command, ?_, hframe⟩
  cases hresult : Command.fromFrame request.frame with
  | error error =>
    rw [hresult] at hparse
    cases hparse
  | ok parsed =>
    rw [hresult] at hparse
    cases hparse
    rfl

theorem owed_some {request : Request} {reply frame : Frame} (h : owed request reply = some frame) :
    loggedFrame request = some frame ∧ ∀ text, reply ≠ .error text := by
  cases reply with
  | error text => cases h
  | simple | integer | bulk | null | array => exact ⟨h, nofun⟩

theorem Ledgered.receipt {log : Bytes} {requests : Id → List Request} {system : System Id}
    {ledger : List (Receipt Id)} (h : Ledgered log requests system ledger) {receipt : Receipt Id}
    (hmem : receipt ∈ ledger) :
    ∃ request command, (requests receipt.id)[receipt.index]? = some request ∧
      Command.fromFrame request.frame = .ok command ∧
      command.toAofFrame request.env.clock = some receipt.frame ∧
      ∀ text, (system.connections receipt.id).replies[receipt.index]? ≠ some (.error text) := by
  obtain ⟨request, reply, hrequest, howed, hsent⟩ :=
    (h.booked receipt.id).mem (List.mem_filter.mpr ⟨hmem, decide_eq_true rfl⟩)
  obtain ⟨hlogged, hreply⟩ := owed_some howed
  obtain ⟨command, hparse, hframe⟩ := loggedFrame_some hlogged
  refine ⟨request, command, hrequest, hparse, hframe, ?_⟩
  intro text htext
  exact hreply text (hsent _ htext).symm

theorem Ledgered.scan {log : Bytes} {requests : Id → List Request} {system : System Id}
    {ledger : List (Receipt Id)} (h : Ledgered log requests system ledger) :
    scanLog .unlimited (ledgerBytes ledger) = (ledger.map Receipt.frame, .ok ()) := by
  have hrecord : ∀ frame ∈ ledger.map Receipt.frame,
      ∃ record : Record, record.frame = frame := by
    intro frame hframe
    obtain ⟨receipt, hreceipt, rfl⟩ := List.mem_map.mp hframe
    obtain ⟨request, command, -, hparse, hlogged, -⟩ := h.receipt hreceipt
    obtain ⟨record, hrecord, -⟩ := exists_record hparse request.held hlogged
    exact ⟨record, hrecord⟩
  apply scanLog_whole
  · intro frame hframe
    obtain ⟨record, rfl⟩ := hrecord frame hframe
    exact record.readable
  · intro frame hframe
    obtain ⟨record, rfl⟩ := hrecord frame hframe
    exact record.fits

/-- **Acknowledged writes are in the log, exactly once.**  Appends write a whole record or
    nothing.  In every state of every run, what was written to the log is read back as the
    records of the ledger: exactly one for each command to be logged that was answered without
    an error, those of one connection in the order of its requests, and none of a request
    that was answered with an error. -/
theorem acknowledged_once (server : ServerState) (log : Bytes) (haof : server.aof = some log)
    (requests : Id → List Request)
    (houtcome : ∀ id, ∀ request ∈ requests id,
      request.outcome = .written ∨ request.outcome = .failed 0)
    (schedule : List (Id × Action)) (system : System Id)
    (hrun : (System.fresh server requests).run schedule = some system) :
    let ledger := (System.fresh server requests).ledger schedule
    (∃ written, system.server.aof = some (log ++ written) ∧
      scanLog .unlimited written = (ledger.map Receipt.frame, .ok ())) ∧
    (∀ id index request command frame reply, (requests id)[index]? = some request →
      Command.fromFrame request.frame = .ok command →
      command.toAofFrame request.env.clock = some frame →
      (system.connections id).replies[index]? = some reply → (∀ text, reply ≠ .error text) →
      ledger.filter (fun receipt => receipt.id = id ∧ receipt.index = index) =
        [⟨id, index, frame⟩]) ∧
    (∀ id, (ledger.filter fun receipt => receipt.id = id).Pairwise
      fun earlier later => earlier.index < later.index) ∧
    (∀ receipt ∈ ledger, ∃ request command, (requests receipt.id)[receipt.index]? = some request ∧
      Command.fromFrame request.frame = .ok command ∧
      command.toAofFrame request.env.clock = some receipt.frame ∧
      ∀ text, (system.connections receipt.id).replies[receipt.index]? ≠ some (.error text)) := by
  intro ledger
  have h : Ledgered log requests system ledger :=
    (ledgered_fresh haof requests).run houtcome hrun
  have hpairwise : ∀ id, (ledger.filter fun receipt => receipt.id = id).Pairwise
      fun earlier later => earlier.index < later.index := by
    intro id
    obtain ⟨past, replies, -, -, -, hrecords⟩ := (h.booked id).exists_answered
    rw [hrecords]
    exact answered_pairwise id past replies
  refine ⟨⟨_, h.aof, h.scan⟩, ?_, hpairwise, fun receipt hmem => h.receipt hmem⟩
  intro id index request command frame reply hrequest hparse hframe hreply hnoError
  have howed : owed request reply = some frame := by
    rw [owed_of_ne_error hnoError, loggedFrame, hparse]
    exact hframe
  have honly := filter_index (hpairwise id) ((h.booked id).mem_of_sent hrequest hreply howed)
  rw [List.filter_filter] at honly
  simpa [Bool.and_comm] using honly

end

/-- One client writes; the other sends a command that fails on the written key and then
    one whose append fails. -/
def mixedRequests : Bool → List Request
  | false => [clientRequest "SET" [utf8 "k", [1]] (.at 0 0)]
  | true => [clientRequest "LPOP" [utf8 "k"] (.at 1 0),
      { clientRequest "SET" [utf8 "k", [2]] (.at 2 0) with outcome := .failed 0 }]

def mixedSteps : List (Bool × Action) := [
  (false, .execute), (true, .execute), (true, .reply), (true, .execute), (false, .append),
  (true, .append), (false, .reply), (true, .reply)]

theorem acknowledged_once_mixed :
    ((System.fresh (.initial .default) mixedRequests).ledger mixedSteps).filter
        (fun receipt => receipt.id = false ∧ receipt.index = 0) =
      [⟨false, 0, commandFrame "SET" [utf8 "k", [1]]⟩] := by
  have hfinished : ((System.fresh (.initial .default) mixedRequests).run mixedSteps).bind
      (fun system => (system.connections false).replies[0]?) = some (.simple "OK") := by
    rfl
  obtain ⟨system, hrun, hreply⟩ := Option.bind_eq_some_iff.mp hfinished
  have houtcome : ∀ id, ∀ request ∈ mixedRequests id,
      request.outcome = .written ∨ request.outcome = .failed 0 := by
    decide
  obtain ⟨-, honce, -⟩ := acknowledged_once (.initial .default) [] rfl mixedRequests houtcome
    mixedSteps system hrun
  exact honce false 0 _ (.set "k" [1]) _ (.simple "OK") rfl rfl rfl hreply nofun

end AerugoCache.Concurrent
