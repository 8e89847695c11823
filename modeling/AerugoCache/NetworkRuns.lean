import Mathlib.Algebra.Order.BigOperators.Group.Finset
import AerugoCache.Linearizable
import AerugoCache.Network

/-!
# Runs of the network

However the bytes of the clients arrive and however the connections take turns, they do
what a system of connections does that are handed whole requests: those that
`handle_connection` reads from each client's stream.  Every connection writes the bytes
of its replies and nothing else.
-/

namespace AerugoCache.Concurrent

open AerugoCache.ByteText AerugoCache.Protocol AerugoCache.Storage AerugoCache.Commands
  AerugoCache.Persistence AerugoCache.Server AerugoCache.StepSystem

/-! ### The steps of a connection -/

theorem Connection.step_execute {connection : Connection} {server : ServerState}
    {request : Request} {requests : List Request} (hstage : connection.stage = .reading)
    (hrequests : connection.requests = request :: requests) :
    connection.step .execute server =
      some ({ connection with
          requests
          stage := .after request.outcome (executeRequest request server.store).1 },
        { server with store := (executeRequest request server.store).2 }) := by
  simp only [Connection.step, hstage, hrequests]

theorem Connection.step_append {connection : Connection} {server : ServerState}
    {response : Frame} {aofFrame : Option Frame} {outcome : AppendOutcome}
    (hstage : connection.stage = .executed response aofFrame outcome) :
    connection.step .append server =
      some ({ connection with
          stage := .replying <|
            if (appendCommand server.aof aofFrame outcome).1 then response else PERSIST_FAILURE },
        { server with aof := (appendCommand server.aof aofFrame outcome).2 }) := by
  simp only [Connection.step, hstage]

theorem Connection.step_reply {connection : Connection} {server : ServerState} {response : Frame}
    (hstage : connection.stage = .replying response) :
    connection.step .reply server =
      some ({ connection with stage := .reading, replies := connection.replies ++ [response] },
        server) := by
  simp only [Connection.step, hstage]

/-! ### A connection and what it stands for -/

/-- The requests that a connection in this stage has still to read. -/
def Socket.Awaits (heap : Allocator) (rounds : Nat → Round) (socket : Socket)
    (requests : List Request) (ending : ConnectionEnd) : Stage → Prop
  | .reading => Reads heap rounds socket.round (socket.buffer ++ socket.incoming) requests ending
  | _ =>
      if (rounds socket.round).sent then
        Reads heap rounds (socket.round + 1) (socket.buffer ++ socket.incoming) requests ending
      else requests = [] ∧ ending = .writeFailed

/-- The task is where the connection is, with the same requests still to come, and has
    written the bytes of its replies. -/
def Socket.Serves (heap : Allocator) (rounds : Nat → Round) (ending : ConnectionEnd)
    (socket : Socket) (connection : Connection) : Prop :=
  match socket.task with
  | .running stage =>
      connection.stage = stage ∧ socket.written = connection.replies.flatMap writeFrame ∧
        socket.Awaits heap rounds connection.requests ending stage
  | .ended .writeFailed =>
      ending = .writeFailed ∧ connection.requests = [] ∧
        ∃ response cut, connection.stage = .replying response ∧
          socket.written =
            connection.replies.flatMap writeFrame ++ (writeFrame response).take cut
  | .ended other =>
      ending = other ∧ connection.requests = [] ∧ connection.stage = .reading ∧
        socket.written = connection.replies.flatMap writeFrame

/-- `connection` is what the socket stands for. -/
structure Socket.Follows (heap : Allocator) (rounds : Nat → Round) (ending : ConnectionEnd)
    (socket : Socket) (connection : Connection) : Prop where
  closed : socket.closed = true → socket.incoming = []
  round : socket.round = connection.replies.length
  serves : socket.Serves heap rounds ending connection

/-- A polled result is the one on all bytes still to come. -/
theorem readFrame_of_poll {heap : Allocator} {closed : Bool} {buffer incoming : Bytes}
    (hclosed : closed = true → incoming = [])
    {result : Except ReadError (Option Frame × Bytes)}
    (h : pollFrame heap closed buffer = some result) :
    readFrame heap (buffer ++ incoming) = followedBy incoming result := by
  cases closed with
  | false => exact readFrame_of_pollFrame h incoming
  | true =>
    rw [pollFrame_closed] at h
    rw [hclosed rfl, List.append_nil, Option.some.inj h]
    rcases result with error | ⟨frame, rest⟩
    · rfl
    · simp [followedBy, Except.map]

theorem Socket.serves_running {heap : Allocator} {rounds : Nat → Round} {ending : ConnectionEnd}
    {socket : Socket} {connection : Connection} {stage : Stage}
    (htask : socket.task = .running stage) :
    socket.Serves heap rounds ending connection ↔
      connection.stage = stage ∧ socket.written = connection.replies.flatMap writeFrame ∧
        socket.Awaits heap rounds connection.requests ending stage := by
  rw [Socket.Serves, htask]

/-- Bytes that arrive change nothing of what the socket stands for. -/
theorem Socket.Serves.moved {heap : Allocator} {rounds : Nat → Round} {ending : ConnectionEnd}
    {socket : Socket} {connection : Connection}
    (h : socket.Serves heap rounds ending connection) {incoming buffer : Bytes} {closed : Bool}
    (hbytes : buffer ++ incoming = socket.buffer ++ socket.incoming) :
    { socket with incoming, buffer, closed }.Serves heap rounds ending connection := by
  unfold Socket.Serves at h ⊢
  simp only
  split at h
  · rename_i stage htask
    rw [htask]
    refine ⟨h.1, h.2.1, ?_⟩
    have hawaits := h.2.2
    cases stage with
    | reading =>
      rw [Socket.Awaits] at hawaits ⊢
      rwa [hbytes]
    | executed response aofFrame outcome =>
      rw [Socket.Awaits] at hawaits ⊢
      · rwa [hbytes]
      · intro hstage
        cases hstage
      · intro hstage
        cases hstage
    | replying response =>
      rw [Socket.Awaits] at hawaits ⊢
      · rwa [hbytes]
      · intro hstage
        cases hstage
      · intro hstage
        cases hstage
  · exact h
  · exact h

/-- Past its reading stage, a connection awaits what follows the request it is busy with. -/
theorem Socket.awaits_busy {heap : Allocator} {rounds : Nat → Round} {ending : ConnectionEnd}
    {socket : Socket} {requests : List Request} {stage : Stage} (hbusy : stage ≠ .reading) :
    socket.Awaits heap rounds requests ending stage ↔
      if (rounds socket.round).sent then
        Reads heap rounds (socket.round + 1) (socket.buffer ++ socket.incoming) requests ending
      else requests = [] ∧ ending = .writeFailed := by
  cases stage with
  | reading => exact absurd rfl hbusy
  | executed response aofFrame outcome => rfl
  | replying response => rfl

theorem Stage.after_ne_reading (outcome : AppendOutcome)
    (result : Except CommandError (Frame × Option Frame)) :
    Stage.after outcome result ≠ .reading := by
  rcases result with error | ⟨response, aofFrame⟩ <;> exact Stage.noConfusion

section

variable {heap : Allocator} {rounds : Nat → Round} {round : Nat} {stream rest : Bytes}
  {requests : List Request} {ending : ConnectionEnd}

/-- A stream in error has no requests left. -/
theorem Reads.failed (h : Reads heap rounds round stream requests ending) {error : ReadError}
    (hframe : readFrame heap stream = .error error) :
    requests = [] ∧ ending = .readFailed error := by
  cases requests with
  | nil =>
    rcases h with ⟨last, hend, -⟩ | ⟨other, hend, rfl⟩
    · rw [hframe] at hend
      cases hend
    · rw [hframe] at hend
      cases hend
      exact ⟨rfl, rfl⟩
  | cons request requests =>
    obtain ⟨-, -, last, hread, -⟩ := h
    rw [hframe] at hread
    cases hread

/-- Nor has a stream that is at its end. -/
theorem Reads.closed (h : Reads heap rounds round stream requests ending)
    (hframe : readFrame heap stream = .ok (none, rest)) : requests = [] ∧ ending = .closed := by
  cases requests with
  | nil =>
    rcases h with ⟨last, -, rfl⟩ | ⟨other, hend, -⟩
    · exact ⟨rfl, rfl⟩
    · rw [hframe] at hend
      cases hend
  | cons request requests =>
    obtain ⟨-, -, last, hread, -⟩ := h
    rw [hframe] at hread
    cases hread

/-- The first frame of a stream is its first request. -/
theorem Reads.first (h : Reads heap rounds round stream requests ending) {frame : Frame}
    (hframe : readFrame heap stream = .ok (some frame, rest)) :
    ∃ request later, requests = request :: later ∧ request.frame = frame ∧
      request.env = (rounds round).env ∧ request.outcome = (rounds round).outcome ∧
      if (rounds round).sent then Reads heap rounds (round + 1) rest later ending
      else later = [] ∧ ending = .writeFailed := by
  cases requests with
  | nil => rcases h with ⟨last, hend, -⟩ | ⟨error, hend, -⟩ <;> rw [hframe] at hend <;> cases hend
  | cons request later =>
    obtain ⟨henv, houtcome, last, hread, hrest⟩ := h
    rw [hframe] at hread
    cases hread
    exact ⟨request, later, rfl, rfl, henv, houtcome, hrest⟩

end

/-- The connection's answer to a step of its socket: the same step, or none. -/
theorem Socket.Follows.step {heap : Allocator} {rounds : Nat → Round} {ending : ConnectionEnd}
    {socket next : Socket} {connection : Connection} {server server' : ServerState} {event : Event}
    (h : socket.Follows heap rounds ending connection)
    (hstep : socket.Takes heap rounds server event next server') :
    (next.Follows heap rounds ending connection ∧ server' = server) ∨
      ∃ action connection', connection.step action server = some (connection', server') ∧
        next.Follows heap rounds ending connection' := by
  obtain ⟨hclosed, hround, hserves⟩ := h
  cases hstep with
  | arrive hcount hincoming =>
    rename_i count
    refine Or.inl ⟨⟨fun hend => absurd (hclosed hend) hincoming, hround, hserves.moved ?_⟩, rfl⟩
    rw [List.append_assoc, List.take_append_drop]
  | hangUp hopen hincoming =>
    exact Or.inl ⟨⟨fun _ => hincoming, hround, hserves.moved rfl⟩, rfl⟩
  | fail htask hpoll =>
    obtain ⟨hstage, hwritten, hreads⟩ := (Socket.serves_running htask).mp hserves
    obtain ⟨hnone, hend⟩ := Reads.failed hreads (readFrame_of_poll hclosed hpoll)
    exact Or.inl ⟨⟨hclosed, hround, hend, hnone, hstage, hwritten⟩, rfl⟩
  | close htask hpoll =>
    obtain ⟨hstage, hwritten, hreads⟩ := (Socket.serves_running htask).mp hserves
    obtain ⟨hnone, hend⟩ := Reads.closed hreads (readFrame_of_poll hclosed hpoll)
    exact Or.inl ⟨⟨hclosed, hround, hend, hnone, hstage, hwritten⟩, rfl⟩
  | execute htask hpoll =>
    obtain ⟨hstage, hwritten, hreads⟩ := (Socket.serves_running htask).mp hserves
    obtain ⟨request, later, hrequests, rfl, henv, houtcome, hrest⟩ :=
      Reads.first hreads (readFrame_of_poll hclosed hpoll)
    rw [← henv, ← houtcome, ← executeRequest_eq]
    refine Or.inr ⟨.execute, _, Connection.step_execute hstage hrequests, hclosed, hround, ?_⟩
    exact ⟨rfl, hwritten, (Socket.awaits_busy (Stage.after_ne_reading _ _)).mpr hrest⟩
  | append htask =>
    obtain ⟨hstage, hwritten, hawaits⟩ := (Socket.serves_running htask).mp hserves
    refine Or.inr ⟨.append, _, Connection.step_append hstage, hclosed, hround, ?_⟩
    exact ⟨rfl, hwritten, hawaits⟩
  | reply htask hsent =>
    rename_i response cut
    obtain ⟨hstage, hwritten, hawaits⟩ := (Socket.serves_running htask).mp hserves
    have hbusy : Stage.replying response ≠ .reading := Stage.noConfusion
    rw [Socket.awaits_busy hbusy, if_pos hsent] at hawaits
    refine Or.inr ⟨.reply, _, Connection.step_reply hstage, hclosed, ?_, rfl, ?_, hawaits⟩
    · simp only [List.length_append, List.length_singleton, hround]
    · simp only [List.flatMap_append, List.flatMap_singleton, hwritten]
  | breakOff htask hsent =>
    rename_i response cut
    obtain ⟨hstage, hwritten, hawaits⟩ := (Socket.serves_running htask).mp hserves
    have hbusy : Stage.replying response ≠ .reading := Stage.noConfusion
    rw [Socket.awaits_busy hbusy, if_neg (by simp [hsent])] at hawaits
    refine Or.inl ⟨⟨hclosed, hround, ?_⟩, rfl⟩
    exact ⟨hawaits.2, hawaits.1, response, cut, hstage, by rw [hwritten]⟩

/-! ### The network and the system of connections -/

section

variable {Id : Type} [DecidableEq Id]

/-- The system of connections as a step function. -/
def systemStep : StepFunction (System Id) (Id × Action) :=
  fun system event => system.step event.1 event.2

theorem run_systemStep (schedule : List (Id × Action)) (system : System Id) :
    run systemStep schedule system = system.run schedule := by
  induction schedule generalizing system with
  | nil => rfl
  | cons event schedule ih =>
    obtain ⟨id, action⟩ := event
    rw [run, System.run]
    exact congrArg _ (funext ih)

/-- The network stands for a system of connections on the same server. -/
structure Network.Follows (heap : Allocator) (rounds : Id → Nat → Round)
    (endings : Id → ConnectionEnd) (network : Network Id) (system : System Id) : Prop where
  server : network.server = system.server
  sockets : ∀ id, (network.sockets id).Follows heap (rounds id) (endings id) (system.connections id)

theorem network_simulates (heap : Allocator) (rounds : Id → Nat → Round)
    (endings : Id → ConnectionEnd) :
    Simulates (Network.step heap rounds) systemStep (Network.Follows heap rounds endings) := by
  intro network event next system h hstep
  obtain ⟨socket, server, hsocket, rfl⟩ := Network.step_some hstep
  have hanswer := (h.sockets event.1).step (Socket.step_takes hsocket)
  rw [h.server] at hanswer
  rcases hanswer with ⟨hfollows, hserver⟩ | ⟨action, connection, hconnection, hfollows⟩
  · refine ⟨[], system, rfl, hserver, fun other => ?_⟩
    by_cases hother : other = event.1
    · subst hother
      simpa only [Function.update_self] using hfollows
    · simpa only [Function.update_of_ne hother] using h.sockets other
  · let system' : System Id :=
      { server, connections := Function.update system.connections event.1 connection }
    have hsystem : system.step event.1 action = some system' := by
      rw [System.step, hconnection]
      rfl
    refine ⟨[(event.1, action)], system', ?_, rfl, fun other => ?_⟩
    · rw [run_systemStep, System.run, hsystem]
      rfl
    · by_cases hother : other = event.1
      · subst hother
        simpa only [system', Function.update_self] using hfollows
      · simpa only [system', Function.update_of_ne hother] using h.sockets other

/-- A run of the network on streams that hold these requests is one of the system. -/
theorem Network.follows_run {heap : Allocator} {rounds : Id → Nat → Round} {server : ServerState}
    {streams : Id → Bytes} {requests : Id → List Request} {endings : Id → ConnectionEnd}
    (hreads : ∀ id, Reads heap (rounds id) 0 (streams id) (requests id) (endings id))
    {schedule : List (Id × Event)} {network : Network Id}
    (hrun : run (Network.step heap rounds) schedule (.initial server streams) = some network) :
    ∃ schedule' system, (System.fresh server requests).run schedule' = some system ∧
      Network.Follows heap rounds endings network system := by
  have hstart : Network.Follows heap rounds endings (.initial server streams)
      (System.fresh server requests) :=
    ⟨rfl, fun id => ⟨Bool.noConfusion, rfl, rfl, rfl, hreads id⟩⟩
  obtain ⟨schedule', system, hsystem, hfollows⟩ :=
    Simulates.run (network_simulates heap rounds endings) hstart hrun
  rw [run_systemStep] at hsystem
  exact ⟨schedule', system, hsystem, hfollows⟩

end

/-- One client whose request arrives in two pieces, and one that breaks off in a line. -/
def pieces : Bool → Bytes
  | false => utf8 "PING\r\n"
  | true => utf8 "*1\r\n$4\r\nPI"

end AerugoCache.Concurrent
