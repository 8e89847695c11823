import AerugoCache.Concurrent
import AerugoCache.DecodedFrames
import AerugoCache.SocketReader
import AerugoCache.StepSystem

/-!
# Connections over sockets

The server as it meets its clients: the bytes of every connection arrive a few at a
time, `read_frame` waits for those it needs, and the replies are written as bytes.  The
task of a connection is cut where it waits and where it takes and releases the locks
of the store and of the log; between these points any other task runs and any bytes
arrive.  A write to the socket may fail after part of the reply.

Two things of the server are left out here, so that entries and counters change in one
step: the task that sweeps the store, and the lock of the counters, which is taken after
that of the entries.  `SocketTasks` has both, and `TurnsTogether` finds these runs among
its runs.
-/

namespace AerugoCache.Concurrent

open AerugoCache.ByteText AerugoCache.Protocol AerugoCache.Storage AerugoCache.Commands
  AerugoCache.Persistence AerugoCache.Server AerugoCache.StepSystem

/-- The task of a connection: in its loop, or returned. -/
inductive Task where
  | running (stage : Stage)
  | ended (ending : ConnectionEnd)

/-- A connection: the bytes on their way to the server, those that have arrived and are
    not read, whether the client's end of the stream has, the number of replies sent, and
    the bytes written to the client. -/
structure Socket where
  incoming : Bytes
  buffer : Bytes
  closed : Bool
  round : Nat
  task : Task
  written : Bytes

/-- A write that fails has written `cut` bytes at most. -/
inductive Event where
  | arrive (count : Nat)
  | hangUp
  | read
  | append
  | reply (cut : Nat)
deriving DecidableEq, Repr

/-- The part of `handle_connection` that holds the lock of the store. -/
def executeFrame (frame : Frame) (env : Env) (store : MemoryStore) :
    Except CommandError (Frame × Option Frame) × MemoryStore :=
  match Command.fromFrame frame with
  | .ok command =>
      let aofFrame := command.toAofFrame env.clock
      let (result, store) := command.execute env store
      (result.map fun response => (response, aofFrame), store)
  | .error error => (.error error, store)

theorem executeRequest_eq (request : Request) (store : MemoryStore) :
    executeRequest request store = executeFrame request.frame request.env store :=
  rfl

def Socket.step (heap : Allocator) (rounds : Nat → Round) (event : Event) (socket : Socket)
    (server : ServerState) : Option (Socket × ServerState) :=
  match event, socket.task with
  | .arrive count, _ =>
      if count = 0 ∨ socket.incoming.isEmpty then none
      else
        some ({ socket with
          incoming := socket.incoming.drop count
          buffer := socket.buffer ++ socket.incoming.take count }, server)
  | .hangUp, _ =>
      if socket.closed ∨ ¬ socket.incoming.isEmpty then none
      else some ({ socket with closed := true }, server)
  | .read, .running .reading =>
      match pollFrame heap socket.closed socket.buffer with
      | none => none
      | some (.error error) => some ({ socket with task := .ended (.readFailed error) }, server)
      | some (.ok (none, _)) => some ({ socket with task := .ended .closed }, server)
      | some (.ok (some frame, rest)) =>
          let (result, store) := executeFrame frame (rounds socket.round).env server.store
          some ({ socket with
            buffer := rest
            task := .running (.after (rounds socket.round).outcome result) }, { server with store })
  | .append, .running (.executed response aofFrame outcome) =>
      let (appended, aof) := appendCommand server.aof aofFrame outcome
      some ({ socket with
        task := .running (.replying (if appended then response else PERSIST_FAILURE)) },
        { server with aof })
  | .reply cut, .running (.replying response) =>
      if (rounds socket.round).sent then
        some ({ socket with
          round := socket.round + 1
          task := .running .reading
          written := socket.written ++ writeFrame response }, server)
      else
        some ({ socket with
          task := .ended .writeFailed
          written := socket.written ++ (writeFrame response).take cut }, server)
  | _, _ => none

structure Network (Id : Type) where
  server : ServerState
  sockets : Id → Socket

section

variable {Id : Type} [DecidableEq Id]

def Network.step (heap : Allocator) (rounds : Id → Nat → Round) :
    StepFunction (Network Id) (Id × Event) :=
  fun network event =>
    ((network.sockets event.1).step heap (rounds event.1) event.2 network.server).map
      fun (socket, server) =>
        { server, sockets := Function.update network.sockets event.1 socket }

end

/-- Connections that were just accepted, each with the bytes that its client sends. -/
def Network.initial {Id : Type} (server : ServerState) (streams : Id → Bytes) : Network Id where
  server := server
  sockets id :=
    { incoming := streams id, buffer := [], closed := false, round := 0,
      task := .running .reading, written := [] }

/-! ### What a step can do -/

/-- The ways a connection takes a step. -/
inductive Socket.Takes (heap : Allocator) (rounds : Nat → Round) (socket : Socket)
    (server : ServerState) : Event → Socket → ServerState → Prop where
  | arrive {count : Nat} (hcount : count ≠ 0) (hincoming : socket.incoming ≠ []) :
      Takes heap rounds socket server (.arrive count)
        { socket with
          incoming := socket.incoming.drop count
          buffer := socket.buffer ++ socket.incoming.take count } server
  | hangUp (hclosed : socket.closed = false) (hincoming : socket.incoming = []) :
      Takes heap rounds socket server .hangUp { socket with closed := true } server
  | fail {error : ReadError} (htask : socket.task = .running .reading)
      (hpoll : pollFrame heap socket.closed socket.buffer = some (.error error)) :
      Takes heap rounds socket server .read
        { socket with task := .ended (.readFailed error) } server
  | close {rest : Bytes} (htask : socket.task = .running .reading)
      (hpoll : pollFrame heap socket.closed socket.buffer = some (.ok (none, rest))) :
      Takes heap rounds socket server .read { socket with task := .ended .closed } server
  | execute {frame : Frame} {rest : Bytes} (htask : socket.task = .running .reading)
      (hpoll : pollFrame heap socket.closed socket.buffer = some (.ok (some frame, rest))) :
      Takes heap rounds socket server .read
        { socket with
          buffer := rest
          task := .running (.after (rounds socket.round).outcome
            (executeFrame frame (rounds socket.round).env server.store).1) }
        { server with store := (executeFrame frame (rounds socket.round).env server.store).2 }
  | append {response : Frame} {aofFrame : Option Frame} {outcome : AppendOutcome}
      (htask : socket.task = .running (.executed response aofFrame outcome)) :
      Takes heap rounds socket server .append
        { socket with
          task := .running <| .replying <|
            if (appendCommand server.aof aofFrame outcome).1 then response else PERSIST_FAILURE }
        { server with aof := (appendCommand server.aof aofFrame outcome).2 }
  | reply {response : Frame} {cut : Nat} (htask : socket.task = .running (.replying response))
      (hsent : (rounds socket.round).sent = true) :
      Takes heap rounds socket server (.reply cut)
        { socket with
          round := socket.round + 1
          task := .running .reading
          written := socket.written ++ writeFrame response } server
  | breakOff {response : Frame} {cut : Nat} (htask : socket.task = .running (.replying response))
      (hsent : (rounds socket.round).sent = false) :
      Takes heap rounds socket server (.reply cut)
        { socket with
          task := .ended .writeFailed
          written := socket.written ++ (writeFrame response).take cut } server

theorem Socket.step_takes {heap : Allocator} {rounds : Nat → Round} {event : Event}
    {socket next : Socket} {server server' : ServerState}
    (h : socket.step heap rounds event server = some (next, server')) :
    socket.Takes heap rounds server event next server' := by
  unfold Socket.step at h
  split at h
  · split at h
    · cases h
    · rename_i hready
      rw [not_or] at hready
      cases h
      exact .arrive hready.1 (by simpa using hready.2)
  · split at h
    · cases h
    · rename_i hready
      rw [not_or] at hready
      cases h
      exact .hangUp (by simpa using hready.1) (by simpa using hready.2)
  · rename_i htask
    split at h
    · cases h
    · rename_i hpoll
      cases h
      exact .fail htask hpoll
    · rename_i hpoll
      cases h
      exact .close htask hpoll
    · rename_i hpoll
      cases h
      exact .execute htask hpoll
  · rename_i htask
    cases h
    exact .append htask
  · rename_i htask
    split at h
    · cases h
      exact .reply htask ‹_›
    · rename_i hsent
      cases h
      exact .breakOff htask (Bool.eq_false_of_not_eq_true hsent)
  · cases h

theorem Network.step_some {Id : Type} [DecidableEq Id] {heap : Allocator}
    {rounds : Id → Nat → Round} {network next : Network Id} {event : Id × Event}
    (h : Network.step heap rounds network event = some next) :
    ∃ socket server, (network.sockets event.1).step heap (rounds event.1) event.2 network.server =
        some (socket, server) ∧
      next = { server, sockets := Function.update network.sockets event.1 socket } := by
  obtain ⟨⟨socket, server⟩, hstep, rfl⟩ := Option.map_eq_some_iff.mp h
  exact ⟨socket, server, hstep, rfl⟩

/-! ### The requests of a stream -/

/-- What the loop of `handle_connection` reads from a stream, from a round on: its
    requests, each with what it meets, and how the loop ends.  A reply that is not sent
    ends it. -/
def Reads (heap : Allocator) (rounds : Nat → Round) :
    Nat → Bytes → List Request → ConnectionEnd → Prop
  | _, stream, [], ending =>
      (∃ rest, readFrame heap stream = .ok (none, rest) ∧ ending = .closed) ∨
        ∃ error, readFrame heap stream = .error error ∧ ending = .readFailed error
  | round, stream, request :: requests, ending =>
      request.env = (rounds round).env ∧ request.outcome = (rounds round).outcome ∧
        ∃ rest, readFrame heap stream = .ok (some request.frame, rest) ∧
          if (rounds round).sent then Reads heap rounds (round + 1) rest requests ending
          else requests = [] ∧ ending = .writeFailed

/-- Every stream that a machine can hold is read in one way. -/
theorem exists_reads (heap : Allocator) (rounds : Nat → Round) (round : Nat) {stream : Bytes}
    (hlength : stream.length < 2 ^ 63) :
    ∃ requests ending, Reads heap rounds round stream requests ending := by
  induction hbound : stream.length using Nat.strongRecOn generalizing stream round with
  | ind bound ih =>
    rcases hframe : readFrame heap stream with error | ⟨_ | frame, rest⟩
    · exact ⟨[], _, Or.inr ⟨error, hframe, rfl⟩⟩
    · exact ⟨[], _, Or.inl ⟨rest, hframe, rfl⟩⟩
    · have hshort := readFrame_progresses heap stream frame rest hframe
      let request : Request :=
        ⟨frame, (rounds round).env, (rounds round).outcome, (readFrame_decoded hlength hframe).fits⟩
      by_cases hsent : (rounds round).sent = true
      · obtain ⟨requests, ending, hreads⟩ := ih rest.length (by omega) (round + 1) (by omega) rfl
        refine ⟨request :: requests, ending, rfl, rfl, rest, hframe, ?_⟩
        rw [if_pos hsent]
        exact hreads
      · refine ⟨[request], .writeFailed, rfl, rfl, rest, hframe, ?_⟩
        rw [if_neg hsent]
        exact ⟨rfl, rfl⟩

/-- Every request that is read meets its own round. -/
theorem Reads.rounds {heap : Allocator} {rounds : Nat → Round} {round : Nat} {stream : Bytes}
    {requests : List Request} {ending : ConnectionEnd}
    (h : Reads heap rounds round stream requests ending) {index : Nat} {request : Request}
    (hrequest : requests[index]? = some request) :
    request.env = (rounds (round + index)).env ∧
      request.outcome = (rounds (round + index)).outcome := by
  induction requests generalizing round stream index with
  | nil => cases hrequest
  | cons first requests ih =>
    obtain ⟨henv, houtcome, rest, -, hrest⟩ := h
    cases index with
    | zero =>
      cases hrequest
      exact ⟨henv, houtcome⟩
    | succ index =>
      rw [List.getElem?_cons_succ] at hrequest
      split at hrest
      · rw [← Nat.add_assoc, Nat.add_right_comm]
        exact ih hrest hrequest
      · rw [hrest.1] at hrequest
        cases hrequest

/-- A connection served alone handles the requests of its stream. -/
theorem Reads.handleConnection {heap : Allocator} {rounds : Nat → Round} {round fuel : Nat}
    {stream : Bytes} {requests : List Request} {ending : ConnectionEnd}
    (h : Reads heap rounds round stream requests ending) (hfuel : stream.length < fuel)
    (state : ServerState) :
    Server.handleConnection heap rounds fuel round stream state =
      ((serve requests state).1, ending, (serve requests state).2) := by
  induction requests generalizing round fuel stream state with
  | nil =>
    obtain ⟨fuel, rfl⟩ : ∃ n, fuel = n + 1 := ⟨fuel - 1, by omega⟩
    rw [Server.handleConnection]
    rcases h with ⟨rest, hframe, rfl⟩ | ⟨error, hframe, rfl⟩ <;> rw [hframe] <;> rfl
  | cons request requests ih =>
    obtain ⟨fuel, rfl⟩ : ∃ n, fuel = n + 1 := ⟨fuel - 1, by omega⟩
    obtain ⟨henv, houtcome, rest, hframe, hrest⟩ := h
    have hshort := readFrame_progresses heap stream request.frame rest hframe
    rw [Server.handleConnection, hframe]
    simp only [← henv, ← houtcome, ← handleRequest_eq, serve]
    by_cases hsent : (rounds round).sent = true
    · rw [if_pos hsent] at hrest
      rw [if_pos hsent, ih hrest (by omega)]
    · rw [if_neg hsent] at hrest
      obtain ⟨rfl, rfl⟩ := hrest
      rw [if_neg hsent]
      rfl

end AerugoCache.Concurrent
