import Mathlib.Logic.Function.Basic
import AerugoCache.Server

/-!
# Clients side by side

The connections of a server share its store and its log, and `handle_connection`
holds the lock of each only while it uses it.  Between the locks any other
connection may run: a system takes the steps of its connections in any order.  A
connection executes its next request on the store, appends the record, and sends the
reply; a request that fails has nothing to append.

Nothing sweeps the store here, and a request takes the lock of the counters together with
that of the entries.  `ServerTurns` has the task that sweeps and one lock at a time, and
`TurnsTogether` finds these runs among its runs.
-/

namespace AerugoCache.Concurrent

open AerugoCache.Protocol AerugoCache.Storage AerugoCache.Commands AerugoCache.Persistence
  AerugoCache.Server

/-- What a connection does next: read a request, append the record of a request that
    it executed, or send a reply. -/
inductive Stage where
  | reading
  | executed (response : Frame) (aofFrame : Option Frame) (outcome : AppendOutcome)
  | replying (response : Frame)

/-- The stage after executing a request: a request that failed has nothing to append. -/
def Stage.after (outcome : AppendOutcome) :
    Except CommandError (Frame × Option Frame) → Stage
  | .ok (response, aofFrame) => .executed response aofFrame outcome
  | .error error => .replying (Command.errorFrame error)

/-- The requests that a connection has not read yet, and the replies it has sent. -/
structure Connection where
  requests : List Request
  stage : Stage
  replies : List Frame

inductive Action where
  | execute
  | append
  | reply
deriving DecidableEq, Repr

/-- One step of one connection, if it can take it. -/
def Connection.step (action : Action) (connection : Connection) (server : ServerState) :
    Option (Connection × ServerState) :=
  match action, connection.stage, connection.requests with
  | .execute, .reading, request :: requests =>
      let (result, store) := executeRequest request server.store
      some ({ connection with requests, stage := .after request.outcome result },
        { server with store })
  | .append, .executed response aofFrame outcome, _ =>
      let (appended, aof) := appendCommand server.aof aofFrame outcome
      some ({ connection with stage := .replying (if appended then response else PERSIST_FAILURE) },
        { server with aof })
  | .reply, .replying response, _ =>
      some ({ connection with stage := .reading, replies := connection.replies ++ [response] },
        server)
  | _, _, _ => none

structure System (Id : Type) where
  server : ServerState
  connections : Id → Connection

section

variable {Id : Type} [DecidableEq Id]

def System.step (system : System Id) (id : Id) (action : Action) : Option (System Id) :=
  ((system.connections id).step action system.server).map fun (connection, server) =>
    { server, connections := Function.update system.connections id connection }

/-- The steps of a schedule, in order; `none` if one of them cannot be taken. -/
def System.run : List (Id × Action) → System Id → Option (System Id)
  | [], system => some system
  | (id, action) :: schedule, system => (system.step id action).bind (System.run schedule)

/-- Connections that have read nothing yet, on a server with an empty log. -/
def System.initial (config : StoreConfig) (requests : Id → List Request) : System Id where
  server := .initial config
  connections id := { requests := requests id, stage := .reading, replies := [] }

/-- No connection is between reading a request and sending its reply. -/
def System.Idle (system : System Id) : Prop :=
  ∀ id, (system.connections id).stage = .reading

instance (stage : Stage) : Decidable (stage = .reading) :=
  match stage with
  | .reading => isTrue rfl
  | .executed _ _ _ | .replying _ => isFalse nofun

instance [Fintype Id] (system : System Id) : Decidable system.Idle :=
  inferInstanceAs (Decidable (∀ id, (system.connections id).stage = .reading))

theorem run_append {schedule schedule' : List (Id × Action)} {system : System Id} :
    system.run (schedule ++ schedule') = (system.run schedule).bind (System.run schedule') := by
  induction schedule generalizing system with
  | nil => rfl
  | cons event schedule ih =>
    obtain ⟨id, action⟩ := event
    simp only [List.cons_append, System.run]
    cases system.step id action with
    | none => rfl
    | some next => exact ih

/-! ### What a step can do -/

/-- The three steps of a connection. -/
theorem Connection.step_cases {action : Action} {connection next : Connection}
    {server server' : ServerState} (h : connection.step action server = some (next, server')) :
    (∃ request requests, action = .execute ∧ connection.stage = .reading ∧
      connection.requests = request :: requests ∧
      next = { connection with
        requests
        stage := .after request.outcome (executeRequest request server.store).1 } ∧
      server' = { server with store := (executeRequest request server.store).2 }) ∨
    (∃ response aofFrame outcome, action = .append ∧
      connection.stage = .executed response aofFrame outcome ∧
      next = { connection with
        stage := .replying <|
          if (appendCommand server.aof aofFrame outcome).1 then response else PERSIST_FAILURE } ∧
      server' = { server with aof := (appendCommand server.aof aofFrame outcome).2 }) ∨
    (∃ response, action = .reply ∧ connection.stage = .replying response ∧
      next = { connection with stage := .reading, replies := connection.replies ++ [response] } ∧
      server' = server) := by
  unfold Connection.step at h
  split at h
  · rename_i request requests hstage hrequests
    cases h
    exact Or.inl ⟨request, requests, rfl, hstage, hrequests, rfl, rfl⟩
  · rename_i response aofFrame outcome hstage
    cases h
    exact Or.inr (Or.inl ⟨response, aofFrame, outcome, rfl, hstage, rfl, rfl⟩)
  · rename_i response hstage
    cases h
    exact Or.inr (Or.inr ⟨response, rfl, hstage, rfl, rfl⟩)
  · cases h

theorem System.step_some {system next : System Id} {id : Id} {action : Action}
    (h : system.step id action = some next) :
    ∃ connection server, (system.connections id).step action system.server =
        some (connection, server) ∧
      next = { server, connections := Function.update system.connections id connection } := by
  obtain ⟨⟨connection, server⟩, hstep, rfl⟩ := Option.map_eq_some_iff.mp h
  exact ⟨connection, server, hstep, rfl⟩

/-! ### One client alone -/

/-- The system after one of its connections has handled requests and has `requests` left. -/
def System.handled (system : System Id) (id : Id) (requests : List Request)
    (outcome : List Frame × ServerState) : System Id where
  server := outcome.2
  connections := Function.update system.connections id
    { requests, stage := .reading, replies := (system.connections id).replies ++ outcome.1 }

/-- A connection that runs alone handles its next request as `handle_connection` does. -/
theorem run_handleRequest {system : System Id} {id : Id} {request : Request}
    {requests : List Request} (hstage : (system.connections id).stage = .reading)
    (hrequests : (system.connections id).requests = request :: requests) :
    ∃ actions : List Action, system.run (actions.map fun action => (id, action)) =
      some (system.handled id requests ([(handleRequest request system.server).1],
        (handleRequest request system.server).2)) := by
  rcases hexecute : executeRequest request system.server.store with
    ⟨error | ⟨response, aofFrame⟩, store⟩
  · refine ⟨[.execute, .reply], ?_⟩
    simp [System.run, System.step, Connection.step, hstage, hrequests, hexecute, Stage.after,
      handleRequest, System.handled]
  · refine ⟨[.execute, .append, .reply], ?_⟩
    simp [System.run, System.step, Connection.step, hstage, hrequests, hexecute, Stage.after,
      handleRequest, System.handled]

/-- **A client alone is served** as `serve` says. -/
theorem run_serve {requests : List Request} {system : System Id} {id : Id}
    (hstage : (system.connections id).stage = .reading)
    (hrequests : (system.connections id).requests = requests) :
    ∃ actions : List Action, system.run (actions.map fun action => (id, action)) =
      some (system.handled id [] (serve requests system.server)) := by
  induction requests generalizing system with
  | nil =>
    refine ⟨[], ?_⟩
    simp only [List.map_nil, System.run, System.handled, serve, List.append_nil, ← hstage,
      ← hrequests, Function.update_eq_self]
  | cons request requests ih =>
    obtain ⟨actions, hrun⟩ := run_handleRequest hstage hrequests
    have hstage' : ((system.handled id requests ([(handleRequest request system.server).1],
        (handleRequest request system.server).2)).connections id).stage = .reading := by
      simp [System.handled]
    obtain ⟨actions', hrun'⟩ := ih hstage' (by simp [System.handled])
    refine ⟨actions ++ actions', ?_⟩
    rw [List.map_append, run_append, hrun, Option.bind_some, hrun']
    simp [System.handled, serve]

end

end AerugoCache.Concurrent
