import AerugoCache.SocketTasks

/-!
# Turns that are taken together

`System` and `Network` are the server where nothing is swept and where a command takes all
its turns on the store before another one takes its first.  Such runs are runs of the
server with all its turns: whatever can happen there can happen here.
-/

namespace AerugoCache.Concurrent

open AerugoCache.ByteText AerugoCache.Protocol AerugoCache.Storage AerugoCache.Commands
  AerugoCache.Persistence AerugoCache.Server AerugoCache.StepSystem

/-! ### The turns of one request -/

def Stage.phase : Stage → Phase
  | .reading => .reading
  | .executed response aofFrame outcome => .executed response aofFrame outcome
  | .replying response => .replying response

theorem Phase.turn_append (response : Frame) (aofFrame : Option Frame) (outcome : AppendOutcome)
    (server : ServerState) :
    Phase.turn .append (.executed response aofFrame outcome) server =
      some (.replying (if (appendCommand server.aof aofFrame outcome).1 then response
          else PERSIST_FAILURE),
        { server with aof := (appendCommand server.aof aofFrame outcome).2 }) := rfl

def turnStep : StepFunction (Phase × ServerState) LockTurn :=
  fun (phase, server) turn => phase.turn turn server

theorem Phase.after_eq (aofFrame : Option Frame) (outcome : AppendOutcome)
    (result : Except CommandError Frame) :
    Phase.after aofFrame outcome result =
      (Stage.after outcome (result.map fun response => (response, aofFrame))).phase := by
  rcases result with error | response <;> rfl

/-- Only a report still has a turn once its counts are added. -/
theorem Pending.recorded_finishes (pending : Pending) (server : ServerState) :
    ∃ turns, run turnStep turns (pending.recorded, server) =
      some (pending.finish server.store.counters, server) := by
  cases hresult : pending.result with
  | stats figures =>
    refine ⟨[.report], ?_⟩
    simp only [Pending.recorded, hresult]
    rfl
  | _ =>
    refine ⟨[], ?_⟩
    simp only [Pending.recorded, Pending.finish, hresult]
    rfl

/-- Taken one after another, the turns of a request on the store do what `executeFrame` does
    at once. -/
theorem enterFrame_finishes (frame : Frame) (env : Env) (outcome : AppendOutcome)
    (server : ServerState) :
    ∃ turns, run turnStep turns ((enterFrame frame env outcome server.store).1,
        { server with store := (enterFrame frame env outcome server.store).2 }) =
      some ((Stage.after outcome (executeFrame frame env server.store).1).phase,
        { server with store := (executeFrame frame env server.store).2 }) := by
  rcases hcommand : Command.fromFrame frame with error | command
  · refine ⟨[], ?_⟩
    simp only [enterFrame, executeFrame, hcommand]
    rfl
  · cases hop : command.storeOp with
    | none =>
      refine ⟨[], ?_⟩
      have hstore := congrArg Prod.snd (execute_no_op hop env server.store server.store)
      simp only [enterFrame, executeFrame, hcommand, hop, Phase.after_eq, hstore]
      rfl
    | some op =>
      have hsplits := op.splits env.opEnv server.store
      rw [StoreOp.Splits] at hsplits
      simp only [enterFrame, executeFrame, hcommand, hop, execute_respond hop, hsplits]
      generalize op.locked env.opEnv server.store.config server.store.entries = locked
      obtain ⟨result, entries, counts⟩ := locked
      have hfinish := fun counters => Phase.after_eq (command.toAofFrame env.clock) outcome
        (command.respond (result.withCounters counters))
      simp only [← hfinish]
      split
      · rename_i hzero
        obtain ⟨turns, hturns⟩ := Pending.recorded_finishes
          ⟨command, result, command.toAofFrame env.clock, outcome⟩
          { server with store := { server.store with entries } }
        refine ⟨turns, hturns.trans ?_⟩
        rw [hzero, add_zero]
        rfl
      · obtain ⟨turns, hturns⟩ := Pending.recorded_finishes
          ⟨command, result, command.toAofFrame env.clock, outcome⟩
          { server with
            store := { server.store with
              entries
              counters := server.store.counters + counts } }
        exact ⟨.record :: turns, hturns⟩

section

variable {Id : Type} [DecidableEq Id]

/-- A connection may take its turns while the others wait. -/
theorem Host.run_turns {Action Conn : Type} {rules : Id → Rules Action Conn} {id : Id}
    {action : LockTurn → Action} {busy : Phase → Conn}
    (hbusy : ∀ {turn phase phase' server server'},
      phase.turn turn server = some (phase', server') →
        (rules id).step (action turn) (busy phase) server = some (busy phase', server'))
    {turns : List LockTurn} {phase phase' : Phase} (host : Host Id Conn) {server' : ServerState}
    (hrun : run turnStep turns (phase, host.server) = some (phase', server'))
    (hphase : host.connections id = busy phase) :
    run (Host.step rules) (turns.map fun turn => .client id (action turn)) host =
      some { host with
        server := server'
        connections := Function.update host.connections id (busy phase') } := by
  induction turns generalizing phase host with
  | nil =>
    cases hrun
    rw [← hphase, Function.update_eq_self]
    rfl
  | cons turn turns ih =>
    obtain ⟨⟨middle, server⟩, hturn, hrest⟩ := run_cons.mp hrun
    have hstep : Host.step rules host (.client id (action turn)) =
        some { host with
          server
          connections := Function.update host.connections id (busy middle) } := by
      rw [Host.step, hphase, hbusy hturn]
      rfl
    rw [List.map_cons, run, hstep, Option.bind_some]
    have hlater := ih
      { host with server, connections := Function.update host.connections id (busy middle) }
      hrest (Function.update_self _ _ _)
    rw [hlater]
    simp only [Function.update_idem]

theorem Host.run_client {Action Conn : Type} {rules : Id → Rules Action Conn}
    {host : Host Id Conn} {id : Id} {action : Action} {connection : Conn} {server : ServerState}
    (h : (rules id).step action (host.connections id) host.server = some (connection, server))
    (events : List (HostEvent Id Action)) :
    run (Host.step rules) (.client id action :: events) host =
      run (Host.step rules) events
        { host with server, connections := Function.update host.connections id connection } := by
  rw [run, Host.step, h]
  rfl

/-- A request that is read may take all its turns on the store at once. -/
theorem Host.run_request {Action Conn : Type} (rules : Id → Rules Action Conn) {id : Id}
    {first : Action} (action : LockTurn → Action) (busy : Phase → Conn)
    (hbusy : ∀ {turn phase phase' server server'},
      phase.turn turn server = some (phase', server') →
        (rules id).step (action turn) (busy phase) server = some (busy phase', server'))
    {host : Host Id Conn} {frame : Frame} {env : Env} {outcome : AppendOutcome}
    (hfirst : (rules id).step first (host.connections id) host.server =
      some (busy (enterFrame frame env outcome host.server.store).1,
        { host.server with store := (enterFrame frame env outcome host.server.store).2 })) :
    ∃ events, run (Host.step rules) events host =
      some { host with
        server := { host.server with store := (executeFrame frame env host.server.store).2 }
        connections := Function.update host.connections id
          (busy (Stage.after outcome (executeFrame frame env host.server.store).1).phase) } := by
  obtain ⟨turns, hturns⟩ := enterFrame_finishes frame env outcome host.server
  refine ⟨.client id first :: turns.map fun turn => .client id (action turn), ?_⟩
  rw [Host.run_client hfirst]
  have hlater := Host.run_turns hbusy
    { host with
      server := { host.server with store := (enterFrame frame env outcome host.server.store).2 }
      connections := Function.update host.connections id
        (busy (enterFrame frame env outcome host.server.store).1) }
    hturns (Function.update_self _ _ _)
  rw [hlater]
  simp only [Function.update_idem]

/-! ### Clients that hand over whole requests -/

def Connection.task (connection : Connection) : ClientTask where
  requests := connection.requests
  phase := connection.stage.phase
  replies := connection.replies

/-- The connection with a request under way and these still to come. -/
def Connection.busy (connection : Connection) (requests : List Request) (phase : Phase) :
    ClientTask where
  requests := requests
  phase := phase
  replies := connection.replies

theorem Connection.busy_turn (connection : Connection) (requests : List Request) {turn : LockTurn}
    {phase phase' : Phase} {server server' : ServerState}
    (h : phase.turn turn server = some (phase', server')) :
    (connection.busy requests phase).step (.turn turn) server =
      some (connection.busy requests phase', server') := by
  simp only [ClientTask.step, busy, h, Option.map_some]

def System.host {Id : Type} (system : System Id) : Host Id ClientTask where
  server := system.server
  cleaner := 0
  connections id := (system.connections id).task

theorem system_host_update (system : System Id) (id : Id) (server : ServerState)
    (connection : Connection) :
    System.host { server, connections := Function.update system.connections id connection } =
      { system.host with
        server
        connections := Function.update system.host.connections id connection.task } := by
  have hconnections := funext
    (Function.apply_update (fun _ => Connection.task) system.connections id connection)
  simp only [System.host, hconnections]

theorem system_host_step {system next : System Id} {id : Id} {action : Action}
    (h : system.step id action = some next) :
    ∃ events, run (Host.step fun _ => clientRules) events system.host = some next.host := by
  obtain ⟨connection, server, hconnection, rfl⟩ := System.step_some h
  rw [system_host_update]
  rcases Connection.step_cases hconnection with
    ⟨request, rest, rfl, hstage, hrequests, rfl, rfl⟩ |
    ⟨response, aofFrame, outcome, rfl, hstage, rfl, rfl⟩ |
    ⟨response, rfl, hstage, rfl, rfl⟩
  · have hphase : (system.host.connections id).phase = .reading := congrArg Stage.phase hstage
    exact Host.run_request (fun _ => clientRules) ClientAction.turn
      ((system.connections id).busy rest) (Connection.busy_turn _ rest)
      (ClientTask.step_execute hphase hrequests)
  · have hphase : (system.host.connections id).phase = .executed response aofFrame outcome :=
      congrArg Stage.phase hstage
    have hturn := Phase.turn_append response aofFrame outcome system.server
    rw [← hphase] at hturn
    exact ⟨[.client id (.turn .append)], Host.run_client (ClientTask.step_turn hturn) []⟩
  · have hphase : (system.host.connections id).phase = .replying response :=
      congrArg Stage.phase hstage
    exact ⟨[.client id .reply], Host.run_client (ClientTask.step_reply hphase) []⟩

/-- **The system within the server.**  Every run of the system of connections is one of the
    server with all its turns, to the same state. -/
theorem system_within (server : ServerState) (requests : Id → List Request)
    {schedule : List (Id × Action)} {system : System Id}
    (h : (System.fresh server requests).run schedule = some system) :
    ∃ events, run (Host.step fun _ => clientRules) events (.fresh server requests) =
      some system.host := by
  have hsimulates : Simulates systemStep (Host.step fun (_ : Id) => clientRules)
      (fun system host => host = system.host) := by
    rintro system ⟨id, action⟩ next _ rfl hstep
    obtain ⟨events, hevents⟩ := system_host_step hstep
    exact ⟨events, _, hevents, rfl⟩
  rw [← run_systemStep] at h
  obtain ⟨events, _, hevents, rfl⟩ := hsimulates.run rfl h
  exact ⟨events, hevents⟩

/-! ### Connections over sockets -/

def Task.phase : Task → SocketPhase
  | .running stage => .running stage.phase
  | .ended ending => .ended ending

def Socket.turns (socket : Socket) : SocketTask where
  incoming := socket.incoming
  buffer := socket.buffer
  closed := socket.closed
  round := socket.round
  task := socket.task.phase
  written := socket.written

/-- The socket with a request under way and these bytes still to read. -/
def Socket.busy (socket : Socket) (buffer : Bytes) (phase : Phase) : SocketTask :=
  { socket.turns with buffer, task := .running phase }

theorem Socket.busy_turn (heap : Allocator) (rounds : Nat → Round) (socket : Socket)
    (buffer : Bytes) {turn : LockTurn} {phase phase' : Phase} {server server' : ServerState}
    (h : phase.turn turn server = some (phase', server')) :
    (socket.busy buffer phase).step heap rounds (.turn turn) server =
      some (socket.busy buffer phase', server') := by
  simp only [SocketTask.step, busy, h, Option.map_some]

def Network.host {Id : Type} (network : Network Id) : Host Id SocketTask where
  server := network.server
  cleaner := 0
  connections id := (network.sockets id).turns

theorem network_host_update (network : Network Id) (id : Id) (server : ServerState)
    (socket : Socket) :
    Network.host { server, sockets := Function.update network.sockets id socket } =
      { network.host with
        server
        connections := Function.update network.host.connections id socket.turns } := by
  have hconnections := funext
    (Function.apply_update (fun _ => Socket.turns) network.sockets id socket)
  simp only [Network.host, hconnections]

/-- A step of a socket is one step with all turns in sight, or the first of a request. -/
theorem Socket.Takes.answered {heap : Allocator} {rounds : Nat → Round} {socket next : Socket}
    {event : Event} {server server' : ServerState}
    (h : socket.Takes heap rounds server event next server') :
    (∃ action, socket.turns.step heap rounds action server = some (next.turns, server')) ∨
      ∃ frame rest env outcome, socket.turns.step heap rounds .read server =
          some (socket.busy rest (enterFrame frame env outcome server.store).1,
            { server with store := (enterFrame frame env outcome server.store).2 }) ∧
        next.turns =
          socket.busy rest (Stage.after outcome (executeFrame frame env server.store).1).phase ∧
        server' = { server with store := (executeFrame frame env server.store).2 } := by
  cases h with
  | arrive hcount hincoming =>
    rename_i count
    refine Or.inl ⟨.arrive count, ?_⟩
    simp only [SocketTask.step, turns, hcount, List.isEmpty_iff, hincoming, or_self, if_false]
  | hangUp hopen hincoming =>
    refine Or.inl ⟨.hangUp, ?_⟩
    simp [SocketTask.step, turns, hopen, hincoming]
  | fail htask hpoll =>
    refine Or.inl ⟨.read, ?_⟩
    simp only [SocketTask.step, turns, htask, Task.phase, Stage.phase, hpoll]
  | close htask hpoll =>
    refine Or.inl ⟨.read, ?_⟩
    simp only [SocketTask.step, turns, htask, Task.phase, Stage.phase, hpoll]
  | execute htask hpoll =>
    rename_i frame rest
    refine Or.inr ⟨frame, rest, (rounds socket.round).env, (rounds socket.round).outcome, ?_, ?_⟩
    · simp only [SocketTask.step, busy, turns, htask, Task.phase, Stage.phase, hpoll]
    · exact ⟨rfl, rfl⟩
  | append htask =>
    rename_i response aofFrame outcome
    refine Or.inl ⟨.turn .append, ?_⟩
    simp only [SocketTask.step, turns, htask, Task.phase, Stage.phase, Phase.turn_append,
      Option.map_some]
  | reply htask hsent =>
    rename_i response cut
    refine Or.inl ⟨.reply cut, ?_⟩
    simp only [SocketTask.step, turns, htask, Task.phase, Stage.phase, hsent, if_true]
  | breakOff htask hsent =>
    rename_i response cut
    refine Or.inl ⟨.reply cut, ?_⟩
    simp only [SocketTask.step, turns, htask, Task.phase, Stage.phase, hsent, Bool.false_eq_true,
      if_false]

theorem network_host_step {heap : Allocator} {rounds : Id → Nat → Round}
    {network next : Network Id} {event : Id × Event}
    (h : Network.step heap rounds network event = some next) :
    ∃ events, run (Host.step fun id => socketRules heap (rounds id)) events network.host =
      some next.host := by
  obtain ⟨socket, server, hsocket, rfl⟩ := Network.step_some h
  rw [network_host_update]
  rcases (Socket.step_takes hsocket).answered with
    ⟨action, hstep⟩ | ⟨frame, rest, env, outcome, hfirst, hturns, rfl⟩
  · exact ⟨[.client event.1 action], Host.run_client hstep []⟩
  · rw [hturns]
    exact Host.run_request (fun id => socketRules heap (rounds id)) SocketAction.turn
      ((network.sockets event.1).busy rest) (Socket.busy_turn heap (rounds event.1) _ rest) hfirst

/-- **The network within the server.**  Every run of the network is one of the server with
    all its turns and its cleaning task, to the same state. -/
theorem network_within (heap : Allocator) (rounds : Id → Nat → Round) (server : ServerState)
    (streams : Id → Bytes) {schedule : List (Id × Event)} {network : Network Id}
    (h : run (Network.step heap rounds) schedule (.initial server streams) = some network) :
    ∃ events, run (Host.step fun id => socketRules heap (rounds id)) events
      (.accepted server streams) = some network.host := by
  have hsimulates : Simulates (Network.step heap rounds)
      (Host.step fun id => socketRules heap (rounds id))
      (fun network host => host = network.host) := by
    rintro network event next _ rfl hstep
    obtain ⟨events, hevents⟩ := network_host_step hstep
    exact ⟨events, _, hevents, rfl⟩
  obtain ⟨events, _, hevents, rfl⟩ := hsimulates.run rfl h
  exact ⟨events, hevents⟩

end

end AerugoCache.Concurrent
