import AerugoCache.Concurrent
import AerugoCache.RedoLog
import AerugoCache.ReplayUndated

/-!
# The order of the log under concurrent clients

A connection appends the record of a command some time after it executed the command,
so the log may name commands in another order than the store executed them in.  As
long as a command is logged only before commands it commutes with, the log redoes
the live map.  Commands on different keys commute; two writes of one key need not, and
nothing in the server keeps their records in order.
-/

namespace AerugoCache.Concurrent

open AerugoCache.ByteText AerugoCache.KeyedMap AerugoCache.RedoLog AerugoCache.Protocol
  AerugoCache.Storage AerugoCache.Commands AerugoCache.Persistence AerugoCache.Server
  AerugoCache.Replay

section

variable {Id : Type} [DecidableEq Id]

/-! ### Commands in flight -/

/-- The commands executed whose records are still to be appended, in the order in
    which they were executed, each with its connection. -/
abbrev InFlight (Id : Type) := List (Id × Command)

def nextInFlight (inFlight : InFlight Id) (id : Id) (action : Action) (system : System Id) :
    InFlight Id :=
  match action, (system.connections id).requests with
  | .execute, request :: _ =>
      inFlight ++ (loggedCommand request system.server.store).toList.map fun command => (id, command)
  | .append, _ => others inFlight id
  | _, _ => inFlight

/-- The command that connection `id` logs commutes with every command it overtakes. -/
def InOrder (config : StoreConfig) (inFlight : InFlight Id) (id : Id) : Prop :=
  ∀ command, (id, command) ∈ inFlight → ∀ earlier ∈ overtaken inFlight id,
    Commutes (Command.update config) command earlier

/-- A schedule in which every append is in order when its turn comes. -/
def OrderedRun (config : StoreConfig) :
    InFlight Id → List (Id × Action) → System Id → Prop
  | _, [], _ => True
  | inFlight, (id, action) :: schedule, system =>
      (action = .append → InOrder config inFlight id) ∧
        ∀ next, system.step id action = some next →
          OrderedRun config (nextInFlight inFlight id action system) schedule next

/-! ### The invariant -/

/-- What the stage of a connection says of its command in flight: it is the one whose
    record comes next, or there is none. -/
def Tracks (inFlight : InFlight Id) (id : Id) : Stage → Prop
  | .executed _ (some frame) outcome =>
      outcome = .written ∧
        ∃ record : Record, record.frame = frame ∧ (id, record.command) ∈ inFlight
  | _ => ∀ command, (id, command) ∉ inFlight

/-- The log holds the records of commands that make, with the commands in flight after
    them, the live map. -/
structure Logging (config : StoreConfig) (system : System Id) (inFlight : InFlight Id)
    (log : List Record) : Prop where
  configured : system.server.store.config = config
  undated : Undated system.server.store.entries
  aof : system.server.aof = some ((log.map Record.frame).flatMap writeFrame)
  pending : Pending (Command.update config) ∅ (log.map Record.command) (inFlight.map Prod.snd)
    system.server.store.entries
  distinct : (inFlight.map Prod.fst).Nodup
  tracks : ∀ id, Tracks inFlight id (system.connections id).stage
  replayable : (∀ entry ∈ inFlight, entry.2.Replayable) ∧
    ∀ record ∈ log, record.command.Replayable
  requests : ∀ id, ∀ request ∈ (system.connections id).requests,
    isExpiryRequest request = false ∧ request.outcome = .written

omit [DecidableEq Id] in
/-- Only the steps of a connection change what is in flight for it. -/
theorem Tracks.congr {inFlight inFlight' : InFlight Id} {id : Id}
    (hsame : ∀ command, (id, command) ∈ inFlight' ↔ (id, command) ∈ inFlight) {stage : Stage}
    (h : Tracks inFlight id stage) : Tracks inFlight' id stage := by
  rcases stage with _ | ⟨response, _ | frame, outcome⟩ | response
  · exact fun command hmem => h command ((hsame command).mp hmem)
  · exact fun command hmem => h command ((hsame command).mp hmem)
  · obtain ⟨hwritten, record, hframe, hmem⟩ := h
    exact ⟨hwritten, record, hframe, (hsame record.command).mpr hmem⟩
  · exact fun command hmem => h command ((hsame command).mp hmem)

theorem tracks_update {inFlight inFlight' : InFlight Id} {connections : Id → Connection} {id : Id}
    {connection : Connection} (h : ∀ other, Tracks inFlight other (connections other).stage)
    (hself : Tracks inFlight' id connection.stage)
    (hothers : ∀ other command, other ≠ id →
      ((other, command) ∈ inFlight' ↔ (other, command) ∈ inFlight)) (other : Id) :
    Tracks inFlight' other (Function.update connections id connection other).stage := by
  by_cases hother : other = id
  · subst hother
    rw [Function.update_self]
    exact hself
  · rw [Function.update_of_ne hother]
    exact (h other).congr fun command => hothers other command hother

theorem requests_update {P : Request → Prop} {connections : Id → Connection} {id : Id}
    {connection : Connection} (h : ∀ other, ∀ request ∈ (connections other).requests, P request)
    (hself : ∀ request ∈ connection.requests, request ∈ (connections id).requests) (other : Id) :
    ∀ request ∈ (Function.update connections id connection other).requests, P request := by
  intro request hrequest
  by_cases hother : other = id
  · subst hother
    rw [Function.update_self] at hrequest
    exact h other request (hself request hrequest)
  · rw [Function.update_of_ne hother] at hrequest
    exact h other request hrequest

variable {config : StoreConfig} {system : System Id} {inFlight : InFlight Id} {log : List Record}
  {id : Id}

omit [DecidableEq Id] in
theorem Logging.forced (h : Logging config system inFlight log)
    (hlimit : config.maxMemoryBytes = none) (request : Request) :
    ForcedRequest request system.server.store := by
  apply forcedRequest_of_noEviction
  rw [h.configured]
  exact Or.inl hlimit

/-- A connection executes a request that leaves no record. -/
theorem Logging.execute_unlogged (h : Logging config system inFlight log)
    (hlimit : config.maxMemoryBytes = none) {request : Request}
    (hrequest : request ∈ (system.connections id).requests)
    (hstage : (system.connections id).stage = .reading)
    (hlogged : loggedCommand request system.server.store = none) {connection : Connection}
    (hconnection : ∀ r ∈ connection.requests, r ∈ (system.connections id).requests)
    (hnothing : Tracks inFlight id .reading → Tracks inFlight id connection.stage) :
    Logging config
      { server := { system.server with store := nextStore request system.server.store }
        connections := Function.update system.connections id connection } inFlight log := by
  have hplain := (h.requests id request hrequest).1
  have hentries := unlogged_entries h.undated hplain (h.forced hlimit request) hlogged
  have hreading := h.tracks id
  rw [hstage] at hreading
  constructor
  · change (nextStore request system.server.store).config = config
    rw [nextStore_config, h.configured]
  · change Undated (nextStore request system.server.store).entries
    rw [hentries]
    exact h.undated
  · exact h.aof
  · change Pending _ _ _ _ (nextStore request system.server.store).entries
    rw [hentries]
    exact h.pending
  · exact h.distinct
  · exact tracks_update h.tracks (hnothing hreading) fun _ _ _ => Iff.rfl
  · exact h.replayable
  · exact requests_update h.requests hconnection

/-- A connection executes a request that leaves a record. -/
theorem Logging.execute_logged (h : Logging config system inFlight log)
    (hlimit : config.maxMemoryBytes = none) {request : Request}
    (hrequest : request ∈ (system.connections id).requests)
    (hstage : (system.connections id).stage = .reading) {record : Record}
    (hlogged : loggedCommand request system.server.store = some record.command)
    {connection : Connection} {response : Frame}
    (hconnection : ∀ r ∈ connection.requests, r ∈ (system.connections id).requests)
    (hexecuted : connection.stage = .executed response (some record.frame) request.outcome) :
    Logging config
      { server := { system.server with store := nextStore request system.server.store }
        connections := Function.update system.connections id connection }
      (inFlight ++ [(id, record.command)]) log := by
  obtain ⟨hplain, hwritten⟩ := h.requests id request hrequest
  obtain ⟨hreplayable, -, heffect⟩ :=
    logged_effect h.undated hplain (h.forced hlimit request) hlogged
  rw [h.configured] at heffect
  have hentries : (nextStore request system.server.store).entries =
      record.command.update config system.server.store.entries := by
    rw [Command.update, heffect, Option.getD_some]
  have hreading : ∀ command, (id, command) ∉ inFlight := by
    have htracks := h.tracks id
    rwa [hstage] at htracks
  constructor
  · change (nextStore request system.server.store).config = config
    rw [nextStore_config, h.configured]
  · exact effect_undated h.undated heffect
  · exact h.aof
  · change Pending _ _ _ _ (nextStore request system.server.store).entries
    rw [hentries, List.map_append]
    exact h.pending.execute record.command
  · rw [List.map_append, List.nodup_append]
    refine ⟨h.distinct, List.nodup_singleton _, ?_⟩
    intro other hother id' hid' heq
    obtain ⟨⟨other, command⟩, hmem, rfl⟩ := List.mem_map.mp hother
    obtain rfl : id' = id := by simpa using hid'
    obtain rfl : other = id' := heq
    exact hreading command hmem
  · refine tracks_update h.tracks ?_ ?_
    · rw [hexecuted]
      exact ⟨hwritten, record, rfl, by simp⟩
    · intro other command hother
      simp [hother]
  · refine ⟨?_, h.replayable.2⟩
    intro entry hentry
    rcases List.mem_append.mp hentry with hentry | hentry
    · exact h.replayable.1 entry hentry
    · rw [List.mem_singleton.mp hentry]
      exact hreplayable
  · exact requests_update h.requests hconnection

/-- A connection appends the record of its command in flight. -/
theorem Logging.append_record (h : Logging config system inFlight log) {record : Record}
    (hmem : (id, record.command) ∈ inFlight) (horder : InOrder config inFlight id)
    {connection : Connection} {response : Frame}
    (hconnection : connection.requests = (system.connections id).requests)
    (hreplying : connection.stage = .replying response) :
    Logging config
      { server :=
          { system.server with
            aof := some ((log.map Record.frame).flatMap writeFrame ++ writeFrame record.frame) }
        connections := Function.update system.connections id connection }
      (others inFlight id) (log ++ [record]) := by
  have hothers : ∀ other command, other ≠ id →
      ((other, command) ∈ others inFlight id ↔ (other, command) ∈ inFlight) := by
    intro other command hother
    simp [others, hother]
  constructor
  · exact h.configured
  · exact h.undated
  · simp
  · rw [List.map_append]
    exact h.pending.logged h.distinct hmem (horder record.command hmem)
  · exact h.distinct.sublist (List.filter_sublist.map Prod.fst)
  · refine tracks_update h.tracks ?_ hothers
    rw [hreplying]
    intro command hmem
    simp [others] at hmem
  · refine ⟨fun entry hentry => h.replayable.1 entry (List.mem_of_mem_filter hentry), ?_⟩
    intro logged hlogged
    rcases List.mem_append.mp hlogged with hlogged | hlogged
    · exact h.replayable.2 logged hlogged
    · rw [List.mem_singleton.mp hlogged]
      exact h.replayable.1 _ hmem
  · exact requests_update h.requests (by rw [hconnection]; exact fun _ hr => hr)

/-- A step that touches neither the store nor the log. -/
theorem Logging.quiet (h : Logging config system inFlight log) {connection : Connection}
    (hconnection : connection.requests = (system.connections id).requests)
    (htracks : Tracks inFlight id connection.stage) :
    Logging config
      { system with connections := Function.update system.connections id connection }
      inFlight log where
  configured := h.configured
  undated := h.undated
  aof := h.aof
  pending := h.pending
  distinct := h.distinct
  tracks := tracks_update h.tracks htracks fun _ _ _ => Iff.rfl
  replayable := h.replayable
  requests := requests_update h.requests (by rw [hconnection]; exact fun _ hr => hr)

omit [DecidableEq Id] in
/-- Executing a request without a record puts nothing in flight. -/
theorem tracks_after {request : Request} {store : MemoryStore}
    (hframe : appendedFrame request store = none) (h : Tracks inFlight id .reading) :
    Tracks inFlight id (.after request.outcome (executeRequest request store).1) := by
  unfold appendedFrame at hframe
  generalize (executeRequest request store).1 = result at hframe ⊢
  rcases result with error | ⟨response, _ | frame⟩
  · exact h
  · exact h
  · cases hframe

theorem after_logged {request : Request} {store : MemoryStore} {frame : Frame}
    (hframe : appendedFrame request store = some frame) :
    ∃ response, Stage.after request.outcome (executeRequest request store).1 =
      .executed response (some frame) request.outcome := by
  unfold appendedFrame at hframe
  generalize (executeRequest request store).1 = result at hframe ⊢
  rcases result with error | ⟨response, aofFrame⟩
  · cases hframe
  · cases hframe
    exact ⟨response, rfl⟩

theorem Logging.execute (h : Logging config system inFlight log)
    (hlimit : config.maxMemoryBytes = none) {request : Request} {requests : List Request}
    (hstage : (system.connections id).stage = .reading)
    (hrequests : (system.connections id).requests = request :: requests) :
    Logging config
      { server := { system.server with store := nextStore request system.server.store }
        connections := Function.update system.connections id
          { system.connections id with
            requests
            stage := .after request.outcome (executeRequest request system.server.store).1 } }
      (nextInFlight inFlight id .execute system) log := by
  have hrequest : request ∈ (system.connections id).requests := by
    rw [hrequests]
    exact List.mem_cons_self
  have hrest : ∀ r ∈ requests, r ∈ (system.connections id).requests := by
    rw [hrequests]
    exact fun r hr => List.mem_cons_of_mem _ hr
  obtain ⟨record, hframe, hcommand⟩ := exists_appended request system.server.store
  simp only [nextInFlight, hrequests, ← hcommand]
  cases record with
  | none =>
    simp only [Option.map_none, Option.toList_none, List.map_nil, List.append_nil]
    exact h.execute_unlogged hlimit hrequest hstage hcommand.symm hrest (tracks_after hframe.symm)
  | some record =>
    obtain ⟨response, hafter⟩ := after_logged hframe.symm
    exact h.execute_logged hlimit hrequest hstage hcommand.symm hrest hafter

theorem Logging.append (h : Logging config system inFlight log) {response : Frame}
    {aofFrame : Option Frame} {outcome : AppendOutcome}
    (hstage : (system.connections id).stage = .executed response aofFrame outcome)
    (horder : InOrder config inFlight id) {connection : Connection} {reply : Frame}
    (hconnection : connection.requests = (system.connections id).requests)
    (hreplying : connection.stage = .replying reply) :
    ∃ log', Logging config
      { server :=
          { system.server with aof := (appendCommand system.server.aof aofFrame outcome).2 }
        connections := Function.update system.connections id connection }
      (others inFlight id) log' := by
  have htracks := h.tracks id
  rw [hstage] at htracks
  cases aofFrame with
  | none =>
    have hnothing : id ∉ inFlight.map Prod.fst := by
      intro hmem
      obtain ⟨⟨other, command⟩, hentry, rfl⟩ := List.mem_map.mp hmem
      exact htracks command hentry
    have hsame : (appendCommand system.server.aof none outcome).2 = system.server.aof := by
      rw [h.aof]
      rfl
    rw [others_of_notMem hnothing, hsame]
    refine ⟨log, h.quiet hconnection ?_⟩
    rw [hreplying]
    exact htracks
  | some frame =>
    obtain ⟨rfl, record, rfl, hmem⟩ := htracks
    rw [h.aof]
    exact ⟨log ++ [record], h.append_record hmem horder hconnection hreplying⟩

/-- Every step of a connection preserves the invariant, an append if it is in order. -/
theorem Logging.step (h : Logging config system inFlight log)
    (hlimit : config.maxMemoryBytes = none) {action : Action} {next : System Id}
    (horder : action = .append → InOrder config inFlight id)
    (hstep : system.step id action = some next) :
    ∃ log', Logging config next (nextInFlight inFlight id action system) log' := by
  obtain ⟨connection, server, hconnection, rfl⟩ := System.step_some hstep
  rcases Connection.step_cases hconnection with
    ⟨request, requests, rfl, hstage, hrequests, rfl, rfl⟩ |
    ⟨response, aofFrame, outcome, rfl, hstage, rfl, rfl⟩ |
    ⟨response, rfl, hstage, rfl, rfl⟩
  · exact ⟨log, h.execute hlimit hstage hrequests⟩
  · have hinFlight : nextInFlight inFlight id .append system = others inFlight id := by
      simp [nextInFlight]
    rw [hinFlight]
    exact h.append hstage (horder rfl) rfl rfl
  · have hinFlight : nextInFlight inFlight id .reply system = inFlight := by
      simp [nextInFlight]
    have htracks := h.tracks id
    rw [hstage] at htracks
    rw [hinFlight]
    exact ⟨log, h.quiet rfl htracks⟩

/-! ### Runs -/

omit [DecidableEq Id] in
theorem logging_initial {config : StoreConfig} {requests : Id → List Request}
    (hrequests : ∀ id, ∀ request ∈ requests id,
      isExpiryRequest request = false ∧ request.outcome = .written) :
    Logging config (.initial config requests) [] [] where
  configured := rfl
  undated := undated_empty
  aof := rfl
  pending := rfl
  distinct := List.nodup_nil
  tracks _ _ := List.not_mem_nil
  replayable := ⟨by simp, by simp⟩
  requests := hrequests

theorem Logging.run {schedule : List (Id × Action)} (h : Logging config system inFlight log)
    (hlimit : config.maxMemoryBytes = none) (hordered : OrderedRun config inFlight schedule system)
    {last : System Id} (hrun : system.run schedule = some last) :
    ∃ inFlight' log', Logging config last inFlight' log' := by
  induction schedule generalizing system inFlight log with
  | nil =>
    cases hrun
    exact ⟨inFlight, log, h⟩
  | cons event schedule ih =>
    obtain ⟨id, action⟩ := event
    obtain ⟨next, hstep, hrun⟩ := Option.bind_eq_some_iff.mp hrun
    obtain ⟨horder, hrest⟩ := hordered
    obtain ⟨log', h'⟩ := h.step hlimit horder hstep
    exact ih h' (hrest next hstep) hrun

omit [DecidableEq Id] in
theorem Logging.inFlight_of_idle (h : Logging config system inFlight log) (hidle : system.Idle) :
    inFlight = [] := by
  apply List.eq_nil_iff_forall_not_mem.mpr
  rintro ⟨id, command⟩ hmem
  have htracks := h.tracks id
  rw [hidle id] at htracks
  exact htracks command hmem

/-- Replaying commands redoes their updates. -/
theorem replayCommands_redo (hlimit : config.maxMemoryBytes = none) (envs : Nat → Env)
    {commands : List Command} (hreplayable : ∀ command ∈ commands, command.Replayable)
    (round count : Nat) {store : MemoryStore} (hconfig : store.config = config)
    (hundated : Undated store.entries) :
    (replayCommands envs commands round count store).2.entries =
      redo (Command.update config) commands store.entries := by
  induction commands generalizing round count store with
  | nil => rfl
  | cons command commands ih =>
    obtain ⟨hexpiry, clock, hlogged⟩ := hreplayable command List.mem_cons_self
    have hforced : command.Forced store.config store.entries :=
      command.forced_of_noEviction (by rw [hconfig]; exact Or.inl hlimit) _
    have hentries := (execute_refines hundated hexpiry hforced hlogged (envs round)).update
    rw [hconfig] at hentries
    have hconfig' : (command.execute (envs round) store).2.config = config := by
      rw [execute_config, hconfig]
    have hundated' : Undated (command.execute (envs round) store).2.entries := by
      rw [hentries]
      exact update_undated hundated
    rw [redo_cons, ← hentries]
    exact ih (fun c hc => hreplayable c (List.mem_cons_of_mem _ hc)) _ _ hconfig' hundated'

/-- **The log redoes the live map.**  In a run of any number of connections whose
    appends are in order, replay gives the entries of the live store whenever no
    request is in flight. -/
theorem replay_of_orderedRun (config : StoreConfig) (hlimit : config.maxMemoryBytes = none)
    (requests : Id → List Request)
    (hplain : ∀ id, ∀ request ∈ requests id, isExpiryRequest request = false)
    (hwritten : ∀ id, ∀ request ∈ requests id, request.outcome = .written)
    (schedule : List (Id × Action))
    (hordered : OrderedRun config [] schedule (.initial config requests))
    (system : System Id) (hrun : (System.initial config requests).run schedule = some system)
    (hidle : system.Idle) (envs : Nat → Env) :
    (replay .unlimited envs system.server.aof (.withConfig config)).2.entries =
      system.server.store.entries := by
  have hstart : Logging config (.initial config requests) [] [] :=
    logging_initial fun id request hrequest =>
      ⟨hplain id request hrequest, hwritten id request hrequest⟩
  obtain ⟨inFlight, log, h⟩ := hstart.run hlimit hordered hrun
  obtain rfl := h.inFlight_of_idle hidle
  have hlive : redo (Command.update config) (log.map Record.command ++ []) ∅ =
      system.server.store.entries := h.pending
  rw [List.append_nil] at hlive
  have hreplayable : ∀ command ∈ log.map Record.command, command.Replayable := by
    intro command hcommand
    obtain ⟨record, hrecord, rfl⟩ := List.mem_map.mp hcommand
    exact h.replayable.2 record hrecord
  rw [h.aof, replay_records, replayCommands_redo hlimit envs hreplayable 0 0 rfl undated_empty]
  exact hlive

/-! ### Overtaking on different keys -/

omit [DecidableEq Id] in
/-- Without a memory limit, commands on different keys commute. -/
theorem commutes_of_disjoint (hlimit : config.maxMemoryBytes = none) {command command' : Command}
    (hkeys : ∀ key ∈ command.keys, key ∉ command'.keys) :
    Commutes (Command.update config) command command' :=
  (acts_update hlimit command).comm (acts_update hlimit command') hkeys

/-- The command that connection `id` logs overtakes commands on other keys only. -/
def Apart (inFlight : InFlight Id) (id : Id) : Prop :=
  ∀ entry ∈ inFlight, entry.1 = id → ∀ earlier ∈ overtaken inFlight id,
    ∀ key ∈ entry.2.keys, key ∉ earlier.keys

instance (inFlight : InFlight Id) (id : Id) : Decidable (Apart inFlight id) :=
  inferInstanceAs (Decidable (∀ entry ∈ inFlight, entry.1 = id →
    ∀ earlier ∈ overtaken inFlight id, ∀ key ∈ entry.2.keys, key ∉ earlier.keys))

def apartRun : InFlight Id → List (Id × Action) → System Id → Bool
  | _, [], _ => true
  | inFlight, (id, action) :: schedule, system =>
      decide (action = .append → Apart inFlight id) &&
        match system.step id action with
        | some next => apartRun (nextInFlight inFlight id action system) schedule next
        | none => true

theorem orderedRun_of_apartRun (hlimit : config.maxMemoryBytes = none)
    {schedule : List (Id × Action)} (h : apartRun inFlight schedule system = true) :
    OrderedRun config inFlight schedule system := by
  induction schedule generalizing inFlight system with
  | nil => trivial
  | cons event schedule ih =>
    obtain ⟨id, action⟩ := event
    simp only [apartRun, Bool.and_eq_true, decide_eq_true_eq] at h
    obtain ⟨hapart, hrest⟩ := h
    constructor
    · intro happend command hmem earlier hearlier
      exact commutes_of_disjoint hlimit (hapart happend (id, command) hmem rfl earlier hearlier)
    · intro next hstep
      rw [hstep] at hrest
      exact ih hrest

end

/-! ### Two clients

The client that executes its write last appends its record first.  On different keys
the log still redoes the map; on one key it ends with the value that was overwritten. -/

def swappedAppends : List (Bool × Action) := [
  (false, .execute), (true, .execute), (true, .append), (false, .append), (true, .reply),
  (false, .reply)]

def apartWrites : Bool → List Request
  | false => [clientRequest "SET" [utf8 "a", [1]] (.at 0 0)]
  | true => [clientRequest "SET" [utf8 "b", [2]] (.at 1 0)]

def rivalWrites : Bool → List Request
  | false => [clientRequest "SET" [utf8 "k", [1]] (.at 0 0)]
  | true => [clientRequest "SET" [utf8 "k", [2]] (.at 1 0)]

theorem replay_of_orderedRun_apart :
    ∃ system, (System.initial .default apartWrites).run swappedAppends = some system ∧
      (replay .unlimited (fun _ => .at 9 0) system.server.aof (.withConfig .default)).2.entries =
        system.server.store.entries := by
  have hfinished : ((System.initial .default apartWrites).run swappedAppends).any
      (fun system => decide system.Idle) = true := by
    decide +kernel
  obtain ⟨system, hrun, hidle⟩ := (Option.any_eq_true _ _).mp hfinished
  have hapart : apartRun [] swappedAppends (.initial .default apartWrites) = true := by
    decide +kernel
  exact ⟨system, hrun, replay_of_orderedRun .default rfl apartWrites (by decide +kernel)
    (by decide) swappedAppends (orderedRun_of_apartRun rfl hapart) system hrun
    (of_decide_eq_true hidle) fun _ => .at 9 0⟩

theorem replay_diverges_of_rivals :
    ∃ system, (System.initial .default rivalWrites).run swappedAppends = some system ∧
      system.Idle ∧
      (replay .unlimited (fun _ => .at 9 0) system.server.aof
        (.withConfig .default)).2.entries.lookup "k" =
        some { value := .string [1], expiresAt := none } ∧
      system.server.store.entries.lookup "k" =
        some { value := .string [2], expiresAt := none } := by
  have hfinished : ((System.initial .default rivalWrites).run swappedAppends).any
      (fun system => decide (system.Idle ∧
        (replay .unlimited (fun _ => .at 9 0) system.server.aof
          (.withConfig .default)).2.entries.lookup "k" =
          some { value := .string [1], expiresAt := none } ∧
        system.server.store.entries.lookup "k" =
          some { value := .string [2], expiresAt := none })) = true := by
    decide +kernel
  obtain ⟨system, hrun, hdiverged⟩ := (Option.any_eq_true _ _).mp hfinished
  exact ⟨system, hrun, of_decide_eq_true hdiverged⟩

end AerugoCache.Concurrent
