import AerugoCache.NetworkRuns
import AerugoCache.VisibleStore

/-!
# The task that cleans up

`spawn_expiration_cleanup` calls `cleanup_expired` again and again, between the steps of any
connection.  Without a memory limit no client can tell: the steps of the connections alone
are a run with the same replies and the same log, and the store shows the same.  A sweep must
only not be ahead of a request that is executed after it, in the readings of the clock.
-/

namespace AerugoCache.Concurrent

open AerugoCache.ByteText AerugoCache.KeyedMap AerugoCache.Protocol AerugoCache.Storage
  AerugoCache.Commands AerugoCache.Server AerugoCache.StepSystem

/-- A step of a connection, or an iteration of the loop of `spawn_expiration_cleanup`. -/
inductive ServerEvent (Id : Type) where
  | client (id : Id) (action : Action)
  | cleanup (now : SystemTime)

def cleanupTick (now : SystemTime) (server : ServerState) : ServerState :=
  { server with store := (server.store.cleanupExpired now).2 }

section

variable {Id : Type} [DecidableEq Id]

/-- The connections of a server and its cleaning task. -/
def tendedStep : StepFunction (System Id) (ServerEvent Id)
  | system, .client id action => system.step id action
  | system, .cleanup now => some { system with server := cleanupTick now system.server }

/-- The steps of the connections. -/
def clientSteps (events : List (ServerEvent Id)) : List (Id × Action) :=
  events.filterMap fun event =>
    match event with
    | .client id action => some (id, action)
    | .cleanup _ => none

/-- No request reads the clock before a sweep that was there first, `swept` being the latest
    reading of a sweep so far. -/
def ReadsAfterSweeps : SystemTime → List (ServerEvent Id) → System Id → Prop
  | _, [], _ => True
  | swept, event :: events, system =>
      match event with
      | .client id action =>
          (∀ request, (system.connections id).executes action = some request →
            swept ≤ request.env.clock.now) ∧
          ∀ next, system.step id action = some next → ReadsAfterSweeps swept events next
      | .cleanup now =>
          ReadsAfterSweeps (max swept now) events
            { system with server := cleanupTick now system.server }

instance decidableReadsAfterSweeps : (swept : SystemTime) → (events : List (ServerEvent Id)) →
    (system : System Id) → Decidable (ReadsAfterSweeps swept events system)
  | _, [], _ => isTrue trivial
  | swept, .client id action :: events, system =>
      have := decidableReadsAfterSweeps swept events
      inferInstanceAs (Decidable
        ((∀ request ∈ (system.connections id).executes action,
            swept ≤ request.env.clock.now) ∧
          ∀ next ∈ system.step id action, ReadsAfterSweeps swept events next))
  | swept, .cleanup now :: events, system =>
      decidableReadsAfterSweeps (max swept now) events
        { system with server := cleanupTick now system.server }

omit [DecidableEq Id] in
/-- The latest reading of a sweep, or `start`. -/
def latestSweep (start : SystemTime) (events : List (ServerEvent Id)) : SystemTime :=
  events.foldl (fun swept event =>
    match event with
    | .client _ _ => swept
    | .cleanup now => max swept now) start

/-- The system with its cleaning task, beside the one without it. -/
structure Tends (swept : SystemTime) (tended plain : System Id) : Prop where
  connections : tended.connections = plain.connections
  servers : Alike swept tended.server plain.server
  requests : ∀ id, ∀ request ∈ (plain.connections id).requests, Request.Plain request

omit [DecidableEq Id] in
theorem Tends.cleanup {swept : SystemTime} {tended plain : System Id}
    (h : Tends swept tended plain) (now : SystemTime) :
    Tends (max swept now) { tended with server := cleanupTick now tended.server } plain := by
  refine ⟨h.connections, ⟨?_, h.servers.unlimited', ?_, h.servers.logging⟩, h.requests⟩
  · exact (congrArg StoreConfig.maxMemoryBytes (MemoryStore.recordExpired_config _ _)).trans
      h.servers.unlimited
  · have hswept : SameVisible now tended.server.store.entries
        (tended.server.store.cleanupExpired now).2.entries := by
      rw [MemoryStore.cleanupExpired_entries]
      exact .retainUnexpired now _
    exact (hswept.symm.later (le_max_right _ _)).trans
      (h.servers.shown.later (le_max_left _ _))

/-- A step of a connection is a step of it without the cleaning task. -/
theorem Tends.client {swept : SystemTime} {tended plain next : System Id} {id : Id}
    {action : Action} (h : Tends swept tended plain)
    (hreading : ∀ request, (tended.connections id).executes action = some request →
      swept ≤ request.env.clock.now)
    (hstep : tended.step id action = some next) :
    ∃ next', plain.step id action = some next' ∧ Tends swept next next' := by
  obtain ⟨connection, server, hconnection, rfl⟩ := System.step_some hstep
  have hsame := congrFun h.connections id
  have hrest : ∀ connection : Connection, (∀ request ∈ connection.requests,
      request ∈ (plain.connections id).requests) → ∀ other, ∀ request ∈
      (Function.update plain.connections id connection other).requests, Request.Plain request := by
    intro connection hsub other request hrequest
    by_cases hother : other = id
    · subst hother
      rw [Function.update_self] at hrequest
      exact h.requests other request (hsub request hrequest)
    · rw [Function.update_of_ne hother] at hrequest
      exact h.requests other request hrequest
  rcases Connection.step_cases hconnection with
    ⟨request, requests, rfl, hstage, hrequests, rfl, rfl⟩ |
    ⟨response, aofFrame, outcome, rfl, hstage, rfl, rfl⟩ |
    ⟨response, rfl, hstage, rfl, rfl⟩
  · have hexecutes : (tended.connections id).executes .execute = some request := by
      simp only [Connection.executes, hstage, hrequests]
    rw [hsame] at hstage hrequests
    have hplain := h.requests id request (by rw [hrequests]; exact List.mem_cons_self)
    obtain ⟨hresult, hservers⟩ :=
      h.servers.executeRequest hplain (hreading request hexecutes)
    refine ⟨_, by rw [System.step, Connection.step_execute hstage hrequests, Option.map_some], ?_⟩
    refine ⟨?_, hservers, hrest _ ?_⟩
    · simp only [hresult, h.connections]
    · intro other hother
      rw [hrequests]
      exact List.mem_cons_of_mem _ hother
  · rw [hsame] at hstage
    refine ⟨_, by rw [System.step, Connection.step_append hstage, Option.map_some], ?_⟩
    refine ⟨?_, ?_, hrest _ fun _ hother => hother⟩
    · simp only [h.servers.logging, h.connections]
    · exact { h.servers with logging := by simp only [h.servers.logging] }
  · rw [hsame] at hstage
    refine ⟨_, by rw [System.step, Connection.step_reply hstage, Option.map_some], ?_⟩
    refine ⟨?_, h.servers, hrest _ fun _ hother => hother⟩
    simp only [h.connections]

/-- A run of the system without the cleaning task goes along. -/
theorem Tends.run {swept : SystemTime} {tended plain final : System Id}
    {events : List (ServerEvent Id)} (h : Tends swept tended plain)
    (horder : ReadsAfterSweeps swept events tended)
    (hrun : run tendedStep events tended = some final) :
    ∃ plain', plain.run (clientSteps events) = some plain' ∧
      Tends (latestSweep swept events) final plain' := by
  induction events generalizing swept tended plain with
  | nil =>
    cases hrun
    exact ⟨plain, rfl, h⟩
  | cons event events ih =>
    obtain ⟨next, hstep, hrest⟩ := run_cons.mp hrun
    cases event with
    | client id action =>
      obtain ⟨next', hstep', hnext⟩ := h.client horder.1 hstep
      obtain ⟨plain', hplain, hfinal⟩ := ih hnext (horder.2 next hstep) hrest
      refine ⟨plain', ?_, hfinal⟩
      change (plain.step id action).bind (System.run (clientSteps events)) = some plain'
      rw [hstep', Option.bind_some, hplain]
    | cleanup now =>
      cases hstep
      exact ih (h.cleanup now) horder hrest

/-- **The cleaning task cannot be noticed.**  Without a memory limit, in any interleaving
    with the connections, and when no request reads the clock before a sweep that was there
    first, the steps of the connections alone are a run in which every connection has the
    same requests left, the same stage and the same replies, the log is the same, and the
    store shows the same from the latest sweep on.  Requests for the counters are
    excepted. -/
theorem cleanup_unnoticed (start : SystemTime) {server : ServerState}
    {requests : Id → List Request} {events : List (ServerEvent Id)} {system : System Id}
    (hlimit : server.store.config.maxMemoryBytes = none)
    (hplain : ∀ id, ∀ request ∈ requests id, Request.Plain request)
    (horder : ReadsAfterSweeps start events (System.fresh server requests))
    (hrun : run tendedStep events (System.fresh server requests) = some system) :
    ∃ plain, (System.fresh server requests).run (clientSteps events) = some plain ∧
      plain.connections = system.connections ∧ plain.server.aof = system.server.aof ∧
      SameVisible (latestSweep start events) plain.server.store.entries
        system.server.store.entries := by
  have hstart : Tends start (System.fresh server requests) (System.fresh server requests) :=
    ⟨rfl, ⟨hlimit, hlimit, .refl start _, rfl⟩, hplain⟩
  obtain ⟨plain, hplain, htends⟩ := hstart.run horder hrun
  exact ⟨plain, hplain, htends.connections.symm, htends.servers.logging.symm,
    htends.servers.shown.symm⟩

end

/-- The three steps of a request that is answered by its command. -/
def roundSteps : List (ServerEvent Unit) :=
  [.client () .execute, .client () .append, .client () .reply]

/-- Two keys are written with a deadline, swept once that is reached, and one is asked for. -/
def sweptEvents : List (ServerEvent Unit) :=
  roundSteps ++ roundSteps ++ roundSteps ++ roundSteps ++ [.cleanup 20000000000] ++ roundSteps

def sweptRequests : Unit → List Request := fun _ =>
  [clientRequest "SET" [utf8 "j", [1]] (.at 0 0),
    clientRequest "EXPIREAT" [utf8 "j", utf8 "10"] (.at 0 0),
    clientRequest "SET" [utf8 "k", [1]] (.at 0 0),
    clientRequest "EXPIREAT" [utf8 "k", utf8 "10"] (.at 0 0),
    clientRequest "GET" [utf8 "k"] (.at 30000000000 0)]

/-- The sweep drops both keys; without it the one that is not asked for lingers, and the
    replies are the same. -/
theorem cleanup_unnoticed_swept :
    ∃ system plain : System Unit,
      run tendedStep sweptEvents (System.fresh (.initial .default) sweptRequests) = some system ∧
      (System.fresh (.initial .default) sweptRequests).run (clientSteps sweptEvents) =
        some plain ∧
      size system.server.store.entries = 0 ∧ size plain.server.store.entries = 1 ∧
      (system.connections ()).replies.map writeFrame = [writeFrame (.simple "OK"),
        writeFrame (.integer 1), writeFrame (.simple "OK"), writeFrame (.integer 1),
        writeFrame .null] ∧
      plain.connections = system.connections ∧ plain.server.aof = system.server.aof ∧
      SameVisible 20000000000 plain.server.store.entries system.server.store.entries := by
  have hruns : (run tendedStep sweptEvents
      (System.fresh (.initial .default) sweptRequests)).map (fun system =>
        (size system.server.store.entries, (system.connections ()).replies.map writeFrame)) =
      some (0, [writeFrame (.simple "OK"), writeFrame (.integer 1), writeFrame (.simple "OK"),
        writeFrame (.integer 1), writeFrame .null]) := by
    decide +kernel
  have hlingers : ((System.fresh (.initial .default) sweptRequests).run
      (clientSteps sweptEvents)).map (fun plain => size plain.server.store.entries) = some 1 := by
    decide +kernel
  obtain ⟨system, hrun, hdone⟩ := Option.map_eq_some_iff.mp hruns
  obtain ⟨hsize, hreplies⟩ := Prod.mk.inj hdone
  have hplain : ∀ id, ∀ request ∈ sweptRequests id, Request.Plain request := by decide +kernel
  have horder : ReadsAfterSweeps 0 sweptEvents
      (System.fresh (.initial .default) sweptRequests) := by decide +kernel
  obtain ⟨plain, hrun', hconnections, haof, hshown⟩ := cleanup_unnoticed 0 rfl hplain horder hrun
  rw [hrun', Option.map_some, Option.some.injEq] at hlingers
  exact ⟨system, plain, hrun, hrun', hsize, hlingers, hreplies, hconnections, haof, hshown⟩

end AerugoCache.Concurrent
