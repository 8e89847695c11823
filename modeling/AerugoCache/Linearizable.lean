import AerugoCache.LogLedger

/-!
# One order for all clients

The requests of all connections, in the order in which they took the lock of the store,
are a history that one client could have sent alone: the store is what that client would
have left, and every connection gets the replies that its own requests have in it.  An
append that fails or is overtaken changes none of this, only the log.  `ServerHistory`
carries this to the server with its cleaning task and the lock of the counters.
-/

namespace AerugoCache.Concurrent

open AerugoCache.ByteText AerugoCache.Protocol AerugoCache.Storage AerugoCache.Commands
  AerugoCache.Persistence AerugoCache.Server

section

variable {Id : Type}

/-- The request a step of a connection executes. -/
def Connection.executes (connection : Connection) (action : Action) : Option Request :=
  match action, connection.stage, connection.requests with
  | .execute, .reading, request :: _ => some request
  | _, _, _ => none

/-- The requests of a history handled one after another, each reply with its client. -/
def serveAll : List (Id × Request) → ServerState → List (Id × Frame) × ServerState
  | [], state => ([], state)
  | (id, request) :: history, state =>
      let (response, state) := handleRequest request state
      let (replies, state) := serveAll history state
      ((id, response) :: replies, state)

theorem length_serve (requests : List Request) (state : ServerState) :
    (serve requests state).1.length = requests.length := by
  induction requests generalizing state with
  | nil => rfl
  | cons request requests ih => simp only [serve, List.length_cons, ih]

theorem serveAll_concat (history : List (Id × Request)) (id : Id) (request : Request)
    (state : ServerState) :
    serveAll (history ++ [(id, request)]) state =
      ((serveAll history state).1 ++ [(id, (handleRequest request (serveAll history state).2).1)],
        (handleRequest request (serveAll history state).2).2) := by
  induction history generalizing state with
  | nil => rfl
  | cons entry history ih =>
    obtain ⟨other, first⟩ := entry
    simp only [List.cons_append, serveAll, ih]

/-- The history of one client is `serve`. -/
theorem serveAll_serve (history : List (Id × Request)) (state : ServerState) :
    serve (history.map Prod.snd) state =
      ((serveAll history state).1.map Prod.snd, (serveAll history state).2) := by
  induction history generalizing state with
  | nil => rfl
  | cons entry history ih =>
    obtain ⟨id, request⟩ := entry
    simp only [List.map_cons, serve, serveAll, ih]

/-! ### The replies of one connection -/

/-- The replies that a connection has sent or still owes for the requests it executed. -/
def Connection.replyList (logging : Option Bytes) (connection : Connection) : List Frame :=
  match connection.stage with
  | .reading => connection.replies
  | .executed response aofFrame outcome =>
      connection.replies ++
        [if (appendCommand logging aofFrame outcome).1 then response else PERSIST_FAILURE]
  | .replying response => connection.replies ++ [response]

theorem replyList_execute {request : Request} {connection : Connection} {server : ServerState}
    (hstage : connection.stage = .reading) {requests : List Request} {state : ServerState}
    (hstore : server.store = state.store) (haof : server.aof.isSome = state.aof.isSome) :
    Connection.replyList server.aof
        { connection with
          requests
          stage := .after request.outcome (executeRequest request server.store).1 } =
      connection.replyList server.aof ++ [(handleRequest request state).1] := by
  rw [Connection.replyList, Connection.replyList, hstage, hstore, handleRequest]
  rcases executeRequest request state.store with ⟨error | ⟨response, aofFrame⟩, store⟩
  · rfl
  · simp only [Stage.after, appendCommand_fst haof]

theorem Connection.replyList_congr {aof aof' : Option Bytes} (h : aof.isSome = aof'.isSome)
    (connection : Connection) : connection.replyList aof = connection.replyList aof' := by
  rw [replyList, replyList]
  split
  · rfl
  · rw [appendCommand_fst h]
  · rfl

/-! ### The history of a run -/

variable [DecidableEq Id]

/-- The requests a run executes, in the order in which it executes them. -/
def System.history : List (Id × Action) → System Id → List (Id × Request)
  | [], _ => []
  | (id, action) :: schedule, system =>
      (((system.connections id).executes action).map (Prod.mk id)).toList ++
        match system.step id action with
        | some next => System.history schedule next
        | none => []

/-- The entries of one client. -/
def own {α : Type} (id : Id) (entries : List (Id × α)) : List α :=
  (entries.filter fun entry => entry.1 = id).map Prod.snd

theorem own_append {α : Type} (id : Id) (first second : List (Id × α)) :
    own id (first ++ second) = own id first ++ own id second := by
  rw [own, List.filter_append, List.map_append]
  rfl

theorem own_self {α : Type} (id : Id) (value : α) : own id [(id, value)] = [value] := by
  simp [own]

theorem own_other {α : Type} {id other : Id} (h : other ≠ id) (value : α) :
    own id [(other, value)] = [] := by
  simp [own, h]

theorem own_mem {α : Type} {id : Id} {entries : List (Id × α)} {value : α}
    (h : value ∈ own id entries) : (id, value) ∈ entries := by
  obtain ⟨entry, hentry, rfl⟩ := List.mem_map.mp h
  obtain ⟨hmem, hid⟩ := List.mem_filter.mp hentry
  obtain rfl := of_decide_eq_true hid
  exact hmem

theorem mem_own {α : Type} {entries : List (Id × α)} {entry : Id × α} (h : entry ∈ entries) :
    entry.2 ∈ own entry.1 entries :=
  List.mem_map.mpr ⟨entry, List.mem_filter.mpr ⟨h, by simp⟩, rfl⟩

/-- The history explains the system: its store, the requests left to each client, and
    the replies each has got or is about to get. -/
structure Explains (start : ServerState) (requests : Id → List Request)
    (history : List (Id × Request)) (system : System Id) : Prop where
  store : system.server.store = (serveAll history start).2.store
  logging : system.server.aof.isSome = (serveAll history start).2.aof.isSome
  order : ∀ id, own id history ++ (system.connections id).requests = requests id
  replies : ∀ id, (system.connections id).replyList system.server.aof =
    own id (serveAll history start).1

/-- A step that executes nothing leaves the explanation as it is. -/
theorem Explains.quiet {start : ServerState} {requests : Id → List Request}
    {history : List (Id × Request)} {system : System Id} {id : Id} {connection : Connection}
    {server : ServerState} (h : Explains start requests history system)
    (hstore : server.store = system.server.store)
    (haof : server.aof.isSome = system.server.aof.isSome)
    (hrequests : connection.requests = (system.connections id).requests)
    (hreplies : connection.replyList system.server.aof =
      (system.connections id).replyList system.server.aof) :
    Explains start requests history
      { server, connections := Function.update system.connections id connection } := by
  refine ⟨hstore.trans h.store, haof.trans h.logging, fun other => ?_, fun other => ?_⟩
  · by_cases hother : other = id
    · subst hother
      simp only [Function.update_self, hrequests, h.order]
    · simp only [Function.update_of_ne hother, h.order]
  · by_cases hother : other = id
    · subst hother
      simp only [Function.update_self, Connection.replyList_congr haof, hreplies, h.replies]
    · simp only [Function.update_of_ne hother, Connection.replyList_congr haof, h.replies]

theorem Explains.step {start : ServerState} {requests : Id → List Request}
    {history : List (Id × Request)} {system next : System Id} {id : Id} {action : Action}
    (h : Explains start requests history system) (hstep : system.step id action = some next) :
    Explains start requests
      (history ++ (((system.connections id).executes action).map (Prod.mk id)).toList) next := by
  obtain ⟨connection, server, hconnection, rfl⟩ := System.step_some hstep
  rcases Connection.step_cases hconnection with
    ⟨request, rest, rfl, hstage, hrequests, rfl, rfl⟩ |
    ⟨response, aofFrame, outcome, rfl, hstage, rfl, rfl⟩ |
    ⟨response, rfl, hstage, rfl, rfl⟩
  · have hexecutes : (system.connections id).executes .execute = some request := by
      simp only [Connection.executes, hstage, hrequests]
    simp only [hexecutes, Option.map_some, Option.toList_some]
    constructor
    · rw [serveAll_concat, handleRequest_store, ← h.store]
    · rw [serveAll_concat, handleRequest_isSome, ← h.logging]
    · intro other
      by_cases hother : other = id
      · subst hother
        have horder := h.order other
        rw [hrequests] at horder
        simp only [own_append, own_self, Function.update_self, List.append_assoc,
          List.singleton_append, horder]
      · have horder := h.order other
        simp only [own_append, own_other (Ne.symm hother), List.append_nil,
          Function.update_of_ne hother, horder]
    · intro other
      rw [serveAll_concat, own_append]
      by_cases hother : other = id
      · subst hother
        simp only [own_self, Function.update_self, ← h.replies]
        exact replyList_execute hstage h.store h.logging
      · simp only [own_other (Ne.symm hother), List.append_nil, Function.update_of_ne hother,
          h.replies]
  · have hexecutes : (system.connections id).executes .append = none := rfl
    rw [hexecutes, Option.map_none, Option.toList_none, List.append_nil]
    refine h.quiet rfl (appendCommand_isSome _ _ _) rfl ?_
    simp only [Connection.replyList, hstage]
  · have hexecutes : (system.connections id).executes .reply = none := rfl
    rw [hexecutes, Option.map_none, Option.toList_none, List.append_nil]
    refine h.quiet rfl rfl rfl ?_
    simp only [Connection.replyList, hstage]

theorem Explains.run {start : ServerState} {requests : Id → List Request}
    {history : List (Id × Request)} {schedule : List (Id × Action)} {system final : System Id}
    (h : Explains start requests history system) (hrun : system.run schedule = some final) :
    Explains start requests (history ++ System.history schedule system) final := by
  induction schedule generalizing system history with
  | nil =>
    cases hrun
    rwa [System.history, List.append_nil]
  | cons event schedule ih =>
    obtain ⟨id, action⟩ := event
    rw [System.run] at hrun
    obtain ⟨next, hstep, hrest⟩ := Option.bind_eq_some_iff.mp hrun
    have hfinal := ih (h.step hstep) hrest
    rw [System.history, hstep, ← List.append_assoc]
    exact hfinal

theorem explains_fresh (server : ServerState) (requests : Id → List Request) :
    Explains server requests [] (System.fresh server requests) :=
  ⟨rfl, rfl, fun _ => rfl, fun _ => rfl⟩

theorem Connection.replies_beginning (logging : Option Bytes) (connection : Connection) :
    connection.replies <+: connection.replyList logging := by
  unfold replyList
  split
  · exact List.prefix_rfl
  · exact List.prefix_append _ _
  · exact List.prefix_append _ _

theorem Connection.length_replyList (logging : Option Bytes) (connection : Connection) :
    (connection.replyList logging).length =
      connection.replies.length + if connection.stage = .reading then 0 else 1 := by
  unfold replyList
  split
  · rename_i hstage
    rw [if_pos hstage, Nat.add_zero]
  · rename_i hstage
    have hbusy : connection.stage ≠ .reading := by simp [hstage]
    rw [if_neg hbusy, List.length_append, List.length_singleton]
  · rename_i hstage
    have hbusy : connection.stage ≠ .reading := by simp [hstage]
    rw [if_neg hbusy, List.length_append, List.length_singleton]

theorem length_own_serveAll (id : Id) (history : List (Id × Request)) (state : ServerState) :
    (own id (serveAll history state).1).length = (own id history).length := by
  induction history generalizing state with
  | nil => rfl
  | cons entry history ih =>
    obtain ⟨other, request⟩ := entry
    have hrest := ih (handleRequest request state).2
    by_cases hother : other = id
    · simp only [serveAll, own, List.filter_cons, hother, decide_true, if_true, List.map_cons,
        List.length_cons] at hrest ⊢
      rw [hrest]
    · simp only [serveAll, own, List.filter_cons, hother, decide_false, Bool.false_eq_true,
        if_false] at hrest ⊢
      exact hrest

/-- A client has as many requests in the history as replies, with the one on its way. -/
theorem Explains.length_own {start : ServerState} {requests : Id → List Request}
    {history : List (Id × Request)} {system : System Id}
    (h : Explains start requests history system) (id : Id) :
    (own id history).length = (system.connections id).replies.length +
      if (system.connections id).stage = .reading then 0 else 1 := by
  rw [← length_own_serveAll id history start, ← h.replies id]
  exact Connection.length_replyList _ _

/-- The requests of a history are those that the clients have sent. -/
theorem Explains.sent {start : ServerState} {requests : Id → List Request}
    {history : List (Id × Request)} {system : System Id}
    (h : Explains start requests history system) {other : Id} {request : Request}
    (hmem : (other, request) ∈ history) : request ∈ requests other := by
  rw [← h.order other]
  exact List.mem_append_left _ (mem_own hmem)

/-- **The history of a run** explains the system that it leads to. -/
theorem explains_run {server : ServerState} {requests : Id → List Request}
    {schedule : List (Id × Action)} {system : System Id}
    (h : (System.fresh server requests).run schedule = some system) :
    Explains server requests (System.history schedule (System.fresh server requests)) system := by
  have hrun := (explains_fresh server requests).run h
  rwa [List.nil_append] at hrun

end

end AerugoCache.Concurrent
