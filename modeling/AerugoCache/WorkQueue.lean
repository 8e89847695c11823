import AerugoCache.Linearizable
import AerugoCache.ListDeque
import AerugoCache.VisibleStore

/-!
# A list as a queue between clients

Clients that push to a list and clients that pop from it share its values out among them:
however their requests interleave, every value that was put in is in one reply to a pop, or
still in the list, or was lost with a pop that could not be logged.
-/

namespace AerugoCache.Concurrent

open AerugoCache.ByteText AerugoCache.KeyedMap AerugoCache.Protocol AerugoCache.Storage
  AerugoCache.Commands AerugoCache.Persistence AerugoCache.Server AerugoCache.Deque

/-! ### Requests with their replies -/

/-- The operation of a request on the list under `k`. -/
def queueOp (k : String) (request : Request) : Option (Op Bytes) :=
  match Command.fromFrame request.frame with
  | .ok command => command.dequeOp k
  | .error _ => none

/-- The request does not set the key, delete it or give it a deadline. -/
def SparesKey (k : String) (request : Request) : Prop :=
  ∀ command, Command.fromFrame request.frame = .ok command → command.Spares k

/-- The reply to a write for which there is no memory. -/
def isRefusal : Frame → Bool
  | .error text => text = CommandError.outOfMemory.display
  | _ => false

/-- The values that a request puts in the list, by its reply.  A push that could not be
    logged has put in its values. -/
def valuesPut (k : String) (exchange : Request × Frame) : List Bytes :=
  match queueOp k exchange.1 with
  | some op => if isRefusal exchange.2 then [] else op.given
  | none => []

/-- The value that a client gets from the list. -/
def valueGot (k : String) (exchange : Request × Frame) : Option Bytes :=
  match queueOp k exchange.1, exchange.2 with
  | some (.pop _), .bulk value => some value
  | _, _ => none

/-- A pop that is answered with an error. -/
def popFailed (k : String) (exchange : Request × Frame) : Bool :=
  match queueOp k exchange.1, exchange.2 with
  | some (.pop _), .error _ => true
  | _, _ => false

/-! ### One request -/

/-- What a request makes of the list, by its reply. -/
inductive ListStep (k : String) (exchange : Request × Frame) (list : List Bytes) :
    List Bytes → Prop where
  | idle (hput : valuesPut k exchange = []) (hgot : valueGot k exchange = none) :
      ListStep k exchange list list
  | done {op : Op Bytes} (hop : queueOp k exchange.1 = some op)
      (hput : valuesPut k exchange = op.given) (hgot : valueGot k exchange = op.taken list) :
      ListStep k exchange list (op.after list)
  | unlogged {op : Op Bytes} (hop : queueOp k exchange.1 = some op)
      (hput : valuesPut k exchange = op.given) (hgot : valueGot k exchange = none)
      (hfailed : op.taken list ≠ none → popFailed k exchange = true) :
      ListStep k exchange list (op.after list)

theorem isRefusal_dequeReply (op : Op Bytes) (list : List Bytes) :
    isRefusal (dequeReply op list) = false := by
  cases op with
  | push place values => rfl
  | pop place =>
    unfold dequeReply
    cases (Op.pop place).taken list with
    | none => rfl
    | some value => rfl

theorem valueGot_dequeReply {k : String} {request : Request} {op : Op Bytes}
    (hop : queueOp k request = some op) (list : List Bytes) :
    valueGot k (request, dequeReply op list) = op.taken list := by
  unfold valueGot
  rw [hop]
  cases op with
  | push place values => rfl
  | pop place =>
    simp only [dequeReply]
    cases (Op.pop place).taken list with
    | none => rfl
    | some value => rfl

/-- An operation that is carried out but cannot be logged is answered with an error. -/
theorem listStep_unlogged {k : String} {request : Request} {op : Op Bytes}
    (hop : queueOp k request = some op) (list : List Bytes) :
    ListStep k (request, PERSIST_FAILURE) list (op.after list) := by
  have hrefusal : isRefusal PERSIST_FAILURE = false := by decide
  refine .unlogged hop ?_ ?_ ?_
  · simp only [valuesPut, hop, hrefusal, Bool.false_eq_true, if_false]
  · unfold valueGot
    rw [hop]
    cases op <;> rfl
  · intro htaken
    unfold popFailed
    rw [hop]
    cases op with
    | push place values => exact absurd rfl htaken
    | pop place => rfl

theorem listStep_idle {k : String} {request : Request} (hop : queueOp k request = none)
    (reply : Frame) (list : List Bytes) : ListStep k (request, reply) list list := by
  apply ListStep.idle
  · rw [valuesPut, hop]
  · rw [valueGot, hop]

theorem listStep_refused {k : String} {request : Request} {place : End} {values : List Bytes}
    (hop : queueOp k request = some (.push place values)) (list : List Bytes) :
    ListStep k (request, Command.errorFrame .outOfMemory) list list := by
  have hrefusal : isRefusal (Command.errorFrame .outOfMemory) = true := by decide
  apply ListStep.idle
  · simp only [valuesPut, hop, hrefusal, if_true]
  · rw [valueGot, hop]

theorem listStep_answered {k : String} {request : Request} {op : Op Bytes}
    (hop : queueOp k request = some op) (list : List Bytes) :
    ListStep k (request, dequeReply op list) list (op.after list) := by
  apply ListStep.done hop
  · simp only [valuesPut, hop, isRefusal_dequeReply, Bool.false_eq_true, if_false]
  · exact valueGot_dequeReply hop list

theorem handleRequest_listStep {k : String} {state : ServerState} {list : List Bytes}
    (hkeeps : state.store.KeepsKeys) (h : HoldsList (state.store.entries.lookup k) list)
    {request : Request} (hspares : SparesKey k request) :
    ∃ next, ListStep k (request, (handleRequest request state).1) list next ∧
      HoldsList ((handleRequest request state).2.store.entries.lookup k) next := by
  rw [handleRequest_eq, handleFrame]
  cases hcommand : Command.fromFrame request.frame with
  | error error =>
    have hqueue : queueOp k request = none := by rw [queueOp, hcommand]
    exact ⟨list, listStep_idle hqueue _ list, h⟩
  | ok command =>
    have hqueue : queueOp k request = command.dequeOp k := by rw [queueOp, hcommand]
    cases hop : command.dequeOp k with
    | none =>
      rw [hop] at hqueue
      have hheld := execute_holdsList hkeeps h (hspares command hcommand) hop request.env
      simp only
      generalize command.execute request.env state.store = outcome at hheld ⊢
      rcases outcome with ⟨error | response, store⟩
      · exact ⟨list, listStep_idle hqueue _ list, hheld⟩
      · exact ⟨list, listStep_idle hqueue _ list, hheld⟩
    | some op =>
      rw [hop] at hqueue
      have hanswered := execute_answered hkeeps h hop request.env
      simp only
      generalize command.execute request.env state.store = outcome at hanswered ⊢
      obtain ⟨result, store⟩ := outcome
      rcases hanswered with ⟨rfl, hheld⟩ | ⟨rfl, ⟨place, values, rfl⟩, hheld⟩
      · refine ⟨op.after list, ?_, hheld⟩
        simp only
        split
        · exact listStep_answered hqueue list
        · exact listStep_unlogged hqueue list
      · exact ⟨list, listStep_refused hqueue list, hheld⟩

/-- `LRANGE` shows the list. -/
theorem wholeList_of_holdsList {store : MemoryStore} {k : String} {list : List Bytes}
    (h : HoldsList (store.entries.lookup k) list) (env : Env) :
    wholeList env store k = .ok (.array (list.map Frame.bulk)) := by
  rw [wholeList_eq, h.visible_eq]
  rcases h with hcell | ⟨hcell, hnil⟩
  · rw [hcell]
  · rw [hcell, hnil]
    rfl

/-! ### A history -/

section

variable {Id : Type}

/-- The requests of a history handled one after another, each with its client and its
    reply. -/
def exchangeAll : List (Id × Request) → ServerState → List (Id × Request × Frame)
  | [], _ => []
  | (id, request) :: history, state =>
      let (response, state) := handleRequest request state
      (id, request, response) :: exchangeAll history state

/-- The operations of a history on the list, from `list` on, with what the replies tell of
    them. -/
structure Ledger (k : String) (exchanges : List (Request × Frame)) (ops : List (Op Bytes))
    (list : List Bytes) : Prop where
  put : exchanges.flatMap (valuesPut k) = pushed ops
  got : (exchanges.filterMap (valueGot k)).Sublist (popped ops list)
  failed : (popped ops list).length ≤
    (exchanges.filterMap (valueGot k)).length + exchanges.countP (popFailed k)
  ops : ∀ op ∈ ops, ∃ exchange ∈ exchanges, queueOp k exchange.1 = some op

theorem filterMap_cons_toList {α β : Type} (f : α → Option β) (a : α) (entries : List α) :
    (a :: entries).filterMap f = (f a).toList ++ entries.filterMap f := by
  rw [List.filterMap_cons]
  cases f a <;> rfl

section

variable {k : String} {exchange : Request × Frame} {exchanges : List (Request × Frame)}
  {list : List Bytes} {ops : List (Op Bytes)}

/-- A request that leaves the list is not in the account. -/
theorem Ledger.idle (h : Ledger k exchanges ops list) (hput : valuesPut k exchange = [])
    (hgot : valueGot k exchange = none) : Ledger k (exchange :: exchanges) ops list := by
  constructor
  · rw [List.flatMap_cons, hput, List.nil_append, h.put]
  · rw [List.filterMap_cons_none hgot]
    exact h.got
  · have hcount : exchanges.countP (popFailed k) ≤ (exchange :: exchanges).countP (popFailed k) :=
      (List.sublist_cons_self exchange exchanges).countP_le
    have hfailed := h.failed
    rw [List.filterMap_cons_none hgot]
    omega
  · intro op hop
    obtain ⟨other, hother, hqueue⟩ := h.ops op hop
    exact ⟨other, List.mem_cons_of_mem _ hother, hqueue⟩

/-- A request that is carried out is, whether its reply shows the value it took out or it is
    a pop that failed. -/
theorem Ledger.carriedOut {op : Op Bytes} (h : Ledger k exchanges ops (op.after list))
    (hop : queueOp k exchange.1 = some op) (hput : valuesPut k exchange = op.given)
    (hgot : valueGot k exchange = op.taken list ∨
      valueGot k exchange = none ∧ (op.taken list ≠ none → popFailed k exchange = true)) :
    Ledger k (exchange :: exchanges) (op :: ops) list := by
  constructor
  · rw [List.flatMap_cons, hput, h.put, pushed_cons]
  · rw [filterMap_cons_toList, popped_cons]
    rcases hgot with hgot | ⟨hgot, -⟩
    · rw [hgot]
      exact (List.Sublist.refl _).append h.got
    · rw [hgot]
      exact (List.nil_sublist _).append h.got
  · have hfailed := h.failed
    rw [filterMap_cons_toList, popped_cons, List.length_append, List.length_append,
      List.countP_cons]
    rcases hgot with hgot | ⟨hgot, hpop⟩
    · rw [hgot]
      omega
    · rw [hgot]
      cases htaken : op.taken list with
      | none =>
        rw [Option.toList_none, List.length_nil]
        omega
      | some value =>
        rw [if_pos (hpop (by simp [htaken])), Option.toList_some, List.length_singleton]
        omega
  · intro other hother
    rcases List.mem_cons.mp hother with rfl | hrest
    · exact ⟨exchange, List.mem_cons_self, hop⟩
    · obtain ⟨later, hlater, hqueue⟩ := h.ops other hrest
      exact ⟨later, List.mem_cons_of_mem _ hlater, hqueue⟩

theorem Ledger.cons {next : List Bytes} (hstep : ListStep k exchange list next)
    (h : Ledger k exchanges ops next) :
    ∃ ops', Ledger k (exchange :: exchanges) ops' list ∧
      contents ops' list = contents ops next := by
  cases hstep with
  | idle hput hgot => exact ⟨ops, h.idle hput hgot, rfl⟩
  | done hop hput hgot => exact ⟨_, h.carriedOut hop hput (Or.inl hgot), rfl⟩
  | unlogged hop hput hgot hfailed =>
    exact ⟨_, h.carriedOut hop hput (Or.inr ⟨hgot, hfailed⟩), rfl⟩

end

/-- The account of a history, and what is in the list after it. -/
theorem exchangeAll_ledger {k : String} {history : List (Id × Request)} {state : ServerState}
    {list : List Bytes} (hkeeps : state.store.KeepsKeys)
    (h : HoldsList (state.store.entries.lookup k) list)
    (hspares : ∀ entry ∈ history, SparesKey k entry.2) :
    ∃ ops, Ledger k ((exchangeAll history state).map Prod.snd) ops list ∧
      HoldsList ((serveAll history state).2.store.entries.lookup k) (contents ops list) := by
  induction history generalizing state list with
  | nil => exact ⟨[], ⟨rfl, .slnil, Nat.le_refl _, fun op hop => absurd hop List.not_mem_nil⟩, h⟩
  | cons entry history ih =>
    obtain ⟨id, request⟩ := entry
    obtain ⟨next, hstep, hheld⟩ := handleRequest_listStep hkeeps h
      (hspares (id, request) List.mem_cons_self)
    have hkept : (handleRequest request state).2.store.KeepsKeys := by
      rw [MemoryStore.KeepsKeys, handleRequest_store, executeRequest_config]
      exact hkeeps
    obtain ⟨ops, hledger, hfinal⟩ := ih hkept hheld
      fun entry hentry => hspares entry (List.mem_cons_of_mem _ hentry)
    obtain ⟨ops', hledger', hcontents⟩ := hledger.cons hstep
    refine ⟨ops', hledger', ?_⟩
    rw [hcontents]
    exact hfinal

/-! ### The clients -/

theorem exchangeAll_requests (history : List (Id × Request)) (state : ServerState) :
    (exchangeAll history state).map (fun exchange => (exchange.1, exchange.2.1)) = history := by
  induction history generalizing state with
  | nil => rfl
  | cons entry history ih =>
    obtain ⟨id, request⟩ := entry
    simp only [exchangeAll, List.map_cons, ih]

theorem exchangeAll_replies (history : List (Id × Request)) (state : ServerState) :
    (exchangeAll history state).map (fun exchange => (exchange.1, exchange.2.2)) =
      (serveAll history state).1 := by
  induction history generalizing state with
  | nil => rfl
  | cons entry history ih =>
    obtain ⟨id, request⟩ := entry
    simp only [exchangeAll, serveAll, List.map_cons, ih]

variable [DecidableEq Id]

theorem own_map {α β : Type} (f : α → β) (id : Id) (entries : List (Id × α)) :
    own id (entries.map fun entry => (entry.1, f entry.2)) = (own id entries).map f := by
  rw [own, own, List.filter_map, List.map_map, List.map_map]
  rfl

theorem mem_of_own {α : Type} {id : Id} {entries : List (Id × α)} {value : α}
    (h : value ∈ own id entries) : (id, value) ∈ entries := by
  obtain ⟨entry, hentry, rfl⟩ := List.mem_map.mp h
  obtain ⟨hmem, hid⟩ := List.mem_filter.mp hentry
  rwa [← of_decide_eq_true hid]

/-- What different clients take from entries without a double is different. -/
theorem own_disjoint {α β : Type} {f : α → Option β} {entries : List (Id × α)}
    (h : (entries.filterMap fun entry => f entry.2).Nodup) {id other : Id} (hne : id ≠ other) :
    ((own id entries).filterMap f).Disjoint ((own other entries).filterMap f) := by
  let apart := fun entry entry' : Id × α =>
    ∀ value, f entry.2 = some value → ∀ value', f entry'.2 = some value' → value ≠ value'
  have hsymm : Std.Symm apart :=
    ⟨fun _ _ hapart value hvalue value' hvalue' => (hapart value' hvalue' value hvalue).symm⟩
  have hpairs : entries.Pairwise apart := List.pairwise_filterMap.mp h
  intro value hfirst hsecond
  obtain ⟨first, hfirst, hvalue⟩ := List.mem_filterMap.mp hfirst
  obtain ⟨second, hsecond, hvalue'⟩ := List.mem_filterMap.mp hsecond
  have hentries : (id, first) ≠ (other, second) := fun heq => hne (congrArg Prod.fst heq)
  exact hpairs.forall (mem_of_own hfirst) (mem_of_own hsecond) hentries value hvalue value hvalue'
    rfl

/-- **A list is a queue between its clients.**  Where nothing is evicted, and no client sets
    a key that was absent, deletes it or gives it a deadline, in any interleaving: the values
    that were put in are those that the clients got, those that are in the list, and at most
    one for every pop that failed.  So no two clients get the same value.  If the clients
    push at the back and pop at the front, the values come out in the order in which they
    went in, and are all got if no pop failed. -/
theorem queue_between_clients {server : ServerState} {requests : Id → List Request}
    {schedule : List (Id × Action)} {system : System Id} {k : String}
    (hkeeps : server.store.KeepsKeys) (habsent : k ∉ server.store.entries)
    (hspares : ∀ id, ∀ request ∈ requests id, SparesKey k request)
    (hrun : (System.fresh server requests).run schedule = some system) :
    let exchanges := exchangeAll (System.history schedule (.fresh server requests)) server
    let put := exchanges.flatMap fun exchange => valuesPut k exchange.2
    let got := exchanges.filterMap fun exchange => valueGot k exchange.2
    let failed := exchanges.countP fun exchange => popFailed k exchange.2
    (∀ id, (own id exchanges).map Prod.snd =
      (system.connections id).replyList system.server.aof) ∧
    ∃ lost list, (∀ env, wholeList env system.server.store k = .ok (.array (list.map .bulk))) ∧
      put.Perm (got ++ (lost ++ list)) ∧ lost.length ≤ failed ∧
      (put.Nodup → ∀ id other, id ≠ other →
        ((own id exchanges).filterMap (valueGot k)).Disjoint
          ((own other exchanges).filterMap (valueGot k))) ∧
      ((∀ id, ∀ request ∈ requests id, ∀ op, queueOp k request = some op → op.IsQueue) →
        ∃ out, put = out ++ list ∧ got.Sublist out ∧ (failed = 0 → got = out)) := by
  intro exchanges put got failed
  have hexplains := explains_run hrun
  have hown : ∀ id, (own id exchanges).map Prod.snd =
      (system.connections id).replyList system.server.aof := by
    intro id
    rw [hexplains.replies id, ← exchangeAll_replies]
    exact (own_map Prod.snd id exchanges).symm
  have hempty : HoldsList (server.store.entries.lookup k) [] :=
    Or.inr ⟨Finmap.lookup_eq_none.mpr habsent, rfl⟩
  have hhistory : ∀ entry ∈ System.history schedule (.fresh server requests),
      SparesKey k entry.2 :=
    fun entry hentry => hspares entry.1 entry.2 (hexplains.sent hentry)
  obtain ⟨ops, hledger, hheld⟩ := exchangeAll_ledger hkeeps hempty hhistory
  rw [← hexplains.store] at hheld
  have hput : put = pushed ops := by
    rw [← hledger.put, List.flatMap_map]
  have hgot : got.Sublist (popped ops []) := by
    have hsub := hledger.got
    rwa [List.filterMap_map] at hsub
  have hfailed : (popped ops []).length ≤ got.length + failed := by
    have hle := hledger.failed
    rwa [List.filterMap_map, List.countP_map] at hle
  obtain ⟨lost, hlost⟩ := hgot.exists_perm_append
  have hlength := hlost.length_eq
  rw [List.length_append] at hlength
  have hconserves := conserves_run ops []
  rw [List.append_nil, ← hput] at hconserves
  have hall : put.Perm (got ++ (lost ++ contents ops [])) := by
    rw [← List.append_assoc]
    exact hconserves.trans (hlost.append_right _)
  refine ⟨hown, lost, contents ops [], wholeList_of_holdsList hheld, hall, by omega, ?_, ?_⟩
  · intro hnodup id other hne
    apply own_disjoint _ hne
    exact (List.nodup_append.mp (hall.nodup_iff.mp hnodup)).1
  · intro hqueue
    have hops : ∀ op ∈ ops, op.IsQueue := by
      intro op hop
      obtain ⟨exchange, hexchange, hqueueOp⟩ := hledger.ops op hop
      obtain ⟨entry, hentry, rfl⟩ := List.mem_map.mp hexchange
      have hsent : (entry.1, entry.2.1) ∈ System.history schedule (.fresh server requests) := by
        rw [← exchangeAll_requests (System.history schedule (.fresh server requests)) server]
        exact List.mem_map_of_mem hentry
      exact hqueue entry.1 entry.2.1 (hexplains.sent hsent) op hqueueOp
    have horder := queue_in_order hops []
    rw [List.nil_append, ← hput] at horder
    refine ⟨popped ops [], horder, hgot, fun hnone => ?_⟩
    exact hgot.eq_of_length_le (by omega)

end

/-- A client that puts in three values, and one that takes them out, one of its pops failing
    after the value is gone. -/
def workers : Bool → List Request
  | false => [clientRequest "RPUSH" [utf8 "jobs", [1], [2], [3]] (.at 0 0)]
  | true => [clientRequest "LPOP" [utf8 "jobs"] (.at 1 0),
      { clientRequest "LPOP" [utf8 "jobs"] (.at 2 0) with outcome := .failed 0 },
      clientRequest "LPOP" [utf8 "jobs"] (.at 3 0)]

def workerSteps : List (Bool × Action) := [
  (false, .execute), (true, .execute), (true, .append), (false, .append), (true, .reply),
  (true, .execute), (false, .reply), (true, .append), (true, .reply), (true, .execute),
  (true, .append), (true, .reply)]

theorem queue_between_clients_workers :
    ∃ system, (System.fresh (.initial .default) workers).run workerSteps = some system ∧
      ∃ out list, [[1], [2], [3]] = out ++ list ∧ [[1], [3]].Sublist out ∧
        ∀ env, wholeList env system.server.store "jobs" = .ok (.array (list.map .bulk)) := by
  have hfinished :
      ((System.fresh (.initial .default) workers).run workerSteps).isSome = true := by
    decide +kernel
  obtain ⟨system, hrun⟩ := Option.isSome_iff_exists.mp hfinished
  have hpush : Command.fromFrame (commandFrame "RPUSH" [utf8 "jobs", [1], [2], [3]]) =
      .ok (.rpush "jobs" [[1], [2], [3]]) := by
    decide +kernel
  have hpop : Command.fromFrame (commandFrame "LPOP" [utf8 "jobs"]) = .ok (.lpop "jobs") := by
    decide +kernel
  have hcommands : ∀ id, ∀ request ∈ workers id, ∃ command op,
      Command.fromFrame request.frame = .ok command ∧ command.Spares "jobs" ∧
        command.dequeOp "jobs" = some op ∧ op.IsQueue := by
    intro id request hrequest
    cases id with
    | false =>
      obtain rfl := List.mem_singleton.mp hrequest
      exact ⟨_, _, hpush, trivial, rfl, rfl⟩
    | true =>
      simp only [workers, List.mem_cons, List.not_mem_nil, or_false] at hrequest
      rcases hrequest with rfl | rfl | rfl
      all_goals exact ⟨_, _, hpop, trivial, rfl, rfl⟩
  obtain ⟨-, lost, list, hwhole, -, -, -, hqueue⟩ :=
    queue_between_clients (k := "jobs") (Or.inl rfl) Finmap.notMem_empty
      (by
        intro id request hrequest command hcommand
        obtain ⟨other, op, hother, hspares, -⟩ := hcommands id request hrequest
        cases hother.symm.trans hcommand
        exact hspares)
      hrun
  obtain ⟨out, hput, hgot, -⟩ := hqueue (by
    intro id request hrequest op hop
    obtain ⟨command, op', hcommand, -, hop', hisQueue⟩ := hcommands id request hrequest
    rw [queueOp, hcommand] at hop
    cases hop'.symm.trans hop
    exact hisQueue)
  refine ⟨system, hrun, out, list, ?_, ?_, hwhole⟩
  · rw [← hput]
    decide +kernel
  · have hvalues : (exchangeAll (System.history workerSteps (.fresh (.initial .default) workers))
        (.initial .default)).filterMap (fun exchange => valueGot "jobs" exchange.2) =
          [[1], [3]] := by
      decide +kernel
    rwa [hvalues] at hgot

end AerugoCache.Concurrent
