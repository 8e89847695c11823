import Mathlib.Tactic.Abel
import AerugoCache.CleanupTask
import AerugoCache.ServerTurns

/-!
# One order for all tasks

The requests of all connections and the sweeps of the cleaning task, in the order in which
they took the lock of the entries, are a history that one client could have sent alone, with
the sweeps in between.  It leaves the entries, and every client gets the replies that its
own requests have in it.  Only the counters lag: the reports of `INFO` and `AERUGO.STATS`
may show less than has been counted, and the store lacks what its tasks have yet to add.
-/

namespace AerugoCache.Concurrent

open AerugoCache.ByteText AerugoCache.Protocol AerugoCache.Storage AerugoCache.Commands
  AerugoCache.Persistence AerugoCache.Server AerugoCache.StepSystem

/-! ### One deed after another -/

section

variable {Id : Type}

def Deed.perform (deed : Deed Id) (state : ServerState) : ServerState :=
  match deed with
  | .request _ asked => (handleRequest asked state).2
  | .cleanup now => cleanupTick now state

/-- The deeds of a history, one after another. -/
def performAll (history : List (Deed Id)) (state : ServerState) : ServerState :=
  history.foldl (fun state deed => deed.perform state) state

/-- The requests of a history, each with its client and with the server that it meets. -/
def met : List (Deed Id) → ServerState → List (Id × Request × ServerState)
  | [], _ => []
  | .request id request :: history, state =>
      (id, request, state) :: met history (handleRequest request state).2
  | .cleanup now :: history, state => met history (cleanupTick now state)

theorem performAll_concat (history : List (Deed Id)) (deed : Deed Id) (state : ServerState) :
    performAll (history ++ [deed]) state = deed.perform (performAll history state) := by
  rw [performAll, List.foldl_append]
  rfl

theorem met_append (before after : List (Deed Id)) (state : ServerState) :
    met (before ++ after) state = met before state ++ met after (performAll before state) := by
  induction before generalizing state with
  | nil => rfl
  | cons deed before ih =>
    cases deed with
    | request id asked => exact congrArg _ (ih _)
    | cleanup now => exact ih _

theorem met_request (history : List (Deed Id)) (id : Id) (request : Request)
    (state : ServerState) :
    met (history ++ [.request id request]) state =
      met history state ++ [(id, request, performAll history state)] :=
  met_append history _ state

theorem met_cleanup (history : List (Deed Id)) (now : SystemTime) (state : ServerState) :
    met (history ++ [.cleanup now]) state = met history state :=
  (met_append history _ state).trans (List.append_nil _)

/-- The server with other counters. -/
def withCounters (state : ServerState) (counters : StoreCounters) : ServerState :=
  { state with store := state.store.withCounters counters }

/-- The reply is the one that the server gives to the request, but that a report may show
    other counters, none of them ahead of `total`. -/
structure Answers (total : StoreCounters) (request : Request) (state : ServerState)
    (reply : Frame) : Prop where
  plain : Request.Plain request → reply = (handleRequest request state).1
  report : ∃ counters,
    (handleRequest request (withCounters state counters)).2.store.counters.Le total ∧
      reply = (handleRequest request (withCounters state counters)).1

theorem Answers.later {total total' : StoreCounters} {request : Request} {state : ServerState}
    {reply : Frame} (h : Answers total request state reply) (hlater : total.Le total') :
    Answers total' request state reply := by
  obtain ⟨hplain, counters, hle, hreply⟩ := h
  exact ⟨hplain, counters, hle.trans hlater, hreply⟩

end

/-- Without reports the replies are those of the server. -/
theorem answers_plain {total : StoreCounters} {entries : List (Request × ServerState)}
    {replies : List Frame}
    (h : List.Forall₂ (fun entry => Answers total entry.1 entry.2) entries replies)
    (hplain : ∀ entry ∈ entries, Request.Plain entry.1) :
    replies = entries.map fun entry => (handleRequest entry.1 entry.2).1 := by
  induction h with
  | nil => rfl
  | cons hfirst hrest ih =>
    rw [List.map_cons, hfirst.plain (hplain _ List.mem_cons_self),
      ih fun entry hmem => hplain entry (List.mem_cons_of_mem _ hmem)]

/-! ### The reply that a phase leads to -/

/-- The reply that a connection has ready. -/
def Phase.reply (logging : Option Bytes) : Phase → Option Frame
  | .executed response aofFrame outcome =>
      some (if (appendCommand logging aofFrame outcome).1 then response else PERSIST_FAILURE)
  | .replying response => some response
  | .reading | .recording _ _ | .reporting _ => none

theorem Phase.reply_congr {logging logging' : Option Bytes} (h : logging.isSome = logging'.isSome)
    (phase : Phase) : phase.reply logging = phase.reply logging' := by
  cases phase with
  | executed response aofFrame outcome => simp only [reply, appendCommand_fst h]
  | reading | recording | reporting | replying => rfl

/-- What `execute` returns leads to the reply of the server. -/
theorem reply_after {request : Request} {command : Command}
    (h : Command.fromFrame request.frame = .ok command) {state : ServerState}
    {logging : Option Bytes} (hlogging : logging.isSome = state.aof.isSome) :
    (Phase.after (command.toAofFrame request.env.clock) request.outcome
        (command.execute request.env state.store).1).reply logging =
      some (handleRequest request state).1 := by
  rw [handleRequest, executeRequest, h]
  simp only
  rcases command.execute request.env state.store with ⟨error | response, store⟩
  · rfl
  · simp only [Phase.after, Phase.reply, Except.map, appendCommand_fst hlogging]

theorem handleRequest_execute {request : Request} {command : Command}
    (h : Command.fromFrame request.frame = .ok command) (state : ServerState) :
    (handleRequest request state).2.store = (command.execute request.env state.store).2 := by
  rw [handleRequest_store, executeRequest, h]

/-- The command has released the entries that the request met, and has so much to count. -/
structure Pending.IsFor (pending : Pending) (request : Request) (state : ServerState)
    (op : StoreOp) (counts : StoreCounters) : Prop where
  command : Command.fromFrame request.frame = .ok pending.command
  storeOp : pending.command.storeOp = some op
  aofFrame : pending.aofFrame = pending.command.toAofFrame request.env.clock
  outcome : pending.outcome = request.outcome
  result : pending.result =
    (op.locked request.env.opEnv state.store.config state.store.entries).1
  counts : counts = (op.locked request.env.opEnv state.store.config state.store.entries).2.2

section

variable {pending : Pending} {request : Request} {state : ServerState} {op : StoreOp}
  {counts : StoreCounters}

/-- A server with other counters counts on from these, and shows them. -/
theorem Pending.IsFor.run (h : pending.IsFor request state op counts) (others : StoreCounters) :
    op.run request.env.opEnv (withCounters state others).store =
      (pending.result.withCounters (others + counts),
        { entries := (op.locked request.env.opEnv state.store.config state.store.entries).2.1
          config := state.store.config
          counters := others + counts }) := by
  have hsplits := op.splits request.env.opEnv (withCounters state others).store
  rw [StoreOp.Splits] at hsplits
  rw [hsplits, h.result, h.counts]
  rfl

theorem Pending.IsFor.counters (h : pending.IsFor request state op counts)
    (others : StoreCounters) :
    (handleRequest request (withCounters state others)).2.store.counters = others + counts := by
  rw [handleRequest_execute h.command, execute_respond h.storeOp, h.run]

theorem Pending.IsFor.reply (h : pending.IsFor request state op counts) {logging : Option Bytes}
    (hlogging : logging.isSome = state.aof.isSome) (others : StoreCounters) :
    (pending.finish (others + counts)).reply logging =
      some (handleRequest request (withCounters state others)).1 := by
  have hreply := @reply_after _ _ h.command (withCounters state others) _ hlogging
  rw [execute_respond h.storeOp, h.run] at hreply
  rwa [Pending.finish, h.aofFrame, h.outcome]

/-- Only a report depends on the counters. -/
theorem respond_plain {command : Command} (hop : command.storeOp = some op)
    (hplain : Command.reportsCounters command = false) (env : OpEnv) (config : StoreConfig)
    (entries : Entries) (counters : StoreCounters) :
    command.respond ((op.locked env config entries).1.withCounters counters) =
      command.respond (op.locked env config entries).1 := by
  cases command with
  | ping value => cases hop
  | echo value => cases hop
  | info => cases hplain
  | aerugoStats => cases hplain
  | _ =>
    cases hop
    rfl

theorem Pending.IsFor.finish_plain (h : pending.IsFor request state op counts)
    (hplain : Request.Plain request) (counters counters' : StoreCounters) :
    pending.finish counters = pending.finish counters' := by
  have hrespond := respond_plain h.storeOp (hplain _ h.command) request.env.opEnv
    state.store.config state.store.entries
  rw [Pending.finish, Pending.finish, h.result, hrespond, hrespond]

theorem withCounters_self (state : ServerState) :
    withCounters state state.store.counters = state := rfl

/-- Whatever counters it shows, the reply is one of the server. -/
theorem Pending.IsFor.answers (h : pending.IsFor request state op counts)
    {logging : Option Bytes} (hlogging : logging.isSome = state.aof.isSome)
    {others total : StoreCounters} (htotal : (others + counts).Le total) :
    ∃ reply, (pending.finish (others + counts)).reply logging = some reply ∧
      Answers total request state reply := by
  refine ⟨_, h.reply hlogging others, fun hplain => ?_, others, ?_, rfl⟩
  · have hown := h.reply hlogging state.store.counters
    rw [h.finish_plain hplain _ (others + counts), h.reply hlogging others,
      withCounters_self] at hown
    exact Option.some.inj hown
  · rwa [h.counters]

end

/-- What a connection is busy with: the request that met a server, of whose counts the
    counters hold those that were added. -/
def Phase.Owes (logging : Option Bytes) (counters total : StoreCounters) (request : Request)
    (state : ServerState) : Phase → Prop
  | .reading => False
  | .recording counts pending =>
      ∃ op, pending.IsFor request state op counts ∧ counts.Le total
  | .reporting pending => ∃ op counts, pending.IsFor request state op counts ∧ counts.Le counters
  | .executed response aofFrame outcome =>
      ∃ reply, (Phase.executed response aofFrame outcome).reply logging = some reply ∧
        Answers total request state reply
  | .replying response => Answers total request state response

theorem Phase.owes_of_reply {logging : Option Bytes} {counters total : StoreCounters}
    {request : Request} {state : ServerState} {phase : Phase}
    (h : ∃ reply, phase.reply logging = some reply ∧ Answers total request state reply) :
    phase.Owes logging counters total request state := by
  cases phase with
  | executed response aofFrame outcome => exact h
  | replying response =>
    obtain ⟨reply, hreply, hanswers⟩ := h
    cases hreply
    exact hanswers
  | reading | recording | reporting =>
    obtain ⟨reply, hreply, -⟩ := h
    cases hreply

theorem Phase.Owes.later {logging logging' : Option Bytes}
    {counters counters' total total' : StoreCounters} {request : Request} {state : ServerState}
    {phase : Phase} (h : phase.Owes logging counters total request state)
    (hlogging : logging.isSome = logging'.isSome) (hcounters : counters.Le counters')
    (htotal : total.Le total') : phase.Owes logging' counters' total' request state := by
  cases phase with
  | reading => exact h
  | recording counts pending =>
    obtain ⟨op, hpending, hle⟩ := h
    exact ⟨op, hpending, hle.trans htotal⟩
  | reporting pending =>
    obtain ⟨op, counts, hpending, hle⟩ := h
    exact ⟨op, counts, hpending, hle.trans hcounters⟩
  | executed response aofFrame outcome =>
    obtain ⟨reply, hreply, hanswers⟩ := h
    exact ⟨reply, (Phase.reply_congr hlogging _).symm.trans hreply, hanswers.later htotal⟩
  | replying response => exact Answers.later h htotal

/-- Once its counts are added, a command reads the counters or is done. -/
theorem Pending.IsFor.recorded {pending : Pending} {request : Request} {state : ServerState}
    {op : StoreOp} {counts : StoreCounters} (h : pending.IsFor request state op counts)
    {logging : Option Bytes} (hlogging : logging.isSome = state.aof.isSome)
    {counters total : StoreCounters} (hcounters : counts.Le counters) (htotal : counts.Le total) :
    pending.recorded.Owes logging counters total request state := by
  have hnone : (0 + counts).Le total := by rwa [zero_add]
  have hfinish := h.answers hlogging hnone
  rw [zero_add] at hfinish
  unfold Pending.recorded
  split
  · exact ⟨op, counts, h, hcounters⟩
  · rename_i hstats
    have hsame : pending.finish 0 = pending.finish counts := by
      unfold Pending.finish
      cases hresult : pending.result with
      | stats figures => exact absurd hresult (hstats figures)
      | _ => rfl
    rw [hsame]
    exact Phase.owes_of_reply hfinish

theorem Pending.recorded_unrecorded (pending : Pending) : pending.recorded.unrecorded = 0 := by
  unfold Pending.recorded Pending.finish
  split
  · rfl
  · rcases pending.command.respond (pending.result.withCounters 0) with error | response <;> rfl

/-- What the turn of a request leaves does to the entries what the request does, with as much
    to count. -/
structure Entered (request : Request) (store : MemoryStore) (state : ServerState)
    (logging : Option Bytes) (entered : Phase × MemoryStore) : Prop where
  entries : entered.2 = { store with entries := (handleRequest request state).2.store.entries }
  counted : state.store.counters + entered.1.unrecorded =
    (handleRequest request state).2.store.counters
  owes : entered.1.Owes logging store.counters (handleRequest request state).2.store.counters
    request state

section

variable {request : Request} {store : MemoryStore} {state : ServerState} {logging : Option Bytes}

theorem entered_malformed {error : CommandError}
    (hcommand : Command.fromFrame request.frame = .error error)
    (hentries : store.entries = state.store.entries) :
    Entered request store state logging
      (enterFrame request.frame request.env request.outcome store) := by
  have hhandled : handleRequest request state = (Command.errorFrame error, state) := by
    simp only [handleRequest, executeRequest, hcommand]
  simp only [enterFrame, hcommand]
  constructor
  · rw [hhandled, ← hentries]
  · rw [hhandled]
    exact add_zero _
  · refine ⟨fun _ => by rw [hhandled], state.store.counters, ?_, ?_⟩
    · rw [withCounters_self]
      exact .refl _
    · rw [withCounters_self, hhandled]

theorem entered_storeless {command : Command}
    (hcommand : Command.fromFrame request.frame = .ok command) (hop : command.storeOp = none)
    (hentries : store.entries = state.store.entries)
    (hlogging : logging.isSome = state.aof.isSome) :
    Entered request store state logging
      (enterFrame request.frame request.env request.outcome store) := by
  have hstore := handleRequest_execute hcommand state
  rw [execute_no_op hop request.env state.store state.store] at hstore
  have hreply := reply_after hcommand hlogging
  simp only [enterFrame, hcommand, hop, execute_no_op hop request.env store state.store]
  constructor
  · rw [hstore, ← hentries]
  · rw [hstore]
    rcases (command.execute request.env state.store).1 with error | response <;> exact add_zero _
  · refine Phase.owes_of_reply ⟨_, hreply, fun _ => rfl, state.store.counters, ?_, ?_⟩
    · rw [withCounters_self]
      exact .refl _
    · rw [withCounters_self]

theorem entered_operation {command : Command} {op : StoreOp}
    (hcommand : Command.fromFrame request.frame = .ok command) (hop : command.storeOp = some op)
    (hentries : store.entries = state.store.entries) (hconfig : store.config = state.store.config)
    (hlogging : logging.isSome = state.aof.isSome) :
    Entered request store state logging
      (enterFrame request.frame request.env request.outcome store) := by
  have hisFor : Pending.IsFor
      { command
        result := (op.locked request.env.opEnv state.store.config state.store.entries).1
        aofFrame := command.toAofFrame request.env.clock
        outcome := request.outcome } request state op
      (op.locked request.env.opEnv state.store.config state.store.entries).2.2 :=
    ⟨hcommand, hop, rfl, rfl, rfl, rfl⟩
  have hrun := hisFor.run state.store.counters
  rw [withCounters_self] at hrun
  have hstore : (handleRequest request state).2.store =
      { state.store with
        entries := (op.locked request.env.opEnv state.store.config state.store.entries).2.1
        counters := state.store.counters +
          (op.locked request.env.opEnv state.store.config state.store.entries).2.2 } := by
    rw [handleRequest_execute hcommand, execute_respond hop, hrun]
  simp only [enterFrame, hcommand, hop, hentries, hconfig]
  split
  · rename_i hzero
    rw [hzero] at hisFor hstore
    constructor
    · rw [hstore, hconfig]
    · rw [Pending.recorded_unrecorded, hstore]
    · rw [hstore]
      exact hisFor.recorded hlogging (StoreCounters.le_add_left 0 store.counters)
        (StoreCounters.le_add_left 0 state.store.counters)
  · constructor
    · rw [hstore, hconfig]
    · rw [hstore]
      rfl
    · rw [hstore]
      exact ⟨op, hisFor, StoreCounters.le_add_left _ _⟩

/-- **The turn of a request under the lock of the entries.** -/
theorem enterFrame_spec (hentries : store.entries = state.store.entries)
    (hconfig : store.config = state.store.config)
    (hlogging : logging.isSome = state.aof.isSome) :
    Entered request store state logging
      (enterFrame request.frame request.env request.outcome store) := by
  rcases hcommand : Command.fromFrame request.frame with error | command
  · exact entered_malformed hcommand hentries
  · cases hop : command.storeOp with
    | none => exact entered_storeless hcommand hop hentries hlogging
    | some op => exact entered_operation hcommand hop hentries hconfig hlogging

end

theorem Pending.finish_unrecorded (pending : Pending) (counters : StoreCounters) :
    (pending.finish counters).unrecorded = 0 := by
  unfold Pending.finish
  rcases pending.command.respond (pending.result.withCounters counters) with error | response <;>
    rfl

/-- The server after a turn of a connection that is busy with a request. -/
structure Turned (server server' : ServerState) (phase next : Phase) : Prop where
  entries : server'.store.entries = server.store.entries
  config : server'.store.config = server.store.config
  counters : server'.store.counters + next.unrecorded =
    server.store.counters + phase.unrecorded
  later : server.store.counters.Le server'.store.counters
  logging : server'.aof.isSome = server.aof.isSome

theorem Phase.Takes.turned {turn : LockTurn} {phase next : Phase} {server server' : ServerState}
    (h : Phase.Takes server turn phase next server') : Turned server server' phase next := by
  cases h with
  | record counts pending =>
    refine ⟨rfl, rfl, ?_, (StoreCounters.Le.refl _).add counts, rfl⟩
    rw [Pending.recorded_unrecorded, add_zero]
    rfl
  | report pending =>
    refine ⟨rfl, rfl, ?_, .refl _, rfl⟩
    rw [Pending.finish_unrecorded]
    rfl
  | append response aofFrame outcome =>
    exact ⟨rfl, rfl, rfl, .refl _, appendCommand_isSome _ _ _⟩

/-- A turn leads on to the reply. -/
theorem Phase.Takes.owes {turn : LockTurn} {phase next : Phase} {server server' : ServerState}
    (h : Phase.Takes server turn phase next server') {total : StoreCounters} {request : Request}
    {state : ServerState}
    (howes : phase.Owes server.aof server.store.counters total request state)
    (hlogging : server.aof.isSome = state.aof.isSome)
    (htotal : server.store.counters.Le total) :
    next.Owes server'.aof server'.store.counters total request state := by
  cases h with
  | record counts pending =>
    obtain ⟨op, hpending, hle⟩ := howes
    exact hpending.recorded hlogging (StoreCounters.le_add_left _ _) hle
  | report pending =>
    obtain ⟨op, counts, hpending, hle⟩ := howes
    obtain ⟨others, hothers⟩ := hle.exists_add
    rw [hothers] at htotal ⊢
    exact Phase.owes_of_reply (hpending.answers hlogging htotal)
  | append response aofFrame outcome =>
    obtain ⟨reply, hreply, hanswers⟩ := howes
    cases hreply
    exact hanswers

/-! ### The history of a run -/

/-- What a client is told of the requests that it has in a history: `replies` are the
    replies to all of them, or the last one is what its connection is busy with. -/
def Told (logging : Option Bytes) (counters total : StoreCounters)
    (entries : List (Request × ServerState)) (replies : List Frame) (phase : Phase) : Prop :=
  (phase = .reading ∧
      List.Forall₂ (fun entry => Answers total entry.1 entry.2) entries replies) ∨
    ∃ earlier request state, entries = earlier ++ [(request, state)] ∧
      List.Forall₂ (fun entry => Answers total entry.1 entry.2) earlier replies ∧
      phase.Owes logging counters total request state

theorem Told.later {logging logging' : Option Bytes}
    {counters counters' total total' : StoreCounters} {entries : List (Request × ServerState)}
    {replies : List Frame} {phase : Phase} (h : Told logging counters total entries replies phase)
    (hlogging : logging.isSome = logging'.isSome) (hcounters : counters.Le counters')
    (htotal : total.Le total') : Told logging' counters' total' entries replies phase := by
  rcases h with ⟨hphase, hreplies⟩ | ⟨earlier, request, state, hentries, hreplies, howes⟩
  · exact Or.inl ⟨hphase, hreplies.imp fun _ _ hanswers => hanswers.later htotal⟩
  · exact Or.inr ⟨earlier, request, state, hentries,
      hreplies.imp fun _ _ hanswers => hanswers.later htotal,
      howes.later hlogging hcounters htotal⟩

section

variable {Id : Type}

theorem Deed.perform_isSome (deed : Deed Id) (state : ServerState) :
    (deed.perform state).aof.isSome = state.aof.isSome := by
  cases deed with
  | request id asked => exact handleRequest_isSome asked state
  | cleanup now => rfl

theorem performAll_isSome (history : List (Deed Id)) (state : ServerState) :
    (performAll history state).aof.isSome = state.aof.isSome := by
  induction history generalizing state with
  | nil => rfl
  | cons deed history ih => exact (ih _).trans (deed.perform_isSome state)

/-- There is a log for one request if there is one for all. -/
theorem met_isSome {history : List (Deed Id)} {start : ServerState}
    {entry : Id × Request × ServerState} (h : entry ∈ met history start) :
    entry.2.2.aof.isSome = start.aof.isSome := by
  induction history generalizing start with
  | nil => cases h
  | cons deed history ih =>
    cases deed with
    | request id asked =>
      rcases List.mem_cons.mp h with rfl | h
      · rfl
      · exact (ih h).trans (handleRequest_isSome asked start)
    | cleanup now =>
      have hlater := @ih (cleanupTick now start) h
      exact hlater

variable [Fintype Id] [DecidableEq Id]

/-- The history explains the server: its entries, its counters, the requests left to each
    client, and the replies that each has got. -/
structure Accounts (start : ServerState) (requests : Id → List Request)
    (history : List (Deed Id)) (host : Host Id ClientTask) : Prop where
  entries : host.server.store.entries = (performAll history start).store.entries
  config : host.server.store.config = (performAll history start).store.config
  counters : host.server.store.counters + host.unrecorded =
    (performAll history start).store.counters
  logging : host.server.aof.isSome = (performAll history start).aof.isSome
  order : ∀ id, (own id (met history start)).map Prod.fst ++ (host.connections id).requests =
    requests id
  told : ∀ id, Told host.server.aof host.server.store.counters
    (performAll history start).store.counters (own id (met history start))
    (host.connections id).replies (host.connections id).phase

theorem accounts_fresh (server : ServerState) (requests : Id → List Request) :
    Accounts server requests [] (Host.fresh server requests) where
  entries := rfl
  config := rfl
  counters := by
    change server.store.counters + (0 + ∑ _ : Id, (0 : StoreCounters)) = server.store.counters
    rw [Finset.sum_const_zero, add_zero, add_zero]
  logging := rfl
  order _ := rfl
  told _ := Or.inl ⟨rfl, .nil⟩

/-- A step of one connection that executes nothing. -/
theorem Accounts.quiet {start : ServerState} {requests : Id → List Request}
    {history : List (Deed Id)} {host : Host Id ClientTask} {id : Id} {task : ClientTask}
    {server : ServerState} (h : Accounts start requests history host)
    (hturned : Turned host.server server (host.connections id).phase task.phase)
    (hrequests : task.requests = (host.connections id).requests)
    (htold : Told server.aof server.store.counters (performAll history start).store.counters
      (own id (met history start)) task.replies task.phase) :
    Accounts start requests history
      { host with server, connections := Function.update host.connections id task } := by
  constructor
  · exact hturned.entries.trans h.entries
  · exact hturned.config.trans h.config
  · obtain ⟨others, hsum, hupdate⟩ :=
      sum_counts (fun task : ClientTask => task.phase.unrecorded) host.connections id
    rw [← h.counters, Host.unrecorded, Host.unrecorded, hsum, hupdate]
    calc server.store.counters + (host.cleaner + (task.phase.unrecorded + others))
        = server.store.counters + task.phase.unrecorded + (host.cleaner + others) := by abel
      _ = host.server.store.counters + (host.connections id).phase.unrecorded +
            (host.cleaner + others) := by rw [hturned.counters]
      _ = host.server.store.counters +
            (host.cleaner + ((host.connections id).phase.unrecorded + others)) := by abel
  · exact hturned.logging.trans h.logging
  · intro other
    by_cases hother : other = id
    · subst hother
      simp only [Function.update_self, hrequests, h.order]
    · simp only [Function.update_of_ne hother, h.order]
  · intro other
    by_cases hother : other = id
    · subst hother
      simpa only [Function.update_self] using htold
    · simp only [Function.update_of_ne hother]
      exact (h.told other).later hturned.logging.symm hturned.later (.refl _)

/-- The first turn of a request adds it to the history. -/
theorem Accounts.execute {start : ServerState} {requests : Id → List Request}
    {history : List (Deed Id)} {host : Host Id ClientTask} {id : Id} {request : Request}
    {rest : List Request} (h : Accounts start requests history host)
    (hphase : (host.connections id).phase = .reading)
    (hrequests : (host.connections id).requests = request :: rest) :
    Accounts start requests (history ++ [.request id request])
      { host with
        server.store :=
          (enterFrame request.frame request.env request.outcome host.server.store).2
        connections := Function.update host.connections id
          { host.connections id with
            requests := rest
            phase :=
              (enterFrame request.frame request.env request.outcome host.server.store).1 } } := by
  obtain ⟨hstore, hcounters, howes⟩ := enterFrame_spec h.entries h.config h.logging
  have hlater : (performAll history start).store.counters.Le
      (handleRequest request (performAll history start)).2.store.counters := by
    rw [← hcounters]
    exact (StoreCounters.Le.refl _).add _
  have hconfig : (handleRequest request (performAll history start)).2.store.config =
      (performAll history start).store.config := by
    rw [handleRequest_store, executeRequest_config]
  have hsame : host.server.store.counters.Le
      (enterFrame request.frame request.env request.outcome host.server.store).2.counters := by
    rw [hstore]
    exact .refl _
  constructor
  · rw [performAll_concat, hstore]
    rfl
  · rw [performAll_concat, hstore]
    exact h.config.trans hconfig.symm
  · obtain ⟨others, hsum, hupdate⟩ :=
      sum_counts (fun task : ClientTask => task.phase.unrecorded) host.connections id
    have hold := h.counters
    rw [Host.unrecorded, hsum, hphase] at hold
    rw [performAll_concat, Deed.perform, ← hcounters, ← hold, Host.unrecorded, hupdate, hstore]
    generalize (enterFrame request.frame request.env request.outcome
      host.server.store).1.unrecorded = counts
    change host.server.store.counters + (host.cleaner + (counts + others)) =
      host.server.store.counters + (host.cleaner + (0 + others)) + counts
    abel
  · rw [performAll_concat, Deed.perform_isSome]
    exact h.logging
  · intro other
    have horder := h.order other
    rw [met_request]
    by_cases hother : other = id
    · subst hother
      rw [hrequests] at horder
      simp only [own_append, own_self, Function.update_self, List.map_append, List.map_singleton,
        List.append_assoc, List.singleton_append, horder]
    · simp only [own_append, own_other (Ne.symm hother), List.append_nil,
        Function.update_of_ne hother, horder]
  · intro other
    have htold := h.told other
    rw [met_request, own_append, performAll_concat]
    by_cases hother : other = id
    · subst hother
      rw [own_self]
      simp only [Function.update_self]
      rcases htold with ⟨-, hreplies⟩ | ⟨earlier, busy, state, -, -, hbusy⟩
      · refine Or.inr ⟨_, request, _, rfl, ?_, howes.later rfl hsame (.refl _)⟩
        exact hreplies.imp fun _ _ hanswers => hanswers.later hlater
      · rw [hphase] at hbusy
        exact hbusy.elim
    · simp only [own_other (Ne.symm hother), List.append_nil, Function.update_of_ne hother]
      exact htold.later rfl hsame hlater

/-- A sweep adds itself to the history. -/
theorem Accounts.cleanup {start : ServerState} {requests : Id → List Request}
    {history : List (Deed Id)} {host : Host Id ClientTask}
    (h : Accounts start requests history host) (hidle : host.cleaner = 0) (now : SystemTime) :
    Accounts start requests (history ++ [.cleanup now])
      { host with
        server.store.entries :=
          (StoreOp.cleanupExpired.locked (.at now) host.server.store.config
            host.server.store.entries).2.1
        cleaner :=
          (StoreOp.cleanupExpired.locked (.at now) host.server.store.config
            host.server.store.entries).2.2 } := by
  have hsplits := StoreOp.cleanupExpired.splits (.at now) (performAll history start).store
  have hcleaned : (cleanupTick now (performAll history start)).store =
      (StoreOp.cleanupExpired.run (.at now) (performAll history start).store).2 := rfl
  rw [hsplits, ← h.entries, ← h.config] at hcleaned
  have hlater : (performAll history start).store.counters.Le
      (cleanupTick now (performAll history start)).store.counters := by
    rw [hcleaned]
    exact (StoreCounters.Le.refl _).add _
  constructor
  · rw [performAll_concat, Deed.perform, hcleaned]
  · rw [performAll_concat, Deed.perform, hcleaned]
  · rw [performAll_concat, Deed.perform, hcleaned, ← h.counters, Host.unrecorded, Host.unrecorded,
      hidle]
    simp only
    abel
  · rw [performAll_concat, Deed.perform_isSome]
    exact h.logging
  · intro id
    rw [met_cleanup]
    exact h.order id
  · intro id
    rw [met_cleanup, performAll_concat]
    exact (h.told id).later rfl (.refl _) hlater

omit [DecidableEq Id] in
/-- What `cleanup_expired` has counted is added. -/
theorem Host.record_counters (host : Host Id ClientTask) :
    host.server.store.counters + host.cleaner +
        Host.unrecorded { host with cleaner := 0 } =
      host.server.store.counters + host.unrecorded := by
  simp only [Host.unrecorded]
  abel

theorem Accounts.record {start : ServerState} {requests : Id → List Request}
    {history : List (Deed Id)} {host : Host Id ClientTask}
    (h : Accounts start requests history host) :
    Accounts start requests history
      { host with
        server.store := host.server.store.withCounters
          (host.server.store.counters + host.cleaner)
        cleaner := 0 } := by
  refine ⟨h.entries, h.config, ?_, h.logging, h.order, fun id => ?_⟩
  · exact host.record_counters.trans h.counters
  · exact (h.told id).later rfl ((StoreCounters.Le.refl _).add _) (.refl _)

/-- A step of a connection adds what it executes to the history. -/
theorem Accounts.client {start : ServerState} {requests : Id → List Request}
    {history : List (Deed Id)} {host : Host Id ClientTask} {id : Id} {action : ClientAction}
    {task : ClientTask} {server : ServerState} (h : Accounts start requests history host)
    (hstep : (host.connections id).Takes host.server action task server) :
    Accounts start requests
      (history ++ (((host.connections id).executes action).map (Deed.request id)).toList)
      { host with server, connections := Function.update host.connections id task } := by
  cases hstep with
  | execute hphase hrequests =>
    rename_i request rest
    have hexecutes : (host.connections id).executes .execute = some request := by
      simp only [ClientTask.executes, hphase, hrequests]
    rw [hexecutes]
    exact h.execute hphase hrequests
  | turn hturn =>
    rename_i turn phase
    have hexecutes : (host.connections id).executes (.turn turn) = none := rfl
    rw [hexecutes, Option.map_none, Option.toList_none, List.append_nil]
    have htakes := Phase.turn_takes hturn
    refine h.quiet htakes.turned rfl ?_
    have htotal : host.server.store.counters.Le (performAll history start).store.counters := by
      rw [← h.counters]
      exact (StoreCounters.Le.refl _).add _
    rcases h.told id with ⟨hreading, -⟩ | ⟨earlier, request, state, hentries, hreplies, howes⟩
    · rw [hreading] at htakes
      cases htakes
    · refine Or.inr ⟨earlier, request, state, hentries, hreplies, ?_⟩
      have hmem : (id, request, state) ∈ met history start :=
        own_mem (by rw [hentries]; exact List.mem_concat_self)
      exact htakes.owes howes (h.logging.trans
        ((performAll_isSome history start).trans (met_isSome hmem).symm)) htotal
  | reply hphase =>
    rename_i response
    have hexecutes : (host.connections id).executes .reply = none := rfl
    rw [hexecutes, Option.map_none, Option.toList_none, List.append_nil]
    refine h.quiet ⟨rfl, rfl, by rw [hphase]; rfl, .refl _, rfl⟩ rfl ?_
    rcases h.told id with ⟨hreading, -⟩ | ⟨earlier, request, state, hentries, hreplies, howes⟩
    · rw [hphase] at hreading
      cases hreading
    · rw [hphase] at howes
      rw [hentries]
      exact Or.inl ⟨rfl, List.rel_append hreplies (.cons howes .nil)⟩

theorem Accounts.step {start : ServerState} {requests : Id → List Request}
    {history : List (Deed Id)} {host next : Host Id ClientTask}
    {event : HostEvent Id ClientAction} (h : Accounts start requests history host)
    (hstep : host.Takes (fun _ => clientRules) event next) :
    Accounts start requests (history ++ (host.deed (fun _ => clientRules) event).toList) next := by
  cases hstep with
  | client hstep => exact h.client (ClientTask.step_takes hstep)
  | cleanup hidle => exact h.cleanup hidle _
  | record hcounts =>
    rw [Host.deed, Option.toList_none, List.append_nil]
    exact h.record

theorem Accounts.run {start : ServerState} {requests : Id → List Request}
    {history : List (Deed Id)} {host final : Host Id ClientTask}
    {events : List (HostEvent Id ClientAction)} (h : Accounts start requests history host)
    (hrun : run (Host.step fun _ => clientRules) events host = some final) :
    Accounts start requests (history ++ Host.history (fun _ => clientRules) events host) final := by
  induction events generalizing host history with
  | nil =>
    cases hrun
    rwa [Host.history, List.append_nil]
  | cons event events ih =>
    obtain ⟨next, hstep, hrest⟩ := run_cons.mp hrun
    have hfinal := ih (h.step (Host.step_takes hstep)) hrest
    rw [Host.history, hstep, ← List.append_assoc]
    exact hfinal

omit [Fintype Id] [DecidableEq Id] in
/-- All that a client is told are replies to its requests, and at most one is under way. -/
theorem Told.replied {logging : Option Bytes} {counters total : StoreCounters}
    {entries : List (Request × ServerState)} {replies : List Frame} {phase : Phase}
    (h : Told logging counters total entries replies phase) :
    List.Forall₂ (fun entry => Answers total entry.1 entry.2) (entries.take replies.length)
        replies ∧
      entries.length = replies.length + if phase = .reading then 0 else 1 := by
  rcases h with ⟨hphase, hreplies⟩ | ⟨earlier, request, state, rfl, hreplies, howes⟩
  · rw [if_pos hphase, ← hreplies.length_eq, List.take_length]
    exact ⟨hreplies, rfl⟩
  · have hbusy : phase ≠ .reading := by
      rintro rfl
      exact howes
    rw [if_neg hbusy, ← hreplies.length_eq, List.take_left, List.length_append]
    exact ⟨hreplies, rfl⟩

omit [Fintype Id] [DecidableEq Id] in
/-- So are those that its connection has ready. -/
theorem Told.ready {logging : Option Bytes} {counters total : StoreCounters}
    {entries : List (Request × ServerState)} {replies : List Frame} {phase : Phase}
    (h : Told logging counters total entries replies phase) :
    let answered := replies ++ (phase.reply logging).toList
    List.Forall₂ (fun entry => Answers total entry.1 entry.2) (entries.take answered.length)
      answered := by
  intro answered
  rcases hready : phase.reply logging with _ | reply
  · have hsame : answered = replies := by simp only [answered, hready, Option.toList_none,
      List.append_nil]
    rw [hsame]
    exact h.replied.1
  · rcases h with ⟨rfl, -⟩ | ⟨earlier, request, state, rfl, hreplies, howes⟩
    · cases hready
    · have hanswers : Answers total request state reply := by
        cases phase with
        | reading | recording | reporting => cases hready
        | executed response aofFrame outcome =>
          obtain ⟨other, hother, hanswers⟩ := howes
          rw [hready] at hother
          cases hother
          exact hanswers
        | replying response =>
          cases hready
          exact howes
      have hsame : answered = replies ++ [reply] := by simp only [answered, hready,
        Option.toList_some]
      have hlength : answered.length = (earlier ++ [(request, state)]).length := by
        rw [hsame, List.length_append, List.length_append, hreplies.length_eq]
        rfl
      rw [hlength, List.take_length, hsame]
      exact List.rel_append hreplies (.cons hanswers .nil)

/-- **Linearizability.**  In any interleaving of the turns of all connections and of the
    cleaning task, the requests and the sweeps in the order in which they take the entries are
    a history that explains the server.  Its entries are what one client sending these
    requests would leave, with the sweeps in between, and its counters lack of that client's
    just what the tasks have yet to add.  Every client's requests are in the history in the
    order in which it sends them, and its replies are those that they get there, but that the
    report of `INFO` or `AERUGO.STATS` may show counters that lag; at most one is under way.
    The order is that of real time: what a part of the schedule has done, and so every
    request answered by then, comes before all that follows. -/
theorem linearizable {server : ServerState} {requests : Id → List Request}
    {events : List (HostEvent Id ClientAction)} {host : Host Id ClientTask}
    (h : run (Host.step fun _ => clientRules) events (.fresh server requests) = some host) :
    let history := fun events =>
      Host.history (fun _ => clientRules) events (Host.fresh server requests)
    let last := performAll (history events) server
    host.server.store.entries = last.store.entries ∧
      host.server.store.counters + host.unrecorded = last.store.counters ∧
      (∀ id,
        let entries := own id (met (history events) server)
        let replies := (host.connections id).replies
        entries.map Prod.fst ++ (host.connections id).requests = requests id ∧
          List.Forall₂ (fun entry => Answers last.store.counters entry.1 entry.2)
            (entries.take replies.length) replies ∧
          entries.length = replies.length +
            if (host.connections id).phase = .reading then 0 else 1) ∧
      ∀ before after, events = before ++ after → history before <+: history events := by
  intro history last
  have haccounts := (accounts_fresh server requests).run h
  rw [List.nil_append] at haccounts
  refine ⟨haccounts.entries, haccounts.counters, fun id => ⟨haccounts.order id, ?_⟩, ?_⟩
  · exact (haccounts.told id).replied
  · rintro before after rfl
    exact Host.history_begins _ _ _ _

end

/-- One client writes a key that expires, the other asks for the counters. -/
def reportRequests : Bool → List Request
  | true => [clientRequest "SET" [utf8 "k", [1]] (.at 0 0),
      clientRequest "EXPIREAT" [utf8 "k", utf8 "10"] (.at 0 0)]
  | false => [clientRequest "INFO" [] (.at 20000000000 0)]

/-- The key is swept and the counters are read before the sweep is counted. -/
def reportSteps : List (HostEvent Bool ClientAction) := [
  .client true .execute, .client true (.turn .append), .client true .reply,
  .client true .execute, .client true (.turn .append), .client true .reply,
  .cleanup 20000000000, .client false .execute, .client false (.turn .report),
  .client false (.turn .append), .client false .reply]

/-- The report is the last of the history, and shows one count less. -/
theorem linearizable_report :
    ∃ host, run (Host.step fun _ => clientRules) reportSteps
        (.fresh (.initial .default) reportRequests) = some host ∧
      host.unrecorded = ⟨1, 0, 0⟩ ∧ host.server.store.counters = 0 ∧
      let history := Host.history (fun _ => clientRules) reportSteps
        (Host.fresh (.initial .default) reportRequests)
      let last := performAll history (.initial .default)
      host.server.store.entries = last.store.entries ∧ last.store.counters = ⟨1, 0, 0⟩ ∧
        ∀ id, (own id (met history (.initial .default))).map Prod.fst = reportRequests id ∧
          List.Forall₂ (fun entry => Answers ⟨1, 0, 0⟩ entry.1 entry.2)
            (own id (met history (.initial .default))) (host.connections id).replies := by
  have hfinished : (run (Host.step fun _ => clientRules) reportSteps
      (.fresh (.initial .default) reportRequests)).any (fun host =>
        decide (host.unrecorded = ⟨1, 0, 0⟩ ∧ host.server.store.counters = 0 ∧
          ∀ id, (host.connections id).phase = .reading ∧
            (host.connections id).requests.isEmpty)) = true := by decide +kernel
  obtain ⟨host, hrun, hdone⟩ := (Option.any_eq_true _ _).mp hfinished
  obtain ⟨hunrecorded, hcounters, hclients⟩ := of_decide_eq_true hdone
  obtain ⟨hentries, htotal, hserved, -⟩ := linearizable hrun
  rw [hunrecorded, hcounters, zero_add] at htotal
  refine ⟨host, hrun, hunrecorded, hcounters, hentries, htotal.symm, fun id => ?_⟩
  obtain ⟨horder, hreplies, hlength⟩ := hserved id
  obtain ⟨hphase, hrequests⟩ := hclients id
  rw [if_pos hphase, Nat.add_zero] at hlength
  rw [← htotal, ← hlength, List.take_length] at hreplies
  rw [List.isEmpty_iff.mp hrequests, List.append_nil] at horder
  exact ⟨horder, hreplies⟩

end AerugoCache.Concurrent
