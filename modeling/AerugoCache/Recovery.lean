import AerugoCache.ReplayUndated
import AerugoCache.StepSystem
import AerugoCache.TornLog

/-!
# Crashes and restarts

A server that crashes leaves its file behind, with some of the last bytes missing, and
the next `run` replays what is left.  The requests whose records are whole are the history
of the server then, over any number of crashes: it is in the state of a server that was
asked just these.  A file that ends inside a record does not start.
-/

namespace AerugoCache.Replay

open AerugoCache.ByteText AerugoCache.KeyedMap AerugoCache.Protocol AerugoCache.Storage
  AerugoCache.Commands AerugoCache.Persistence AerugoCache.Server AerugoCache.StepSystem

/-! ### The process and its file -/

/-- The process serves its clients, or it is down and its file is all there is. -/
inductive Host where
  | running (state : ServerState)
  | down (file : Option Bytes)

def Host.serving : Host → Option ServerState
  | .running state => some state
  | .down _ => none

/-- A crash loses the last bytes of the file. -/
inductive HostEvent where
  | handle (request : Request)
  | crash (lost : Nat)
  | start (envs : Nat → Env)

def Host.step (config : StoreConfig) : StepFunction Host HostEvent := fun host event =>
  match host, event with
  | .running state, .handle request => some (.running (handleRequest request state).2)
  | .running state, .crash lost =>
      some (.down (state.aof.map fun log => log.take (log.length - lost)))
  | .down file, .start envs =>
      match startup .unlimited envs config (some file) with
      | .ok state => some (.running state)
      | .error _ => some (.down file)
  | _, _ => none

/-! ### What a crash leaves of a history -/

/-- The log of a history. -/
def recordBytes (config : StoreConfig) (history : List Request) : Bytes :=
  (appendedFrames history (.withConfig config)).flatMap writeFrame

/-- The first requests, up to one whose record is not among the first `kept` bytes. -/
def survived : List Request → MemoryStore → Nat → List Request
  | [], _, _ => []
  | request :: requests, store, kept =>
      let size := ((appendedFrame request store).toList.flatMap writeFrame).length
      if size ≤ kept then request :: survived requests (nextStore request store) (kept - size)
      else []

/-- The requests that have survived, after one more event. -/
def surviving (config : StoreConfig) (history : List Request) : HostEvent → List Request
  | .handle request => history ++ [request]
  | .crash lost =>
      survived history (.withConfig config) ((recordBytes config history).length - lost)
  | .start _ => history

/-- The requests that have survived the crashes among the events. -/
def survivors (config : StoreConfig) (events : List HostEvent) : List Request :=
  events.foldl (surviving config) []

theorem survived_begins (requests : List Request) (store : MemoryStore) (kept : Nat) :
    survived requests store kept <+: requests := by
  induction requests generalizing store kept with
  | nil => exact List.prefix_rfl
  | cons request requests ih =>
    rw [survived]
    split
    · exact (List.prefix_cons_inj request).mpr (ih _ _)
    · exact List.nil_prefix

/-- The records of the surviving requests are those that lie before the cut. -/
theorem appendedFrames_survived (requests : List Request) (store : MemoryStore) (kept : Nat) :
    appendedFrames (survived requests store kept) store =
      framesBefore (appendedFrames requests store) kept := by
  induction requests generalizing store kept with
  | nil => rfl
  | cons request requests ih =>
    rw [survived, appendedFrames]
    cases hframe : appendedFrame request store with
    | none =>
      simp only [Option.toList_none, List.flatMap_nil, List.length_nil, Nat.zero_le, if_true,
        Nat.sub_zero, List.nil_append, appendedFrames, hframe]
      exact ih _ _
    | some frame =>
      simp only [Option.toList_some, List.flatMap_singleton, List.singleton_append, framesBefore]
      split
      · simp only [appendedFrames, hframe, Option.toList_some, List.singleton_append, ih]
      · rfl

/-- Nothing is lost with the whole log. -/
theorem survived_all (requests : List Request) (store : MemoryStore) {kept : Nat}
    (hkept : ((appendedFrames requests store).flatMap writeFrame).length ≤ kept) :
    survived requests store kept = requests := by
  induction requests generalizing store kept with
  | nil => rfl
  | cons request requests ih =>
    rw [appendedFrames, List.flatMap_append, List.length_append] at hkept
    rw [survived, if_pos (by omega), ih _ (by omega)]

/-! ### One request on two stores that differ in their counters -/

theorem request_congr {request : Request} {store store' : MemoryStore}
    (hconfig : store.config = store'.config) (hentries : store.entries = store'.entries)
    (hundated : Undated store.entries) (hplain : isExpiryRequest request = false)
    (hforced : ForcedRequest request store) :
    appendedFrame request store = appendedFrame request store' ∧
      (nextStore request store).entries = (nextStore request store').entries ∧
      Undated (nextStore request store).entries := by
  unfold appendedFrame nextStore executeRequest
  cases hparse : Command.fromFrame request.frame with
  | error error => exact ⟨rfl, hentries, hundated⟩
  | ok command =>
    have hundated' : Undated store'.entries := by rwa [← hentries]
    simp only
    cases hrecord : command.toAofFrame request.env.clock with
    | none =>
      refine ⟨?_, ?_, ?_⟩
      · rcases command.execute request.env store with ⟨error | response, after⟩ <;>
          rcases command.execute request.env store' with ⟨error' | response', after'⟩ <;> rfl
      · rw [execute_unlogged hundated hrecord, execute_unlogged hundated' hrecord, hentries]
      · rw [execute_unlogged hundated hrecord]
        exact hundated
    | some frame =>
      have hexpiry := isExpiry_of_request hplain hparse
      have hsome := Option.isSome_of_eq_some hrecord
      have hforced' : command.Forced store'.config store'.entries := by
        rw [← hconfig, ← hentries]
        exact hforced command hparse
      have hrefines := execute_refines hundated hexpiry (hforced command hparse) hsome request.env
      have hrefines' := execute_refines hundated' hexpiry hforced' hsome request.env
      rw [← hconfig, ← hentries] at hrefines'
      generalize command.execute request.env store = outcome at hrefines ⊢
      generalize command.execute request.env store' = outcome' at hrefines' ⊢
      obtain ⟨result, after⟩ := outcome
      obtain ⟨result', after'⟩ := outcome'
      unfold Refines at hrefines hrefines'
      cases heffect : command.effect store.config store.entries with
      | none =>
        rw [heffect] at hrefines hrefines'
        obtain ⟨hfailed, hsame⟩ := hrefines
        obtain ⟨hfailed', hsame'⟩ := hrefines'
        refine ⟨?_, hsame.trans hsame'.symm, ?_⟩
        · cases result with
          | ok response => cases hfailed
          | error error =>
            cases result' with
            | ok response => cases hfailed'
            | error error' => rfl
        · rw [hsame]
          exact hundated
      | some entries =>
        rw [heffect] at hrefines hrefines'
        obtain ⟨hok, hafter⟩ := hrefines
        obtain ⟨hok', hafter'⟩ := hrefines'
        refine ⟨?_, hafter.trans hafter'.symm, ?_⟩
        · cases result with
          | error error => cases hok
          | ok response =>
            cases result' with
            | error error' => cases hok'
            | ok response' => rfl
        · rw [hafter]
          exact effect_undated hundated heffect

theorem runStore_concat (requests : List Request) (request : Request) (store : MemoryStore) :
    runStore (requests ++ [request]) store = nextStore request (runStore requests store) := by
  induction requests generalizing store with
  | nil => rfl
  | cons first requests ih => exact ih _

theorem appendedFrames_concat (requests : List Request) (request : Request)
    (store : MemoryStore) :
    appendedFrames (requests ++ [request]) store =
      appendedFrames requests store ++
        (appendedFrame request (runStore requests store)).toList := by
  induction requests generalizing store with
  | nil => exact List.append_nil _
  | cons first requests ih =>
    rw [List.cons_append, appendedFrames, ih, appendedFrames, List.append_assoc, runStore]

theorem runStore_config (requests : List Request) (store : MemoryStore) :
    (runStore requests store).config = store.config := by
  induction requests generalizing store with
  | nil => rfl
  | cons request requests ih => rw [runStore, ih, nextStore_config]

/-! ### The state of the process -/

section

variable {config : StoreConfig}

/-- The server has the state that the history leads to, its counters apart. -/
structure Recorded (config : StoreConfig) (history : List Request) (state : ServerState) :
    Prop where
  log : state.aof = some (recordBytes config history)
  entries : state.store.entries = (runStore history (.withConfig config)).entries
  config : state.store.config = config
  undated : Undated state.store.entries

/-- The file holds the records of the history, and perhaps a beginning of one more. -/
structure Remains (config : StoreConfig) (history : List Request) (file : Option Bytes)
    (torn : Bytes) : Prop where
  file : «open» file = recordBytes config history ++ torn
  torn : torn = [] ∨ Fails (readFrame .unlimited torn)

/-- The process is as the history says. -/
def Host.Holds (config : StoreConfig) (history : List Request) (host : Host) : Prop :=
  (∀ request ∈ history, isExpiryRequest request = false) ∧
    match host with
    | .running state => Recorded config history state
    | .down file => ∃ torn, Remains config history file torn

theorem Recorded.request
    (hconfig : config.maxMemoryBytes = none ∨ config.evictionPolicy = .noEviction)
    {history : List Request} {state : ServerState} (h : Recorded config history state)
    {request : Request} (hplain : isExpiryRequest request = false)
    (hwritten : request.outcome = .written) :
    Recorded config (history ++ [request]) (handleRequest request state).2 := by
  have hforced : ForcedRequest request state.store :=
    forcedRequest_of_noEviction (by rw [h.config]; exact hconfig) request
  have hsame : state.store.config = (runStore history (.withConfig config)).config := by
    rw [h.config, runStore_config]
    rfl
  obtain ⟨hframe, hentries, hundated⟩ :=
    request_congr hsame h.entries h.undated hplain hforced
  obtain ⟨store, aof⟩ := state
  obtain rfl : aof = some (recordBytes config history) := h.log
  rw [handleRequest_written hwritten]
  refine ⟨?_, ?_, ?_, hundated⟩
  · rw [recordBytes, recordBytes, appendedFrames_concat, List.flatMap_append, hframe]
  · rw [runStore_concat]
    exact hentries
  · rw [nextStore_config, h.config]

/-- Every record is one that a machine can hold, of one bulk or more. -/
theorem appendedFrames_bulks (requests : List Request) (store : MemoryStore) :
    ∀ frame ∈ appendedFrames requests store,
      frame.Fits .unlimited ∧ ∃ args, args ≠ [] ∧ frame = bulks args := by
  intro frame hframe
  constructor
  · obtain ⟨records, hframes, -⟩ := exists_records requests store
    rw [← hframes] at hframe
    obtain ⟨record, -, rfl⟩ := List.mem_map.mp hframe
    exact record.fits
  · induction requests generalizing store with
    | nil => cases hframe
    | cons request requests ih =>
      rcases List.mem_append.mp hframe with hfirst | hrest
      · rw [Option.mem_toList, appendedFrame, executeRequest] at hfirst
        cases hparse : Command.fromFrame request.frame with
        | error error =>
          rw [hparse] at hfirst
          cases hfirst
        | ok command =>
          simp only [hparse] at hfirst
          generalize (command.execute request.env store).1 = result at hfirst
          cases result with
          | error error => cases hfirst
          | ok response => exact toAofFrame_bulks hfirst
      · exact ih _ hrest

/-- What a cut leaves of the log of a history. -/
theorem remains_cut (config : StoreConfig) (history : List Request) {kept : Nat}
    (hkept : kept ≤ (recordBytes config history).length) :
    ∃ torn, Remains config (survived history (.withConfig config) kept)
      (some ((recordBytes config history).take kept)) torn := by
  obtain ⟨torn, htake, hon, hoff⟩ :=
    take_flatMap_writeFrame (appendedFrames history (.withConfig config)) hkept
  refine ⟨torn, ?_, ?_⟩
  · rw [recordBytes.eq_def config (survived _ _ _), appendedFrames_survived]
    exact htake
  · by_cases hboundary : OnBoundary (appendedFrames history (.withConfig config)) kept
    · exact Or.inl (hon hboundary)
    · obtain ⟨hne, frame, hmem, hpiece⟩ := hoff hboundary
      obtain ⟨hfits, args, hargs, rfl⟩ := appendedFrames_bulks history _ frame hmem
      exact Or.inr (readFrame_torn Allocator.unlimited_downward hargs hfits hpiece hne)

/-- A file that is whole replays to the entries of its history. -/
theorem Remains.replay_whole
    (hconfig : config.maxMemoryBytes = none ∨ config.evictionPolicy = .noEviction)
    {history : List Request} {file : Option Bytes} (h : Remains config history file [])
    (hplain : ∀ request ∈ history, isExpiryRequest request = false) (envs : Nat → Env) :
    ∃ count store, replay .unlimited envs file (.withConfig config) = (.ok count, store) ∧
      Recorded config history { store, aof := some («open» file) } := by
  have hrun := reproduced_run hplain (forcedRun_of_noEviction history hconfig _) envs
  have hreplay : replay .unlimited envs (some («open» file)) (.withConfig config) =
      replay .unlimited envs file (.withConfig config) := by
    cases file <;> rfl
  have hfile : «open» file = recordBytes config history := by simpa using h.file
  obtain ⟨records, hframes, hcommands⟩ := exists_records history (.withConfig config)
  rw [← hreplay, hfile, recordBytes, ← hframes, replay_records, hcommands]
  refine ⟨_, _, rfl, ?_, hrun.entries, ?_, ?_⟩
  · rw [recordBytes, ← hframes]
  · rw [hrun.config, runStore_config]
    rfl
  · rw [hrun.entries]
    exact hrun.undated

/-- A file that ends inside a record does not replay to its end. -/
theorem Remains.replay_fails {history : List Request} {file : Option Bytes} {torn : Bytes}
    (h : Remains config history file torn) (htorn : torn ≠ []) (envs : Nat → Env) :
    ∃ error store, replay .unlimited envs file (.withConfig config) = (.error error, store) := by
  obtain ⟨hfile, hnil | ⟨error, herror, -⟩⟩ := h
  · exact absurd hnil htorn
  · cases file with
    | none =>
      have hempty : recordBytes config history ++ torn = [] := hfile.symm
      exact absurd (List.append_eq_nil_iff.mp hempty).2 htorn
    | some log =>
      obtain rfl : log = recordBytes config history ++ torn := hfile
      obtain ⟨records, hframes, -⟩ := exists_records history (.withConfig config)
      have hread : ∀ frame ∈ records.map Record.frame, frame.Readable := by
        simpa using fun record _ => Record.readable record
      have hfits : ∀ frame ∈ records.map Record.frame, frame.Fits .unlimited := by
        simpa using fun record _ => Record.fits record
      obtain ⟨fuel, hscan⟩ := scanLog_written hread hfits torn
      rw [replay_scan, recordBytes, ← hframes, hscan, scan, herror]
      exact ⟨error, _, rfl⟩

/-! ### Runs of the process -/

def HostEvent.handled : HostEvent → Option Request
  | .handle request => some request
  | _ => none

/-- The requests among the events. -/
def requestsOf (events : List HostEvent) : List Request :=
  events.filterMap HostEvent.handled

/-- A request for no deadline, whose record is written. -/
def HostEvent.Plain : HostEvent → Prop
  | .handle request => isExpiryRequest request = false ∧ request.outcome = .written
  | _ => True

theorem surviving_begins (config : StoreConfig) (history : List Request) (event : HostEvent) :
    (surviving config history event).Sublist (history ++ requestsOf [event]) := by
  cases event with
  | handle request => exact List.Sublist.refl _
  | crash lost =>
    change (survived _ _ _).Sublist (history ++ [])
    rw [List.append_nil]
    exact (survived_begins _ _ _).sublist
  | start envs =>
    change history.Sublist (history ++ [])
    rw [List.append_nil]

theorem requestsOf_cons (event : HostEvent) (events : List HostEvent) :
    requestsOf (event :: events) = requestsOf [event] ++ requestsOf events := by
  cases event <;> rfl

theorem foldl_surviving_sublist (config : StoreConfig) (events : List HostEvent)
    (history : List Request) :
    (events.foldl (surviving config) history).Sublist (history ++ requestsOf events) := by
  induction events generalizing history with
  | nil => exact List.sublist_append_left _ _
  | cons event events ih =>
    rw [requestsOf_cons, ← List.append_assoc]
    exact (ih _).trans ((surviving_begins config history event).append_right _)

/-- Crashes that lose nothing leave the whole history. -/
theorem foldl_surviving_lossless (config : StoreConfig) {events : List HostEvent}
    (hlost : ∀ lost, .crash lost ∈ events → lost = 0) (history : List Request) :
    events.foldl (surviving config) history = history ++ requestsOf events := by
  induction events generalizing history with
  | nil => exact (List.append_nil _).symm
  | cons event events ih =>
    rw [List.foldl_cons, ih (fun lost hmem => hlost lost (List.mem_cons_of_mem _ hmem)),
      requestsOf_cons, ← List.append_assoc]
    congr 1
    cases event with
    | handle request => rfl
    | crash lost =>
      obtain rfl := hlost lost List.mem_cons_self
      rw [surviving, Nat.sub_zero, survived_all history _ (Nat.le_refl (recordBytes config history).length)]
      exact (List.append_nil _).symm
    | start envs => exact (List.append_nil _).symm

theorem Host.holds_step
    (hconfig : config.maxMemoryBytes = none ∨ config.evictionPolicy = .noEviction) :
    Tracks (Host.step config) (surviving config) HostEvent.Plain (Host.Holds config) := by
  intro history host event next h hgood hstep
  obtain ⟨hplain, hhost⟩ := h
  cases host with
  | running state =>
    cases event with
    | handle request =>
      cases hstep
      refine ⟨fun other hmem => ?_, hhost.request hconfig hgood.1 hgood.2⟩
      rcases List.mem_append.mp hmem with hold | hnew
      · exact hplain other hold
      · rw [List.mem_singleton.mp hnew]
        exact hgood.1
    | crash lost =>
      cases hstep
      refine ⟨fun other hmem => hplain other ((survived_begins _ _ _).subset hmem), ?_⟩
      simp only [hhost.log, Option.map_some]
      exact remains_cut config history (Nat.sub_le _ _)
    | start envs => cases hstep
  | down file =>
    cases event with
    | handle request => cases hstep
    | crash lost => cases hstep
    | start envs =>
      refine ⟨hplain, ?_⟩
      obtain ⟨torn, hremains⟩ := hhost
      simp only [Host.step, startup] at hstep
      by_cases htorn : torn = []
      · subst htorn
        obtain ⟨count, store, hreplay, hrecorded⟩ := hremains.replay_whole hconfig hplain envs
        rw [hreplay] at hstep
        cases hstep
        exact hrecorded
      · obtain ⟨error, store, hreplay⟩ := hremains.replay_fails htorn envs
        rw [hreplay] at hstep
        cases hstep
        exact ⟨torn, hremains⟩

end

/-- **Recovery.**  As long as no append fails, and however often the server crashes, with
    whatever part of the last bytes of its file lost, and is started again: while it runs, its
    store and its log are those of a server that was asked the surviving requests and no
    others, in their order; after a crash its file holds the records of these and perhaps a
    beginning of one more, and it starts if and only if there is none.  If no bytes are lost,
    all requests survive. -/
theorem recovers_history (config : StoreConfig)
    (hconfig : config.maxMemoryBytes = none ∨ config.evictionPolicy = .noEviction)
    (events : List HostEvent) (hplain : ∀ event ∈ events, event.Plain) {host : Host}
    (hrun : run (Host.step config) events (.down none) = some host) :
    let live := (serve (survivors config events) (.initial config)).2
    (∀ state, host = .running state → state.aof = live.aof ∧
      state.store.entries = live.store.entries ∧ state.store.config = live.store.config) ∧
    (∀ file, host = .down file → ∃ torn, «open» file = live.aof.getD [] ++ torn ∧
      ∀ envs, (startup .unlimited envs config (some file)).isOk = true ↔ torn = []) ∧
    (survivors config events).Sublist (requestsOf events) ∧
    ((∀ lost, .crash lost ∈ events → lost = 0) → survivors config events = requestsOf events) := by
  intro live
  have hsublist := foldl_surviving_sublist config events []
  rw [List.nil_append] at hsublist
  have hwritten : ∀ request ∈ survivors config events, request.outcome = .written := by
    intro request hmem
    obtain ⟨event, hevent, hsome⟩ := List.mem_filterMap.mp (hsublist.subset hmem)
    cases event with
    | handle other =>
      cases hsome
      exact (hplain _ hevent).2
    | crash lost => cases hsome
    | start envs => cases hsome
  have hlive : live = ⟨runStore (survivors config events) (.withConfig config),
      some (recordBytes config (survivors config events))⟩ := by
    simp only [live, ServerState.initial, serve_written hwritten, List.nil_append, recordBytes]
  have hfresh : Host.Holds config [] (.down none) :=
    ⟨fun _ hmem => (List.not_mem_nil hmem).elim, [], rfl, Or.inl rfl⟩
  obtain ⟨hexpiry, hhost⟩ := Tracks.run (Host.holds_step hconfig) hfresh hplain hrun
  refine ⟨?_, ?_, hsublist, fun hlost => ?_⟩
  · rintro state rfl
    rw [hlive]
    refine ⟨hhost.log, hhost.entries, ?_⟩
    rw [hhost.config, runStore_config]
    rfl
  · rintro file rfl
    obtain ⟨torn, hremains⟩ := hhost
    refine ⟨torn, by rw [hlive]; exact hremains.file, fun envs => ?_⟩
    simp only [startup]
    by_cases htorn : torn = []
    · subst htorn
      obtain ⟨count, store, hreplay, -⟩ := hremains.replay_whole hconfig hexpiry envs
      rw [hreplay]
      exact iff_of_true rfl rfl
    · obtain ⟨error, store, hreplay⟩ := hremains.replay_fails htorn envs
      rw [hreplay]
      exact iff_of_false Bool.false_ne_true htorn
  · exact foldl_surviving_lossless config hlost []

/-- Two writes, a crash and a restart. -/
def crashes (lost : Nat) : List HostEvent := [
  .start fun _ => .at 0 0,
  .handle (clientRequest "SET" [utf8 "a", [1]] (.at 1 0)),
  .handle (clientRequest "SET" [utf8 "b", [2]] (.at 2 0)),
  .crash lost,
  .start fun _ => .at 3 0]

theorem crashes_plain (lost : Nat) : ∀ event ∈ crashes lost, event.Plain := by
  intro event hevent
  simp only [crashes, List.mem_cons, List.not_mem_nil, or_false] at hevent
  rcases hevent with rfl | rfl | rfl | rfl | rfl
  · trivial
  · exact ⟨by decide +kernel, rfl⟩
  · exact ⟨by decide +kernel, rfl⟩
  · trivial
  · trivial

/-- The crash loses the record of the second write: the server starts with the first. -/
theorem recovers_history_crashed :
    ∃ state, run (Host.step .default) (crashes 27) (.down none) = some (.running state) ∧
      (survivors .default (crashes 27)).length = 1 ∧
      state.aof = (serve (survivors .default (crashes 27)) (.initial .default)).2.aof ∧
      state.store.entries =
        (serve (survivors .default (crashes 27)) (.initial .default)).2.store.entries ∧
      (survivors .default (crashes 27)).Sublist (requestsOf (crashes 27)) := by
  have hrunning : ((run (Host.step .default) (crashes 27) (.down none)).bind Host.serving).isSome =
      true := by
    decide +kernel
  obtain ⟨state, hstate⟩ := Option.isSome_iff_exists.mp hrunning
  obtain ⟨host, hrun, hhost⟩ := Option.bind_eq_some_iff.mp hstate
  cases host with
  | down file => cases hhost
  | running state' =>
    cases hhost
    obtain ⟨hserving, -, hsublist, -⟩ :=
      recovers_history .default (Or.inl rfl) (crashes 27) (crashes_plain 27) hrun
    obtain ⟨hlog, hentries, -⟩ := hserving state rfl
    exact ⟨state, hrun, by decide +kernel, hlog, hentries, hsublist⟩

end AerugoCache.Replay
