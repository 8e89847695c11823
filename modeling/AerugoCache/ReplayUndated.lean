import AerugoCache.Replay

/-!
# Replay of a run without expiry commands

No entry ever gets a deadline, so the live store and the replay execute the same
effects and hold the same entries throughout: without a memory limit, under a limit
without eviction, and under random eviction as long as no eviction has a choice.
An eviction that has one is not in the log, and replay makes another choice.
-/

namespace AerugoCache.Replay

open AerugoCache.ByteText AerugoCache.KeyedMap AerugoCache.Protocol AerugoCache.Storage
  AerugoCache.Commands AerugoCache.Persistence AerugoCache.Server

/-- The request is an `EXPIRE` or an `EXPIREAT`. -/
def isExpiryRequest (request : Request) : Bool :=
  match Command.fromFrame request.frame with
  | .ok command => command.isExpiry
  | .error _ => false

/-- The eviction that a request may cause has no choice. -/
def ForcedRequest (request : Request) (store : MemoryStore) : Prop :=
  ∀ command, Command.fromFrame request.frame = .ok command →
    command.Forced store.config store.entries

theorem forcedRequest_of_noEviction {store : MemoryStore}
    (h : store.config.maxMemoryBytes = none ∨ store.config.evictionPolicy = .noEviction)
    (request : Request) : ForcedRequest request store :=
  fun command _ => command.forced_of_noEviction h store.entries

/-! ### One request -/

theorem isExpiry_of_request {request : Request} (h : isExpiryRequest request = false)
    {command : Command} (hparse : Command.fromFrame request.frame = .ok command) :
    command.isExpiry = false := by
  simpa [isExpiryRequest, hparse] using h

theorem replayed_of_isExpiry_false {command : Command} (h : command.isExpiry = false)
    (clock : Clock) : command.replayed clock = command := by
  cases command with
  | expire => cases h
  | _ => rfl

/-- A request without a record leaves the map as it is. -/
theorem unlogged_entries {request : Request} {store : MemoryStore}
    (hundated : Undated store.entries) (hplain : isExpiryRequest request = false)
    (hforced : ForcedRequest request store) (hlogged : loggedCommand request store = none) :
    (nextStore request store).entries = store.entries := by
  rcases loggedCommand_none hlogged with hsame | ⟨command, hparse, hnext, hfailed⟩
  · rw [hsame]
  · rw [hnext]
    cases hrecord : command.toAofFrame request.env.clock with
    | none => exact execute_unlogged hundated hrecord request.env
    | some frame =>
      have hrefines := execute_refines hundated (isExpiry_of_request hplain hparse)
        (hforced command hparse) (Option.isSome_of_eq_some hrecord) request.env
      have hfail : (command.execute request.env store).1.isOk = false := by
        simpa [hrecord] using hfailed
      unfold Refines at hrefines
      split at hrefines
      · rw [hfail] at hrefines
        cases hrefines.1
      · exact hrefines.2

/-- A request with a record has the effect of the command it logs. -/
theorem logged_effect {request : Request} {store : MemoryStore} {logged : Command}
    (hundated : Undated store.entries) (hplain : isExpiryRequest request = false)
    (hforced : ForcedRequest request store) (hlogged : loggedCommand request store = some logged) :
    logged.Replayable ∧ logged.Forced store.config store.entries ∧
      logged.effect store.config store.entries = some (nextStore request store).entries := by
  obtain ⟨command, hparse, hok, hrecord, rfl, hnext⟩ := loggedCommand_some hlogged
  have hexpiry := isExpiry_of_request hplain hparse
  rw [replayed_of_isExpiry_false hexpiry, hnext]
  have hlive := execute_refines hundated hexpiry (hforced command hparse) hrecord request.env
  refine ⟨⟨hexpiry, _, hrecord⟩, hforced command hparse, ?_⟩
  unfold Refines at hlive
  split at hlive
  · rename_i after heffect
    rw [heffect, hlive.2]
  · have hfail := hlive.1
    rw [hok] at hfail
    cases hfail

/-! ### The live store and the replayed one -/

/-- The replayed store has the entries of the live store, and every record so far was
    accepted. -/
structure Reproduced (live : MemoryStore) (round count : Nat) (replayed : MemoryStore) : Prop where
  config : replayed.config = live.config
  entries : replayed.entries = live.entries
  undated : Undated live.entries
  accepted : count = round

theorem Reproduced.skip {request : Request} {live replayed : MemoryStore} {round count : Nat}
    (h : Reproduced live round count replayed) (hplain : isExpiryRequest request = false)
    (hforced : ForcedRequest request live) (hlogged : loggedCommand request live = none) :
    Reproduced (nextStore request live) round count replayed := by
  have hentries := unlogged_entries h.undated hplain hforced hlogged
  constructor
  · rw [nextStore_config, h.config]
  · rw [hentries, h.entries]
  · rw [hentries]
    exact h.undated
  · exact h.accepted

theorem Reproduced.log {request : Request} {live replayed : MemoryStore} {round count : Nat}
    {logged : Command} (h : Reproduced live round count replayed)
    (hplain : isExpiryRequest request = false) (hforced : ForcedRequest request live)
    (hlogged : loggedCommand request live = some logged) (env : Env) :
    Reproduced (nextStore request live) (round + 1)
      (if (logged.execute env replayed).1.isOk then count + 1 else count)
      (logged.execute env replayed).2 := by
  obtain ⟨⟨hexpiry, clock, hrecord⟩, hforced, heffect⟩ :=
    logged_effect h.undated hplain hforced hlogged
  have hundated : Undated replayed.entries := by
    rw [h.entries]
    exact h.undated
  rw [← h.config, ← h.entries] at hforced
  have hreplay := execute_refines hundated hexpiry hforced hrecord env
  rw [h.config, h.entries, heffect] at hreplay
  obtain ⟨hok, hentries⟩ := hreplay
  constructor
  · rw [execute_config, nextStore_config, h.config]
  · exact hentries
  · exact effect_undated h.undated heffect
  · rw [if_pos hok, h.accepted]

/-! ### Runs -/

/-- A key that an eviction took out of the live store and no request has written
    since.  Without expiry commands a write takes out another key only by eviction. -/
def evictedUnwritten (history : String → Bool) (request : Request) (store : MemoryStore) :
    String → Bool :=
  let isWrite := match Command.fromFrame request.frame with
    | .ok (.set _ _) | .ok (.lpush _ _) | .ok (.rpush _ _) => true
    | _ => false
  fun key => ((nextStore request store).entries.lookup key).isNone &&
    (history key || ((store.entries.lookup key).isSome && isWrite))

/-- A run in which no eviction has a choice. -/
def ForcedRun (requests : List Request) (store : MemoryStore) : Prop :=
  Along evictedUnwritten (fun _ => ForcedRequest) (fun _ => false) requests store

theorem forcedRun_of_noEviction (requests : List Request) {store : MemoryStore}
    (h : store.config.maxMemoryBytes = none ∨ store.config.evictionPolicy = .noEviction)
    (history : String → Bool) :
    Along evictedUnwritten (fun _ => ForcedRequest) history requests store := by
  induction requests generalizing store history with
  | nil => trivial
  | cons request requests ih =>
    exact ⟨forcedRequest_of_noEviction h request, ih (by rwa [nextStore_config]) _⟩

theorem historyAfter_evictedUnwritten (requests : List Request) {store : MemoryStore}
    {history : String → Bool}
    (h : ∀ key, history key = true → store.entries.lookup key = none) {key : String}
    (hkey : historyAfter evictedUnwritten history requests store key = true) :
    (runStore requests store).entries.lookup key = none := by
  induction requests generalizing history store with
  | nil => exact h key hkey
  | cons request requests ih =>
    refine ih ?_ hkey
    intro k hk
    simp only [evictedUnwritten, Bool.and_eq_true, Option.isNone_iff_eq_none] at hk
    exact hk.1

theorem reproduced_run {config : StoreConfig} {requests : List Request}
    (hplain : ∀ request ∈ requests, isExpiryRequest request = false)
    (hforced : ForcedRun requests (.withConfig config)) (envs : Nat → Env) :
    Reproduced (runStore requests (.withConfig config))
      (loggedCommands requests (.withConfig config)).length
      (replayCommands envs (loggedCommands requests (.withConfig config)) 0 0
        (.withConfig config)).1
      (replayCommands envs (loggedCommands requests (.withConfig config)) 0 0
        (.withConfig config)).2 := by
  have hstart : Reproduced (.withConfig config) 0 0 (.withConfig config) :=
    ⟨rfl, rfl, undated_empty, rfl⟩
  have hrun := lockstep evictedUnwritten
    (fun _ live round count replayed => Reproduced live round count replayed) envs
    (fun h hgood hlogged => h.skip hgood.1 hgood.2 hlogged)
    (fun h hgood hlogged => h.log hgood.1 hgood.2 hlogged (envs _))
    hstart (hforced.and_mem evictedUnwritten hplain)
  rwa [Nat.zero_add] at hrun

/-- **Replay reproduces the store.**  Without expiry commands, and without a limit or
    under a limit without eviction, the log holds the records of the appends, and
    replay executes all of them and ends with the entries of the live store. -/
theorem replay_reproduces (config : StoreConfig)
    (hconfig : config.maxMemoryBytes = none ∨ config.evictionPolicy = .noEviction)
    (requests : List Request) (hplain : ∀ request ∈ requests, isExpiryRequest request = false)
    (hwritten : ∀ request ∈ requests, request.outcome = .written) (envs : Nat → Env) :
    let live := (serve requests (.initial config)).2
    let appended := appendedFrames requests (.withConfig config)
    let result := replay .unlimited envs live.aof (.withConfig config)
    live.aof = some (appended.flatMap writeFrame) ∧ result.1 = .ok appended.length ∧
      result.2.entries = live.store.entries := by
  intro live appended result
  have hforced : ForcedRun requests (.withConfig config) :=
    forcedRun_of_noEviction requests hconfig _
  have hrun := reproduced_run hplain hforced envs
  have hresult := replay_serve hwritten config envs (.withConfig config)
  refine ⟨?_, ?_, ?_⟩
  · simp only [live, ServerState.initial, serve_written hwritten, List.nil_append, appended]
  · simp only [result, live, hresult, hrun.accepted, length_loggedCommands, appended]
  · simp only [result, live, hresult, hrun.entries, serve_store hwritten]

/-- A run with a write of each kind, a wrong type, a wrong arity and an unknown name. -/
def mixedRequests : List Request := [
  clientRequest "SET" [utf8 "k", [1, 2]] (.at 3 0),
  clientRequest "rpush" [utf8 "list", [7], [8]] (.at 4 0),
  clientRequest "LPUSH" [utf8 "k", [9]] (.at 5 0),
  clientRequest "LPOP" [utf8 "list"] (.at 6 0),
  clientRequest "GET" [] (.at 7 0),
  clientRequest "NOPE" [] (.at 8 0)]

theorem replay_reproduces_mixed :
    (replay .unlimited (fun _ => .at 9 0)
        (serve mixedRequests (.initial .default)).2.aof (.withConfig .default)).2.entries =
      (serve mixedRequests (.initial .default)).2.store.entries :=
  (replay_reproduces .default (Or.inl rfl) mixedRequests (by decide +kernel) (by decide)
    fun _ => .at 9 0).2.2

/-! ### Random eviction -/

/-- **Replay under eviction.**  While no eviction has a choice, replay ends with the
    entries of the live store, whatever either of them picked: every key present has
    the live value, and no evicted key is back. -/
theorem replay_agrees_of_forced (config : StoreConfig) (requests : List Request)
    (hplain : ∀ request ∈ requests, isExpiryRequest request = false)
    (hwritten : ∀ request ∈ requests, request.outcome = .written)
    (hforced : ForcedRun requests (.withConfig config)) (envs : Nat → Env) :
    let live := (serve requests (.initial config)).2
    let replayed := (replay .unlimited envs live.aof (.withConfig config)).2
    (∀ key entry, replayed.entries.lookup key = some entry →
        live.store.entries.lookup key = some entry) ∧
      ∀ key, historyAfter evictedUnwritten (fun _ => false) requests (.withConfig config) key →
        replayed.entries.lookup key = none := by
  intro live replayed
  have hentries : replayed.entries = live.store.entries := by
    simp only [replayed, live, replay_serve hwritten, (reproduced_run hplain hforced envs).entries,
      serve_store hwritten]
  rw [hentries]
  refine ⟨fun _ _ h => h, fun key hkey => ?_⟩
  simp only [live, serve_store hwritten]
  exact historyAfter_evictedUnwritten requests (fun _ h => by cases h) hkey

/-- Room for one of two entries. -/
def tightConfig : StoreConfig := ⟨some 100, .allKeysRandom⟩

def tightRequests : List Request := [
  clientRequest "SET" [utf8 "a", [1]] (.at 0 0),
  clientRequest "SET" [utf8 "b", [2]] (.at 1 0)]

/-- Every entry costs its overhead. -/
theorem forcedWrite_of_cost {config : StoreConfig} {entries : Entries} {key : String}
    {entry : Entry} (h : ∀ maxMemoryBytes, config.maxMemoryBytes = some maxMemoryBytes →
      maxMemoryBytes < entryEstimatedMemoryBytes key entry + ENTRY_OVERHEAD_BYTES) :
    ForcedWrite config entries key entry := by
  intro maxMemoryBytes hmax _ _ other otherEntry _ _
  have hover := h maxMemoryBytes hmax
  have hother : entryEstimatedMemoryBytes other otherEntry =
      ENTRY_OVERHEAD_BYTES + other.utf8ByteSize + otherEntry.value.estimatedMemoryBytes := rfl
  omega

theorem replay_agrees_tight :
    (replay .unlimited (fun _ => .at 9 1) (serve tightRequests (.initial tightConfig)).2.aof
        (.withConfig tightConfig)).2.entries.lookup "a" = none := by
  have hforced : ForcedRun tightRequests (.withConfig tightConfig) := by
    refine ⟨?_, ?_, trivial⟩
    · intro command hparse
      obtain rfl : Command.set "a" [1] = command := Except.ok.inj hparse
      exact forcedWrite_of_cost (by rintro _ ⟨⟩; decide)
    · intro command hparse
      obtain rfl : Command.set "b" [2] = command := Except.ok.inj hparse
      exact forcedWrite_of_cost (by rw [nextStore_config]; rintro _ ⟨⟩; decide)
  exact (replay_agrees_of_forced tightConfig tightRequests (by decide +kernel) (by decide) hforced
    fun _ => .at 9 1).2 "a" (by decide +kernel)

/-! Three writes of which two fit.  The live store evicts one key for the third write,
replay evicts the other for the record of it. -/

def roomyConfig : StoreConfig := ⟨some 140, .allKeysRandom⟩

def roomyRequests : List Request := [
  clientRequest "SET" [utf8 "a", [1]] (.at 0 0),
  clientRequest "SET" [utf8 "b", [2]] (.at 1 0),
  clientRequest "SET" [utf8 "c", [3]] (.at 2 0)]

theorem replay_restores_evicted :
    historyAfter evictedUnwritten (fun _ => false) roomyRequests (.withConfig roomyConfig) "a" ∧
      (replay .unlimited (fun _ => .at 9 1) (serve roomyRequests (.initial roomyConfig)).2.aof
        (.withConfig roomyConfig)).2.entries.lookup "a" =
      some { value := .string [1], expiresAt := none } := by
  decide +kernel

end AerugoCache.Replay
