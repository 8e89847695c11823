import AerugoCache.Refusals

/-!
# What an eviction does to a server

To evict a key is to delete it: a server with a memory limit is like one without that does
not get the refused writes and, after each write, gets a `DEL` of the keys that the write
evicts.  As long as no list is pushed to, nothing stale comes of it: a key has the value
that it has where nothing is evicted, or it is gone.
-/

namespace AerugoCache.Storage

open AerugoCache.ByteText AerugoCache.KeyedMap

/-- The keys that the write of an operation evicts. -/
def StoreOp.victims (op : StoreOp) (env : OpEnv) (store : MemoryStore) : List String :=
  match op.written env store with
  | some (key, entry) =>
      match (enforceMemoryLimit (store.entries.insert key entry) store.config (some key)
          env.picks).1 with
      | .ok evicted => evicted.map Prod.fst
      | .error _ => []
  | none => []

theorem Evicted.lookup_eq {original current : Entries} {protectedKey : Option String}
    {evicted : List (String × Entry)} (h : Evicted original protectedKey current evicted)
    (k : String) :
    current.lookup k = if k ∈ evicted.map Prod.fst then none else original.lookup k := by
  split
  · rename_i hk
    obtain ⟨victim, hvictim, rfl⟩ := List.mem_map.mp hk
    exact Finmap.lookup_eq_none.mpr (h.gone victim hvictim)
  · rename_i hk
    rw [← h.restored, lookup_restoreEvicted]
    rintro victim hvictim rfl
    exact hk (List.mem_map_of_mem hvictim)

/-- An admitted step acts on every key, and evicts. -/
theorem StoreOp.lookup_victims {op : StoreOp} {env : OpEnv} {store : MemoryStore}
    (h : op.Admitted env store) (k : String) :
    (op.run env store).2.entries.lookup k =
      if k ∈ op.victims env store then none
      else (op.act env k).cell env.now (store.entries.lookup k) := by
  unfold StoreOp.victims
  rcases hwritten : op.written env store with _ | ⟨key, entry⟩
  · exact StoreOp.lookup_of_not_written hwritten k
  · have hok := (store.commitWrite_result env.picks key (visible env.now
      (store.entries.lookup key)) entry).1 (h key entry hwritten)
    rw [(StoreOp.run_of_written hwritten).1, (StoreOp.cell_of_written hwritten k).2]
    rcases henforce : enforceMemoryLimit (store.entries.insert key entry) store.config (some key)
      env.picks with ⟨error | evicted, after⟩
    · rw [MemoryStore.commitWrite, henforce] at hok
      cases hok
    · simp only [MemoryStore.commitWrite, henforce, MemoryStore.recordEvicted_entries,
        MemoryStore.withEntries_entries]
      exact (enforceMemoryLimit_ok henforce).1.lookup_eq k

end AerugoCache.Storage

namespace AerugoCache.Server

open AerugoCache.ByteText AerugoCache.KeyedMap AerugoCache.Protocol AerugoCache.Storage
  AerugoCache.Commands AerugoCache.Persistence

/-! ### The keys that a request evicts -/

def evictedKeys (request : Request) (store : MemoryStore) : List String :=
  match Command.fromFrame request.frame with
  | .ok command =>
      match command.storeOp with
      | some op => op.victims request.env.opEnv store
      | none => []
  | .error _ => []

/-- The server after a `DEL` of the keys that is not in its log. -/
def ServerState.forget (now : SystemTime) (keys : List String) (state : ServerState) :
    ServerState :=
  { state with store := (state.store.del now keys).2 }

/-- A server without a limit that gets the requests that one with a limit accepts, each with
    a `DEL` of the keys that it evicts there; `store` is that of the limited server. -/
def mirrored : List Request → MemoryStore → ServerState → List Frame × ServerState
  | [], _, state => ([], state)
  | request :: requests, store, state =>
      let next := (executeRequest request store).2
      if refused request store then
        let (responses, state) := mirrored requests next state
        (Command.errorFrame .outOfMemory :: responses, state)
      else
        let (response, state) := handleRequest request state
        let (responses, state) := mirrored requests next
          (state.forget request.env.clock.now (evictedKeys request store))
        (response :: responses, state)

theorem lookup_accepted {request : Request} {store : MemoryStore}
    (h : Request.Admitted request store) (key : String) :
    (executeRequest request store).2.entries.lookup key =
      if key ∈ evictedKeys request store then none
      else (requestAct key request).cell request.env.clock.now (store.entries.lookup key) := by
  unfold requestAct evictedKeys
  simp only [executeRequest]
  rcases hcommand : Command.fromFrame request.frame with error | command
  · rfl
  · simp only [execute_store]
    cases hop : command.storeOp with
    | none => rfl
    | some op => exact StoreOp.lookup_victims (h command hcommand op hop) key

theorem lookup_forget (now : SystemTime) (keys : List String) (state : ServerState)
    (key : String) :
    (state.forget now keys).store.entries.lookup key =
      if key ∈ keys then none else state.store.entries.lookup key := by
  rw [ServerState.forget, MemoryStore.del_store, MemoryStore.withEntries_entries,
    lookup_foldl_erase]

/-! ### Eviction as deletion -/

/-- The server with its limit and the one without, to which evictions are deletions. -/
structure Mirrors (start : SystemTime) (limited full : ServerState) : Prop where
  unlimited : full.store.config.maxMemoryBytes = none
  shown : SameVisible start limited.store.entries full.store.entries
  logging : limited.aof = full.aof

theorem Mirrors.refused {start : SystemTime} {limited full : ServerState}
    (h : Mirrors start limited full) {request : Request}
    (hlater : start ≤ request.env.clock.now)
    (hrefused : Server.refused request limited.store = true) :
    Mirrors request.env.clock.now (handleRequest request limited).2 full := by
  obtain ⟨-, hnext, hshown⟩ := handleRequest_refused hrefused
  rw [hnext]
  exact ⟨h.unlimited, hshown.symm.trans (h.shown.later hlater), h.logging⟩

theorem Mirrors.accepted {start : SystemTime} {limited full : ServerState}
    (h : Mirrors start limited full) {request : Request} (hplain : Request.Plain request)
    (hlater : start ≤ request.env.clock.now)
    (haccepted : ¬ Server.refused request limited.store = true) :
    (handleRequest request limited).1 = (handleRequest request full).1 ∧
      Mirrors start (handleRequest request limited).2
        ((handleRequest request full).2.forget request.env.clock.now
          (evictedKeys request limited.store)) := by
  rw [refused_iff, not_not] at haccepted
  have hresult := executeRequest_result hplain
    (fun _ op _ _ => (h.shown.later hlater).findsSame op) haccepted
    fun command _ => admitted_of_unlimited h.unlimited command _
  obtain ⟨hreply, haof, hstore, hstore'⟩ := handleRequest_congr hresult h.logging
  refine ⟨hreply, ?_, fun key => ?_, haof⟩
  · rw [ServerState.forget, MemoryStore.del_store, hstore']
    exact (executeRequest_config request full.store).symm ▸ h.unlimited
  · rw [lookup_forget, hstore, hstore', lookup_accepted haccepted,
      lookup_executeRequest h.unlimited]
    split
    · rfl
    · exact KeyAct.cell_congr hlater _ (h.shown key)

theorem Mirrors.later {start now : SystemTime} {limited full : ServerState}
    (h : Mirrors start limited full) (hlater : start ≤ now) : Mirrors now limited full :=
  ⟨h.unlimited, h.shown.later hlater, h.logging⟩

theorem Mirrors.serve {start : SystemTime} {limited full : ServerState}
    (h : Mirrors start limited full) {requests : List Request}
    (hplain : ∀ request ∈ requests, Request.Plain request)
    (htime : (start :: requests.map fun request => request.env.clock.now).Pairwise (· ≤ ·)) :
    (Server.serve requests limited).1 = (mirrored requests limited.store full).1 ∧
      ∀ now, start ≤ now → (∀ request ∈ requests, request.env.clock.now ≤ now) →
        Mirrors now (Server.serve requests limited).2
          (mirrored requests limited.store full).2 := by
  induction requests generalizing start limited full with
  | nil => exact ⟨rfl, fun now hnow _ => h.later hnow⟩
  | cons request requests ih =>
    obtain ⟨hstart, htime⟩ := List.pairwise_cons.mp htime
    have hlater := hstart _ List.mem_cons_self
    have hplain' : ∀ other ∈ requests, Request.Plain other :=
      fun other hother => hplain other (List.mem_cons_of_mem _ hother)
    have hstore : (handleRequest request limited).2.store =
        (executeRequest request limited.store).2 := (handleRequest_congr rfl rfl).2.2.1
    by_cases hrefused : Server.refused request limited.store = true
    · obtain ⟨hreplies, hfinal⟩ := ih (h.refused hlater hrefused) hplain' htime
      rw [hstore] at hreplies hfinal
      simp only [Server.serve, mirrored, hrefused, if_true, hreplies,
        (handleRequest_refused hrefused).1]
      exact ⟨trivial, fun now _ hlast => hfinal now (hlast _ List.mem_cons_self)
        fun other hother => hlast other (List.mem_cons_of_mem _ hother)⟩
    · have hfrom : (start :: requests.map fun request => request.env.clock.now).Pairwise
          (· ≤ ·) := List.pairwise_cons.mpr
        ⟨fun now hnow => hstart now (List.mem_cons_of_mem _ hnow), htime.of_cons⟩
      obtain ⟨hreply, hnext⟩ := h.accepted (hplain request List.mem_cons_self) hlater hrefused
      obtain ⟨hreplies, hfinal⟩ := ih hnext hplain' hfrom
      rw [hstore] at hreplies hfinal
      simp only [Server.serve, mirrored, hrefused, Bool.false_eq_true, if_false, hreplies, hreply]
      exact ⟨trivial, fun now hnow hlast => hfinal now hnow
        fun other hother => hlast other (List.mem_cons_of_mem _ hother)⟩

/-- The servers mirror each other at every instant from the last reading on. -/
theorem mirrors_serve (state : ServerState) {requests : List Request}
    (hplain : ∀ request ∈ requests, Request.Plain request)
    (htime : (requests.map fun request => request.env.clock.now).Pairwise (· ≤ ·)) :
    (serve requests state).1 = (mirrored requests state.store state.lifted).1 ∧
      (serve requests state).2.aof = (mirrored requests state.store state.lifted).2.aof ∧
      ∀ now, (∀ request ∈ requests, request.env.clock.now ≤ now) →
        SameVisible now (serve requests state).2.store.entries
          (mirrored requests state.store state.lifted).2.store.entries := by
  have hmirrors : ∀ start, Mirrors start state state.lifted :=
    fun start => ⟨rfl, .refl start _, rfl⟩
  refine ⟨?_, ?_, fun now hnow => ?_⟩
  · obtain ⟨start, hfrom⟩ := exists_start htime
    exact ((hmirrors start).serve hplain hfrom).1
  · obtain ⟨start, hfrom⟩ := exists_start htime
    obtain ⟨finish, hstart, hfinish⟩ := exists_finish start
      (requests.map fun request => request.env.clock.now)
    exact (((hmirrors start).serve hplain hfrom).2 finish hstart
      fun request hrequest => hfinish _ (List.mem_map_of_mem hrequest)).logging
  · obtain ⟨start, hstart, hfrom⟩ := exists_start_le htime now
    exact (((hmirrors start).serve hplain hfrom).2 now hstart hnow).shown

/-- **Eviction is deletion.**  Under any limit and either policy, whatever keys are picked,
    requests with readings of the clock that do not go back, none of them for the counters, get
    the replies that a server without a limit gives if each write is followed by a `DEL` of
    the keys that it evicts, and the error for want of memory where they are refused.  The log
    is the same, and so is what the store shows from the last reading on. -/
theorem eviction_is_deletion (state : ServerState) (requests : List Request)
    (hplain : ∀ request ∈ requests, Request.Plain request)
    (htime : (requests.map fun request => request.env.clock.now).Pairwise (· ≤ ·)) :
    (serve requests state).1 = (mirrored requests state.store state.lifted).1 ∧
      (serve requests state).2.aof = (mirrored requests state.store state.lifted).2.aof ∧
      ∀ now, (∀ request ∈ requests, request.env.clock.now ≤ now) →
        SameVisible now (serve requests state).2.store.entries
          (mirrored requests state.store state.lifted).2.store.entries :=
  mirrors_serve state hplain htime

/-- Room for two small entries. -/
def crowded : ServerState := .initial ⟨some 140, .allKeysRandom⟩

def crowdedRequests : List Request := [
  clientRequest "SET" [utf8 "a", [1]] (.at 0 0),
  clientRequest "SET" [utf8 "b", [2]] (.at 1 0),
  clientRequest "SET" [utf8 "c", [3]] (.at 2 0),
  clientRequest "GET" [utf8 "a"] (.at 3 0)]

theorem eviction_is_deletion_crowded :
    evictedKeys (clientRequest "SET" [utf8 "c", [3]] (.at 2 0))
        (serve (crowdedRequests.take 2) crowded).2.store = ["a"] ∧
      (serve crowdedRequests crowded).1 =
        (mirrored crowdedRequests crowded.store crowded.lifted).1 ∧
      SameVisible 3 (serve crowdedRequests crowded).2.store.entries
        (mirrored crowdedRequests crowded.store crowded.lifted).2.store.entries := by
  obtain ⟨hreplies, -, hshown⟩ := eviction_is_deletion crowded crowdedRequests
    (by decide +kernel) (by decide)
  exact ⟨by decide +kernel, hreplies, hshown 3 (by decide)⟩

end AerugoCache.Server
