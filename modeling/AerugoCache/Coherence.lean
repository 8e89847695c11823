import AerugoCache.RefusedWrites

/-!
# Evictions forget, and never lie

Next to a server without a limit that gets the accepted requests, a server with a limit has
the same under a key, or nothing.  So what it answers about a key is what the other answers,
or what a server answers that has never heard of the key.  Pushes are apart: on a list that
was evicted they start another one.
-/

namespace AerugoCache.Storage

/-- The first cell shows what the second one does, or nothing. -/
def OrGone (start : SystemTime) (cell cell' : Option Entry) : Prop :=
  visible start cell = none ∨ visible start cell = visible start cell'

theorem OrGone.later {start now : SystemTime} (hlater : start ≤ now) {cell cell' : Option Entry}
    (h : OrGone start cell cell') : OrGone now cell cell' := by
  rw [OrGone, ← visible_later hlater cell, ← visible_later hlater cell']
  rcases h with hgone | hsame
  · left
    rw [hgone, visible_none]
  · right
    rw [hsame]

/-- Where nothing shows, an act that is no push makes nothing, or what it makes of any cell. -/
theorem KeyAct.cell_of_gone {act : KeyAct} (hpush : ∀ side values, act ≠ .push side values)
    {start now : SystemTime} (hlater : start ≤ now) {cell : Option Entry}
    (h : visible start cell = none) (cell' : Option Entry) :
    visible start (act.cell now cell) = none ∨ act.cell now cell = act.cell now cell' := by
  have hcell : visible now cell = none := by rw [← visible_later hlater, h, visible_none]
  cases act with
  | pass => exact Or.inl h
  | put value | drop => exact Or.inr rfl
  | push side values => exact absurd rfl (hpush side values)
  | look | undate | pop side =>
    rw [KeyAct.cell_of_ne_pass KeyAct.noConfusion, hcell]
    exact Or.inl rfl
  | date deadline =>
    rw [KeyAct.cell_of_ne_pass KeyAct.noConfusion, hcell]
    left
    simp only [KeyAct.update, expireCell]
    split <;> rfl

theorem OrGone.cell {act : KeyAct} (hpush : ∀ side values, act ≠ .push side values)
    {start now : SystemTime} (hlater : start ≤ now) {cell cell' : Option Entry}
    (h : OrGone start cell cell') : OrGone start (act.cell now cell) (act.cell now cell') := by
  rcases h with hgone | hsame
  · rcases KeyAct.cell_of_gone hpush hlater hgone cell' with hnone | hequal
    · exact Or.inl hnone
    · exact Or.inr (congrArg (visible start) hequal)
  · exact Or.inr (KeyAct.cell_congr hlater act hsame)

end AerugoCache.Storage

namespace AerugoCache.Server

open AerugoCache.ByteText AerugoCache.KeyedMap AerugoCache.Protocol AerugoCache.Storage
  AerugoCache.Commands AerugoCache.Persistence

def Command.isPush : Command → Bool
  | .lpush _ _ | .rpush _ _ => true
  | _ => false

/-- The request is an `LPUSH` or an `RPUSH`. -/
def Request.isPush (request : Request) : Bool :=
  match Command.fromFrame request.frame with
  | .ok command => Command.isPush command
  | .error _ => false

/-- The request touches no other key than this one. -/
def Request.About (key : String) (request : Request) : Prop :=
  ∀ other, requestAct other request ≠ .pass → other = key

/-- The server with nothing in its store. -/
def ServerState.emptied (state : ServerState) : ServerState :=
  { state with store := .withConfig .default }

theorem requestAct_ne_push {request : Request} (h : Request.isPush request = false)
    (key : String) (side : Side) (values : List Bytes) :
    requestAct key request ≠ .push side values := by
  unfold Request.isPush at h
  unfold requestAct
  generalize Command.fromFrame request.frame = parsed at h ⊢
  rcases parsed with error | command
  · exact KeyAct.noConfusion
  · cases command with
    | lpush | rpush => cases h
    | ping | echo | dbSize | info | aerugoStats => exact KeyAct.noConfusion
    | _ =>
      simp only [Command.storeOp, StoreOp.act]
      split <;> exact KeyAct.noConfusion

/-! ### Beside a server without a limit -/

/-- Under each key the limited server shows what the other one shows, or nothing. -/
structure Below (start : SystemTime) (limited full : ServerState) : Prop where
  unlimited : full.store.config.maxMemoryBytes = none
  shown : ∀ key, OrGone start (limited.store.entries.lookup key) (full.store.entries.lookup key)
  logging : limited.aof.isSome = full.aof.isSome

theorem Below.refused {start : SystemTime} {limited full : ServerState}
    (h : Below start limited full) {request : Request} (hlater : start ≤ request.env.clock.now)
    (hrefused : Server.refused request limited.store = true) :
    Below request.env.clock.now (handleRequest request limited).2 full := by
  obtain ⟨-, hnext, hshown⟩ := handleRequest_refused hrefused
  rw [hnext]
  refine ⟨h.unlimited, fun key => ?_, h.logging⟩
  have hkey := (h.shown key).later hlater
  rwa [OrGone, ← hshown key] at hkey

theorem Below.accepted {start : SystemTime} {limited full : ServerState}
    (h : Below start limited full) {request : Request} (hpush : Request.isPush request = false)
    (hlater : start ≤ request.env.clock.now)
    (haccepted : Request.Admitted request limited.store) :
    Below start (handleRequest request limited).2 (handleRequest request full).2 := by
  refine ⟨?_, fun key => ?_, ?_⟩
  · rw [handleRequest_store, executeRequest_config, h.unlimited]
  · rw [handleRequest_store, handleRequest_store, lookup_accepted haccepted,
      lookup_executeRequest h.unlimited]
    split
    · exact Or.inl rfl
    · exact (h.shown key).cell (requestAct_ne_push hpush key) hlater
  · rw [handleRequest_isSome, handleRequest_isSome, h.logging]

/-- What a request about one key is answered depends on what the server shows there. -/
theorem Below.reply {start : SystemTime} {limited full : ServerState}
    (h : Below start limited full) {request : Request} (hplain : Request.Plain request)
    (hlater : start ≤ request.env.clock.now)
    (haccepted : Request.Admitted request limited.store) {empty : ServerState}
    (hempty : empty.store = .withConfig .default)
    (hlogging : limited.aof.isSome = empty.aof.isSome) {key : String}
    (hkey : Request.About key request) :
    (handleRequest request limited).1 = (handleRequest request full).1 ∨
      (handleRequest request limited).1 = (handleRequest request empty).1 := by
  have hsame : ∀ state : ServerState, state.store.config.maxMemoryBytes = none →
      limited.aof.isSome = state.aof.isSome →
      visible request.env.clock.now (limited.store.entries.lookup key) =
        visible request.env.clock.now (state.store.entries.lookup key) →
      (handleRequest request limited).1 = (handleRequest request state).1 := by
    intro state hlimit hlogging hshown
    refine handleRequest_reply (executeRequest_result hplain ?_ haccepted
      fun command _ => admitted_of_unlimited hlimit command _) hlogging
    intro command op hcommand hop other hact
    obtain rfl : other = key :=
      hkey other (by rw [requestAct, hcommand]; simpa only [hop] using hact)
    exact hshown.symm
  rcases (h.shown key).later hlater with hgone | hshown
  · exact Or.inr (hsame empty (by rw [hempty]; rfl) hlogging (by rw [hempty]; exact hgone))
  · exact Or.inl (hsame full h.unlimited h.logging hshown)

theorem Below.later {start now : SystemTime} {limited full : ServerState}
    (h : Below start limited full) (hlater : start ≤ now) : Below now limited full :=
  ⟨h.unlimited, fun key => (h.shown key).later hlater, h.logging⟩

theorem Below.serve {start : SystemTime} {limited full : ServerState}
    (h : Below start limited full) {requests : List Request}
    (hplain : ∀ request ∈ requests, Request.Plain request ∧ Request.isPush request = false)
    (htime : (start :: requests.map fun request => request.env.clock.now).Pairwise (· ≤ ·))
    {empty : ServerState} (hempty : empty.store = .withConfig .default)
    (hlogging : limited.aof.isSome = empty.aof.isSome) :
    (∀ (index : Nat) request reply key, requests[index]? = some request →
      (Server.serve requests limited).1[index]? = some reply → Request.About key request →
      (withRefusals requests limited.store
          (Server.serve (Server.accepted requests limited.store) full).1)[index]? = some reply ∨
        reply = (handleRequest request empty).1) ∧
      ∀ now, start ≤ now → (∀ request ∈ requests, request.env.clock.now ≤ now) →
        Below now (Server.serve requests limited).2
          (Server.serve (Server.accepted requests limited.store) full).2 := by
  induction requests generalizing start limited full with
  | nil =>
    refine ⟨fun index request reply key hrequest => ?_, fun now hnow _ => h.later hnow⟩
    cases hrequest
  | cons first requests ih =>
    obtain ⟨hstart, htime⟩ := List.pairwise_cons.mp htime
    have hlater := hstart _ List.mem_cons_self
    obtain ⟨hfirst, hpush⟩ := hplain first List.mem_cons_self
    have hplain' : ∀ other ∈ requests, Request.Plain other ∧ Request.isPush other = false :=
      fun other hother => hplain other (List.mem_cons_of_mem _ hother)
    have hlogging' : (handleRequest first limited).2.aof.isSome = empty.aof.isSome := by
      rw [handleRequest_isSome, hlogging]
    by_cases hrefused : Server.refused first limited.store = true
    · obtain ⟨hreplies, hfinal⟩ := ih (h.refused hlater hrefused) hplain' htime hlogging'
      rw [handleRequest_store] at hreplies hfinal
      simp only [Server.serve, Server.accepted, withRefusals, hrefused, if_true]
      refine ⟨fun index request reply key hrequest hreply hkey => ?_,
        fun now _ hlast => hfinal now (hlast _ List.mem_cons_self)
          fun other hother => hlast other (List.mem_cons_of_mem _ hother)⟩
      cases index with
      | zero =>
        rw [(handleRequest_refused hrefused).1] at hreply
        exact Or.inl hreply
      | succ index => exact hreplies index request reply key hrequest hreply hkey
    · have haccepted : Request.Admitted first limited.store := by
        rwa [refused_iff, not_not] at hrefused
      have hfrom : (start :: requests.map fun request => request.env.clock.now).Pairwise
          (· ≤ ·) := List.pairwise_cons.mpr
        ⟨fun now hnow => hstart now (List.mem_cons_of_mem _ hnow), htime.of_cons⟩
      obtain ⟨hreplies, hfinal⟩ := ih (h.accepted hpush hlater haccepted) hplain' hfrom hlogging'
      rw [handleRequest_store first limited] at hreplies hfinal
      simp only [Server.serve, Server.accepted, withRefusals, hrefused, Bool.false_eq_true,
        if_false, List.head?_cons, Option.toList_some, List.singleton_append, List.tail_cons]
      refine ⟨fun index request reply key hrequest hreply hkey => ?_,
        fun now hnow hlast => hfinal now hnow
          fun other hother => hlast other (List.mem_cons_of_mem _ hother)⟩
      cases index with
      | zero =>
        cases hrequest
        cases hreply
        rcases h.reply hfirst hlater haccepted hempty hlogging hkey with hsame | hgone
        · left
          rw [List.getElem?_cons_zero, hsame]
        · exact Or.inr hgone
      | succ index => exact hreplies index request reply key hrequest hreply hkey

/-- **Evictions forget, and never lie.**  Under any limit and either policy, whatever keys are
    picked: of requests with readings of the clock that do not go back, none of them a push or
    for the counters, every one about a single key is answered as by a server without a limit
    that gets the accepted requests, or as by one that has never heard of the key; and from
    the last reading on every key shows what it shows there, or nothing. -/
theorem evictions_never_lie (state : ServerState) (requests : List Request)
    (hplain : ∀ request ∈ requests, Request.Plain request ∧ Request.isPush request = false)
    (htime : (requests.map fun request => request.env.clock.now).Pairwise (· ≤ ·)) :
    let full := serve (accepted requests state.store) state.lifted
    (∀ (index : Nat) request reply key, requests[index]? = some request →
      (serve requests state).1[index]? = some reply → Request.About key request →
      (withRefusals requests state.store full.1)[index]? = some reply ∨
        reply = (handleRequest request state.emptied).1) ∧
      ∀ now, (∀ request ∈ requests, request.env.clock.now ≤ now) →
        ∀ key, OrGone now ((serve requests state).2.store.entries.lookup key)
          (full.2.store.entries.lookup key) := by
  have hbelow : ∀ start, Below start state state.lifted :=
    fun _ => ⟨rfl, fun key => Or.inr rfl, rfl⟩
  have hempty : state.emptied.store = .withConfig .default := rfl
  refine ⟨?_, fun now hnow => ?_⟩
  · obtain ⟨start, hfrom⟩ := exists_start htime
    exact ((hbelow start).serve hplain hfrom hempty rfl).1
  · obtain ⟨start, hstart, hfrom⟩ := exists_start_le htime now
    exact (((hbelow start).serve hplain hfrom hempty rfl).2 now hstart hnow).shown

def evictedGet : Request := clientRequest "GET" [utf8 "a"] (.at 3 0)

theorem about_evictedGet : Request.About "a" evictedGet := by
  have hparse : Command.fromFrame (commandFrame "GET" [utf8 "a"]) = .ok (.get "a") := by
    decide +kernel
  intro other hact
  by_contra hother
  exact hact (by simpa [requestAct, evictedGet, clientRequest, hparse, Command.storeOp,
    StoreOp.act] using hother)

/-- The key that was evicted is answered for as one that was never there. -/
theorem evictions_never_lie_crowded :
    ∃ reply, (serve crowdedRequests crowded).1[3]? = some reply ∧
      writeFrame reply = utf8 "$-1\r\n" ∧
      ((withRefusals crowdedRequests crowded.store
          (serve (accepted crowdedRequests crowded.store) crowded.lifted).1)[3]? = some reply ∨
        reply = (handleRequest evictedGet crowded.emptied).1) ∧
      OrGone 3 ((serve crowdedRequests crowded).2.store.entries.lookup "a")
        ((serve (accepted crowdedRequests crowded.store) crowded.lifted).2.store.entries.lookup
          "a") := by
  have hwritten : ((serve crowdedRequests crowded).1[3]?).map writeFrame =
      some (utf8 "$-1\r\n") := by
    decide +kernel
  obtain ⟨reply, hreply, hbytes⟩ := Option.map_eq_some_iff.mp hwritten
  obtain ⟨hreplies, hshown⟩ :=
    evictions_never_lie crowded crowdedRequests (by decide +kernel) (by decide)
  exact ⟨reply, hreply, hbytes, hreplies 3 evictedGet reply "a" rfl hreply about_evictedGet,
    hshown 3 (by decide) "a"⟩

end AerugoCache.Server
