import AerugoCache.EvictedKeys

/-!
# Writes refused for want of memory

Under a limit with `noeviction` nothing is evicted, and a write that does not fit is refused.
It leaves no trace: the server answers every other request, logs it and goes on as a server
without a limit does that never got the refused ones.
-/

namespace AerugoCache.Server

open AerugoCache.ByteText AerugoCache.KeyedMap AerugoCache.Protocol AerugoCache.Storage
  AerugoCache.Commands AerugoCache.Persistence

/-- The requests that are not refused. -/
def accepted : List Request → MemoryStore → List Request
  | [], _ => []
  | request :: requests, store =>
      let rest := accepted requests (executeRequest request store).2
      if refused request store then rest else request :: rest

/-- The replies to requests, `replies` being those to the accepted ones. -/
def withRefusals : List Request → MemoryStore → List Frame → List Frame
  | [], _, _ => []
  | request :: requests, store, replies =>
      let next := (executeRequest request store).2
      if refused request store then
        Command.errorFrame .outOfMemory :: withRefusals requests next replies
      else replies.head?.toList ++ withRefusals requests next replies.tail

/-! ### Without eviction -/

theorem victims_of_noEviction {store : MemoryStore} (h : store.NoEviction) (op : StoreOp)
    (env : OpEnv) : op.victims env store = [] := by
  unfold StoreOp.victims
  cases op.written env store with
  | none => rfl
  | some written =>
    simp only [enforceMemoryLimit]
    cases hmax : store.config.maxMemoryBytes with
    | none => rfl
    | some maxMemoryBytes =>
      have hpolicy : store.config.evictionPolicy = .noEviction :=
        h.resolve_left (by simp [hmax])
      simp only [hpolicy]
      split
      · rename_i hevicted
        split at hevicted <;> cases hevicted
        rfl
      · rfl

theorem evictedKeys_of_noEviction {store : MemoryStore} (h : store.NoEviction)
    (request : Request) : evictedKeys request store = [] := by
  unfold evictedKeys
  rcases Command.fromFrame request.frame with error | command
  · rfl
  · simp only
    cases command.storeOp with
    | none => rfl
    | some op => exact victims_of_noEviction h op request.env.opEnv

theorem forget_nil (now : SystemTime) (state : ServerState) : state.forget now [] = state := by
  rw [ServerState.forget, MemoryStore.del_store]
  rfl

/-- Where nothing is evicted, the server without a limit gets the accepted requests. -/
theorem mirrored_of_noEviction (requests : List Request) {store : MemoryStore}
    (h : store.NoEviction) (state : ServerState) :
    mirrored requests store state =
      (withRefusals requests store (serve (accepted requests store) state).1,
        (serve (accepted requests store) state).2) := by
  induction requests generalizing store state with
  | nil => rfl
  | cons request requests ih =>
    have hnext : (executeRequest request store).2.NoEviction := by
      rw [MemoryStore.NoEviction, executeRequest_config]
      exact h
    by_cases hrefused : refused request store = true
    · simp only [mirrored, accepted, withRefusals, hrefused, if_true, ih hnext]
    · simp only [mirrored, accepted, withRefusals, hrefused, Bool.false_eq_true, if_false, ih hnext,
        evictedKeys_of_noEviction h, forget_nil, serve]
      rfl

/-- **Refused writes leave no trace.**  Under `noeviction`, requests with readings of the
    clock that do not go back, and none of them for the counters, are answered as a server
    without a limit answers those of them that are not refused, and the error for want of
    memory in between; the log is the same, and the store shows the same from the last
    reading on. -/
theorem refused_writes_traceless (state : ServerState)
    (hpolicy : state.store.config.evictionPolicy = .noEviction) (requests : List Request)
    (hplain : ∀ request ∈ requests, Request.Plain request)
    (htime : (requests.map fun request => request.env.clock.now).Pairwise (· ≤ ·)) :
    (serve requests state).1 = withRefusals requests state.store
        (serve (accepted requests state.store) state.lifted).1 ∧
      (serve requests state).2.aof =
        (serve (accepted requests state.store) state.lifted).2.aof ∧
      ∀ now, (∀ request ∈ requests, request.env.clock.now ≤ now) →
        SameVisible now (serve requests state).2.store.entries
          (serve (accepted requests state.store) state.lifted).2.store.entries := by
  have hmirrors := mirrors_serve state hplain htime
  rwa [mirrored_of_noEviction requests (Or.inr hpolicy)] at hmirrors

/-- A limit that holds one small entry. -/
def narrow : ServerState := .initial ⟨some 80, .noEviction⟩

def narrowRequests : List Request := [
  clientRequest "SET" [utf8 "a", [1, 2, 3]] (.at 0 0),
  clientRequest "SET" [utf8 "b", [4]] (.at 1 0),
  clientRequest "GET" [utf8 "b"] (.at 2 0)]

theorem refused_writes_traceless_narrow :
    refused (clientRequest "SET" [utf8 "b", [4]] (.at 1 0))
        (executeRequest (clientRequest "SET" [utf8 "a", [1, 2, 3]] (.at 0 0)) narrow.store).2 =
          true ∧
      (serve narrowRequests narrow).1 = withRefusals narrowRequests narrow.store
        (serve (accepted narrowRequests narrow.store) narrow.lifted).1 ∧
      SameVisible 2 (serve narrowRequests narrow).2.store.entries
        (serve (accepted narrowRequests narrow.store) narrow.lifted).2.store.entries := by
  obtain ⟨hreplies, -, hshown⟩ := refused_writes_traceless narrow rfl narrowRequests
    (by decide +kernel) (by decide)
  exact ⟨by decide +kernel, hreplies, hshown 2 (by decide)⟩

end AerugoCache.Server
