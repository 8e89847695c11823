import AerugoCache.CleanupTask
import AerugoCache.LogOrder

/-!
# Clients with keys of their own

Keys are independent of each other as long as nothing is evicted: what a request returns and
makes of its keys depends on them alone.  So a client whose keys no other client touches is
served as if it were alone, however its requests interleave with the others'.
-/

namespace AerugoCache.Concurrent

open AerugoCache.ByteText AerugoCache.KeyedMap AerugoCache.Protocol AerugoCache.Storage
  AerugoCache.Commands AerugoCache.Persistence AerugoCache.Server

/-! ### The keys of a request -/

/-- The request touches no other keys than these. -/
def Within (keys : Set String) (request : Request) : Prop :=
  ∀ key, requestAct key request ≠ .pass → key ∈ keys

/-- The request touches none of these keys. -/
def Outside (keys : Set String) (request : Request) : Prop :=
  ∀ key ∈ keys, requestAct key request = .pass

/-- Two servers without a memory limit have the same entries under the keys. -/
structure AgreesOn (keys : Set String) (state state' : ServerState) : Prop where
  unlimited : state.store.config.maxMemoryBytes = none
  unlimited' : state'.store.config.maxMemoryBytes = none
  lookup : ∀ key ∈ keys, state.store.entries.lookup key = state'.store.entries.lookup key
  logging : state.aof.isSome = state'.aof.isSome

theorem AgreesOn.outside {keys : Set String} {state state' : ServerState}
    (h : AgreesOn keys state state') {request : Request} (houtside : Outside keys request) :
    AgreesOn keys (handleRequest request state).2 state' := by
  refine ⟨?_, h.unlimited', fun key hkey => ?_, ?_⟩
  · rw [handleRequest_store, executeRequest_config, h.unlimited]
  · rw [handleRequest_store, lookup_executeRequest h.unlimited, houtside key hkey]
    exact h.lookup key hkey
  · rw [handleRequest_isSome, h.logging]

theorem AgreesOn.within {keys : Set String} {state state' : ServerState}
    (h : AgreesOn keys state state') {request : Request} (hplain : Request.Plain request)
    (hwithin : Within keys request) :
    (handleRequest request state).1 = (handleRequest request state').1 ∧
      AgreesOn keys (handleRequest request state).2 (handleRequest request state').2 := by
  have hfinds : Request.FindsSame request state.store.entries state'.store.entries := by
    intro command op hcommand hop key hact
    have hkey : key ∈ keys := hwithin key (by rw [requestAct, hcommand]; simpa only [hop] using hact)
    rw [h.lookup key hkey]
  have hresult := executeRequest_result hplain hfinds
    (fun command _ => admitted_of_unlimited h.unlimited command _)
    (fun command _ => admitted_of_unlimited h.unlimited' command _)
  refine ⟨handleRequest_reply hresult h.logging, ?_, ?_, fun key hkey => ?_, ?_⟩
  · rw [handleRequest_store, executeRequest_config, h.unlimited]
  · rw [handleRequest_store, executeRequest_config, h.unlimited']
  · rw [handleRequest_store, handleRequest_store, lookup_executeRequest h.unlimited,
      lookup_executeRequest h.unlimited', h.lookup key hkey]
  · rw [handleRequest_isSome, handleRequest_isSome, h.logging]

/-! ### Histories -/

section

variable {Id : Type} [DecidableEq Id]

/-- In a history, a client with keys of its own gets the replies it gets alone. -/
theorem AgreesOn.serveAll {keys : Set String} {state state' : ServerState} (id : Id)
    (history : List (Id × Request)) (h : AgreesOn keys state state')
    (hown : ∀ request ∈ own id history, Request.Plain request ∧ Within keys request)
    (hothers : ∀ other request, (other, request) ∈ history → other ≠ id → Outside keys request) :
    own id (Concurrent.serveAll history state).1 = (serve (own id history) state').1 ∧
      AgreesOn keys (Concurrent.serveAll history state).2 (serve (own id history) state').2 := by
  induction history generalizing state state' with
  | nil => exact ⟨rfl, h⟩
  | cons entry history ih =>
    obtain ⟨other, request⟩ := entry
    have hothers' : ∀ other request, (other, request) ∈ history → other ≠ id →
        Outside keys request := fun other request hmem =>
      hothers other request (List.mem_cons_of_mem _ hmem)
    by_cases hother : other = id
    · subst hother
      have hcons : own other ((other, request) :: history) = request :: own other history := by
        simp [own]
      rw [hcons] at hown ⊢
      obtain ⟨hplain, hwithin⟩ := hown request List.mem_cons_self
      obtain ⟨hreply, hnext⟩ := h.within hplain hwithin
      obtain ⟨hreplies, hfinal⟩ := ih hnext
        (fun later hlater => hown later (List.mem_cons_of_mem _ hlater)) hothers'
      refine ⟨?_, hfinal⟩
      simp only [serve, ← hreplies, ← hreply]
      simp [Concurrent.serveAll, own]
    · have hskip : own id ((other, request) :: history) = own id history := by
        simp [own, hother]
      rw [hskip] at hown ⊢
      have hnext := h.outside (hothers other request List.mem_cons_self hother)
      obtain ⟨hreplies, hfinal⟩ := ih hnext hown hothers'
      refine ⟨?_, hfinal⟩
      rw [← hreplies]
      simp [Concurrent.serveAll, own, hother]

/-- **Isolation.**  A client whose keys no other client touches gets, in any interleaving
    with the others, the replies that it gets from a server of its own, and its keys hold
    what they hold there. -/
theorem isolated_client {server : ServerState} {requests : Id → List Request}
    {schedule : List (Id × Action)} {system : System Id} (id : Id) (keys : Set String)
    (hlimit : server.store.config.maxMemoryBytes = none)
    (hown : ∀ request ∈ requests id, Request.Plain request ∧ Within keys request)
    (hothers : ∀ other, other ≠ id → ∀ request ∈ requests other, Outside keys request)
    (hrun : (System.fresh server requests).run schedule = some system) :
    ∃ done, done ++ (system.connections id).requests = requests id ∧
      (system.connections id).replies <+: (serve done server).1 ∧
      (serve done server).1.length = (system.connections id).replies.length +
        (if (system.connections id).stage = .reading then 0 else 1) ∧
      ∀ key ∈ keys, system.server.store.entries.lookup key =
        (serve done server).2.store.entries.lookup key := by
  let history := System.history schedule (System.fresh server requests)
  have hexplains : Explains server requests history system := explains_run hrun
  have hagrees : AgreesOn keys server server := ⟨hlimit, hlimit, fun _ _ => rfl, rfl⟩
  obtain ⟨hreplies, hfinal⟩ := hagrees.serveAll id history
    (fun request hmem => hown request (by
      rw [← hexplains.order id]
      exact List.mem_append_left _ hmem))
    (fun other request hmem hother => hothers other hother request (hexplains.sent hmem))
  refine ⟨own id history, hexplains.order id, ?_, ?_, fun key hkey => ?_⟩
  · rw [← hreplies, ← hexplains.replies id]
    exact Connection.replies_beginning _ _
  · rw [length_serve]
    exact hexplains.length_own id
  · rw [hexplains.store]
    exact hfinal.lookup key hkey

end

/-- Each of the two writers has a key of its own. -/
theorem isolated_client_apart :
    ∃ system, (System.fresh (.initial .default) apartWrites).run swappedAppends = some system ∧
      ∃ done, done ++ (system.connections false).requests = apartWrites false ∧
        (system.connections false).replies <+: (serve done (.initial .default)).1 := by
  have hfinished :
      ((System.fresh (.initial .default) apartWrites).run swappedAppends).isSome = true := by
    decide +kernel
  obtain ⟨system, hrun⟩ := Option.isSome_iff_exists.mp hfinished
  have hfirst : Command.fromFrame (commandFrame "SET" [utf8 "a", [1]]) = .ok (.set "a" [1]) :=
    by decide +kernel
  have hsecond : Command.fromFrame (commandFrame "SET" [utf8 "b", [2]]) = .ok (.set "b" [2]) :=
    by decide +kernel
  obtain ⟨done, hdone, hreplies, -⟩ := isolated_client false {"a"} rfl
    (by
      intro request hmem
      obtain rfl := List.mem_singleton.mp hmem
      refine ⟨by decide +kernel, fun key hact => ?_⟩
      by_contra hkey
      exact hact (by simpa [requestAct, clientRequest, hfirst, Command.storeOp, StoreOp.act]
        using hkey))
    (by
      intro other hother request hmem key hkey
      obtain rfl : other = true := by simpa using hother
      obtain rfl := List.mem_singleton.mp hmem
      obtain rfl := Set.mem_singleton_iff.mp hkey
      simp [requestAct, clientRequest, hsecond, Command.storeOp, StoreOp.act])
    hrun
  exact ⟨system, hrun, done, hdone, hreplies⟩

end AerugoCache.Concurrent
