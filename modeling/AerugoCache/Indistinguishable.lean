import AerugoCache.VisibleStore

/-!
# What clients can tell apart

Two servers without a memory limit are the same to their clients if and only if they show
the same keys, with the same values and deadlines.  What a key shows can be asked for:
whether it is there at any later time by `EXISTS`, and its value by `GET` and `LRANGE`.
-/

namespace AerugoCache.Server

open AerugoCache.ByteText AerugoCache.KeyedMap AerugoCache.Protocol AerugoCache.Storage
  AerugoCache.Commands AerugoCache.Persistence

/-! ### What a cell shows at all later times -/

theorem expiresAt_of_seen {start : SystemTime} {entry entry' : Entry}
    (hseen : ∀ now, start ≤ now → entry.isExpired now = entry'.isExpired now)
    (hlive : entry.isExpired start = false) : entry.expiresAt = entry'.expiresAt := by
  rcases entry with ⟨value, _ | deadline⟩ <;> rcases entry' with ⟨value', _ | deadline'⟩ <;>
    simp only [Entry.isExpired, Option.any_none, Option.any_some] at hseen hlive ⊢
  · have hpast := hseen (max start deadline') (le_max_left _ _)
    simp at hpast
  · have hpast := hseen (max start deadline) (le_max_left _ _)
    simp at hpast
  · have hlater : start < deadline := by simpa using hlive
    have hlater' : start < deadline' := by
      have hstart := hseen start le_rfl
      simpa [hlater.not_ge] using hstart
    have hfirst : deadline' ≤ deadline := by
      have hdue := hseen deadline hlater.le
      simpa using hdue
    have hsecond : deadline ≤ deadline' := by
      have hdue := hseen deadline' hlater'.le
      simpa using hdue
    rw [le_antisymm hsecond hfirst]

/-- A cell is known by what `GET` and `LRANGE` say of its value and by when it is there. -/
theorem visible_of_seen {start : SystemTime} {cell cell' : Option Entry}
    (hthere : ∀ now, start ≤ now → (visible now cell).isSome = (visible now cell').isSome)
    (hbytes : EagerStore.bytes (visible start cell) = EagerStore.bytes (visible start cell'))
    (hitems : EagerStore.items (visible start cell) = EagerStore.items (visible start cell')) :
    visible start cell' = visible start cell := by
  have hstart := hthere start le_rfl
  rcases hcell : visible start cell with _ | entry
  · rw [hcell] at hstart
    exact Option.isNone_iff_eq_none.mp (by simpa using hstart.symm)
  · rw [hcell] at hstart
    obtain ⟨entry', hcell'⟩ := Option.isSome_iff_exists.mp hstart.symm
    rw [hcell, hcell'] at hbytes hitems
    rw [hcell']
    have hvalue : entry.value = entry'.value := by
      rcases entry with ⟨value | list, _⟩ <;> rcases entry' with ⟨value' | list', _⟩ <;>
        simp_all [EagerStore.bytes, EagerStore.items]
    have hseen : ∀ now, start ≤ now → entry.isExpired now = entry'.isExpired now := by
      intro now hlater
      have hnow := hthere now hlater
      rw [← visible_later hlater, hcell, ← visible_later hlater cell', hcell', visible_some,
        visible_some] at hnow
      cases hfirst : entry.isExpired now <;> cases hsecond : entry'.isExpired now <;>
        simp_all
    have hdeadline := expiresAt_of_seen hseen (visible_eq_some.mp hcell).2
    rcases entry with ⟨value, expiresAt⟩
    rcases entry' with ⟨value', expiresAt'⟩
    simp only at hvalue hdeadline
    rw [hvalue, hdeadline]

/-! ### Questions -/

/-- A request at an instant, of a server that has nothing to evict. -/
def questionAt (now : SystemTime) (name : String) (args : List Bytes)
    (held : (commandFrame name args).Fits .unlimited) : Request where
  frame := commandFrame name args
  env := .at now 0
  outcome := .written
  held := held

/-- The reply to a command that is not logged. -/
def answer : Except CommandError Frame → Frame
  | .ok response => response
  | .error error => Command.errorFrame error

theorem handleRequest_answer {request : Request} {state : ServerState} {command : Command}
    (hcommand : Command.fromFrame request.frame = .ok command)
    (hunlogged : command.toAofFrame request.env.clock = none) :
    (handleRequest request state).1 = answer (command.execute request.env state.store).1 := by
  rw [handleRequest_eq, handleFrame, hcommand]
  simp only [hunlogged]
  rcases command.execute request.env state.store with ⟨error | response, store⟩
  · rfl
  · cases state.aof <;> simp [appendCommand, answer]

/-- `EXISTS` asks whether the key is there. -/
theorem fromFrame_exists (key : String) :
    Command.fromFrame (commandFrame "EXISTS" [utf8 key]) = .ok (.exists [key]) := by
  rw [fromFrame_commandFrame]
  simp [show toAsciiUppercase "EXISTS" = "EXISTS" by decide, parseCommand, parseKeysCommand,
    intoKeys, Commands.bytesToString_utf8, bind, Except.bind, pure, Except.pure]

theorem fromFrame_get (key : String) :
    Command.fromFrame (commandFrame "GET" [utf8 key]) = .ok (.get key) := by
  rw [fromFrame_commandFrame]
  simp [show toAsciiUppercase "GET" = "GET" by decide, parseCommand, parseKeyCommand,
    Commands.bytesToString_utf8, bind, Except.bind, pure, Except.pure]

theorem fromFrame_lrange (key : String) :
    Command.fromFrame (commandFrame "LRANGE" [utf8 key, utf8 "0", utf8 "-1"]) =
      .ok (.lrange key 0 (-1)) := by
  have hstart : Commands.parseI64 (utf8 "0") = .ok 0 := by decide +kernel
  have hstop : Commands.parseI64 (utf8 "-1") = .ok (-1) := by decide +kernel
  rw [fromFrame_commandFrame]
  simp [show toAsciiUppercase "LRANGE" = "LRANGE" by decide, parseCommand, hstart, hstop,
    Commands.bytesToString_utf8, bind, Except.bind, pure, Except.pure]

/-! ### The replies to the questions -/

theorem isSome_of_exists {env : Env} {store store' : MemoryStore} {key : String}
    (h : answer ((Command.exists [key]).execute env store).1 =
      answer ((Command.exists [key]).execute env store').1) :
    (visible env.clock.now (store.entries.lookup key)).isSome =
      (visible env.clock.now (store'.entries.lookup key)).isSome := by
  have hcount : ∀ store : MemoryStore, answer ((Command.exists [key]).execute env store).1 =
      .integer (Int64.ofNat
        (if (visible env.clock.now (store.entries.lookup key)).isSome then 1 else 0)) := by
    intro store
    change Frame.integer
      (Int64.ofNat (MemoryStore.existsKeys env.clock.now [key] store.entries).1) = _
    rw [MemoryStore.existsKeys_count, List.countP_singleton]
  rw [hcount, hcount] at h
  have hsame := Frame.integer.inj h
  revert hsame
  cases (visible env.clock.now (store.entries.lookup key)).isSome <;>
    cases (visible env.clock.now (store'.entries.lookup key)).isSome <;> decide

theorem bytes_of_get {env : Env} {store store' : MemoryStore} {key : String}
    (h : answer ((Command.get key).execute env store).1 =
      answer ((Command.get key).execute env store').1) :
    EagerStore.bytes (visible env.clock.now (store.entries.lookup key)) =
      EagerStore.bytes (visible env.clock.now (store'.entries.lookup key)) := by
  have hreply : ∀ store : MemoryStore, answer ((Command.get key).execute env store).1 =
      answer (reply bulkOrNull
        (EagerStore.bytes (visible env.clock.now (store.entries.lookup key)))) := by
    intro store
    rw [← MemoryStore.get_result]
    rfl
  rw [hreply, hreply] at h
  revert h
  rcases visible env.clock.now (store.entries.lookup key) with _ | ⟨value | list, _⟩ <;>
    rcases visible env.clock.now (store'.entries.lookup key) with _ | ⟨value' | list', _⟩ <;>
    simp [EagerStore.bytes, reply, answer, bulkOrNull, CommandError.ofStoreError,
      Command.errorFrame]

theorem items_of_lrange {env : Env} {store store' : MemoryStore} {key : String}
    (h : answer ((Command.lrange key 0 (-1)).execute env store).1 =
      answer ((Command.lrange key 0 (-1)).execute env store').1) :
    EagerStore.items (visible env.clock.now (store.entries.lookup key)) =
      EagerStore.items (visible env.clock.now (store'.entries.lookup key)) := by
  have hreply : ∀ store : MemoryStore, answer ((Command.lrange key 0 (-1)).execute env store).1 =
      answer (reply (fun values => .array (values.map Frame.bulk))
        ((EagerStore.items (visible env.clock.now (store.entries.lookup key))).map
          (EagerStore.slice 0 (-1)))) := by
    intro store
    rw [← MemoryStore.lrange_result]
    rfl
  have hbulk : ∀ list list' : List Bytes, list.map Frame.bulk = list'.map Frame.bulk →
      list = list' := fun _ _ => List.map_inj_right (fun _ _ => Frame.bulk.inj) |>.mp
  rw [hreply, hreply] at h
  revert h
  rcases visible env.clock.now (store.entries.lookup key) with _ | ⟨value | list, _⟩ <;>
    rcases visible env.clock.now (store'.entries.lookup key) with _ | ⟨value' | list', _⟩ <;>
    simp [EagerStore.items, EagerStore.slice_all, reply, answer, Except.map,
      CommandError.ofStoreError, Command.errorFrame]
  · exact hbulk list list'

/-! ### Full abstraction -/

/-- Every key of the store can be named in a request. -/
def Nameable (store : MemoryStore) : Prop :=
  ∀ key ∈ store.entries, (utf8 key).length < 2 ^ 63

theorem questionAt_plain {now : SystemTime} {name : String} {args : List Bytes}
    {held : (commandFrame name args).Fits .unlimited} {command : Command}
    (hcommand : Command.fromFrame (commandFrame name args) = .ok command)
    (hplain : Command.reportsCounters command = false) :
    Request.Plain (questionAt now name args held) := by
  intro other hother
  cases hcommand.symm.trans hother
  exact hplain

/-- What a question that may be asked at any later instant is answered. -/
theorem answers_of_alike {start now : SystemTime} {state state' : ServerState}
    (hsame : ∀ requests : List Request,
      (∀ request ∈ requests, Request.Plain request ∧ start ≤ request.env.clock.now) →
        (serve requests state).1 = (serve requests state').1)
    (hlater : start ≤ now) {name : String} {args : List Bytes}
    (held : (commandFrame name args).Fits .unlimited) {command : Command}
    (hcommand : Command.fromFrame (commandFrame name args) = .ok command)
    (hplain : Command.reportsCounters command = false)
    (hunlogged : ∀ clock, command.toAofFrame clock = none) :
    answer (command.execute (.at now 0) state.store).1 =
      answer (command.execute (.at now 0) state'.store).1 := by
  have hserve := hsame [questionAt now name args held] (by
    intro request hrequest
    rw [List.mem_singleton.mp hrequest]
    exact ⟨questionAt_plain hcommand hplain, hlater⟩)
  have hframe : Command.fromFrame (questionAt now name args held).frame = .ok command := hcommand
  have hreply : (handleRequest (questionAt now name args held) state).1 =
      (handleRequest (questionAt now name args held) state').1 := (List.cons.inj hserve).1
  rw [handleRequest_answer hframe (hunlogged _), handleRequest_answer hframe (hunlogged _)]
    at hreply
  exact hreply

/-- **Full abstraction.**  Servers without a memory limit that append to the same log show
    the same keys with the same values and deadlines from an instant on, if and only if no
    requests from then on, those for the counters apart, are answered differently. -/
theorem alike_iff_indistinguishable (start : SystemTime) (state state' : ServerState)
    (hlimit : state.store.config.maxMemoryBytes = none)
    (hlimit' : state'.store.config.maxMemoryBytes = none) (hlogging : state.aof = state'.aof)
    (hnameable : Nameable state.store) (hnameable' : Nameable state'.store) :
    SameVisible start state.store.entries state'.store.entries ↔
      ∀ requests : List Request,
        (∀ request ∈ requests, Request.Plain request ∧ start ≤ request.env.clock.now) →
          (serve requests state).1 = (serve requests state').1 := by
  constructor
  · intro hshown requests hrequests
    exact (Alike.serve ⟨hlimit, hlimit', hshown, hlogging⟩ hrequests).1
  · intro hsame key
    by_cases hlength : (utf8 key).length < 2 ^ 63
    · apply visible_of_seen
      · intro now hlater
        have hanswers := answers_of_alike hsame hlater
          (commandFrame_fits.mpr ⟨by simp, by decide, by simpa using hlength⟩)
          (fromFrame_exists key) rfl fun _ => rfl
        exact isSome_of_exists hanswers
      · have hanswers := answers_of_alike hsame le_rfl
          (commandFrame_fits.mpr ⟨by simp, by decide, by simpa using hlength⟩)
          (fromFrame_get key) rfl fun _ => rfl
        exact bytes_of_get hanswers
      · have hanswers := answers_of_alike hsame le_rfl
          (commandFrame_fits.mpr ⟨by simp, by decide, by simpa using ⟨hlength, by decide, by decide⟩⟩)
          (fromFrame_lrange key) rfl fun _ => rfl
        exact items_of_lrange hanswers
    · have habsent : ∀ store : MemoryStore, Nameable store → store.entries.lookup key = none :=
        fun store hnameable => Finmap.lookup_eq_none.mpr fun hmem => hlength (hnameable key hmem)
      rw [habsent state.store hnameable, habsent state'.store hnameable']

/-- A server that still holds an entry whose deadline is 10. -/
def lingering : ServerState where
  store := { MemoryStore.withConfig .default with
    entries := (∅ : Entries).insert "k" { value := .string [1], expiresAt := some 10 } }
  aof := none

/-- From then on it shows what a server without the entry shows, and answers like it. -/
theorem alike_iff_indistinguishable_lingering :
    SameVisible 10 lingering.store.entries (MemoryStore.withConfig .default).entries ∧
      ∀ requests : List Request,
        (∀ request ∈ requests,
          Request.Plain request ∧ (10 : SystemTime) ≤ request.env.clock.now) →
            (serve requests lingering).1 =
              (serve requests ⟨.withConfig .default, none⟩).1 := by
  have hshown : SameVisible 10 lingering.store.entries
      (MemoryStore.withConfig .default).entries := by
    intro key
    change visible 10 ((∅ : Entries).lookup key) = visible 10 (Finmap.lookup key
      ((∅ : Entries).insert "k" { value := .string [1], expiresAt := some 10 }))
    rw [lookup_insert_eq, Finmap.lookup_empty]
    split <;> rfl
  refine ⟨hshown, (alike_iff_indistinguishable 10 lingering ⟨.withConfig .default, none⟩ rfl rfl
    rfl ?_ ?_).mp hshown⟩
  · intro key hkey
    rcases Finmap.mem_insert.mp hkey with rfl | hkey
    · decide
    · exact absurd hkey Finmap.notMem_empty
  · intro key hkey
    exact absurd hkey Finmap.notMem_empty

end AerugoCache.Server
