import AerugoCache.KeyTouch

/-!
# What a replay keeps of keys with deadlines

Replay executes the record of a deadline against the clock of the restart: if the
deadline is not later than that, the key is erased on the spot, with whatever the live
store did to it afterwards still to come.  How replay stands on a key can be told from
the live run and the time of the restart (`Standing`).  As long as no command needs an
entry that replay has erased, or builds on one that only replay still has, every key the
live store shows at the restart is shown with its value by the replayed store.
-/

namespace AerugoCache.Replay

open AerugoCache.ByteText AerugoCache.KeyedMap AerugoCache.Protocol AerugoCache.Storage
  AerugoCache.Commands AerugoCache.Persistence AerugoCache.Server

/-! ### How replay stands on a key -/

/-- How a replay at some time stands on a key: `level` with the live store, the key having
    no deadline; `dated` like it, with deadlines that are later than the restart; `erased`
    by a deadline that is not; or `strayed`, pushed to again after that. -/
inductive Standing where
  | level
  | dated
  | erased
  | strayed
deriving DecidableEq, Repr

/-- The standing after a touch of a key of which the live store shows `shown`. -/
def Standing.next (restart : SystemTime) (standing : Standing) (touch : Touch)
    (shown : Option Entry) : Standing :=
  match touch, shown with
  | .write _, _ | .delete, _ => .level
  | .date _ unixSeconds, shown =>
      if MemoryStore.unixDeadline restart unixSeconds ≤ restart then .erased
      else if standing = .level ∧ shown.isSome then .dated
      else standing
  | .persist, some _ => .level
  | .push _ _, none => .level
  | .push _ _, some ⟨.list _, _⟩ => if standing = .erased then .strayed else standing
  | .pop side, some entry => if (popCell side (some entry)).isNone then .level else standing
  | _, _ => standing

/-- A touch that replay can follow. -/
def Standing.Sound (restart : SystemTime) (standing : Standing) (touch : Touch)
    (shown : Option Entry) : Prop :=
  match touch, shown with
  | .persist, some _ => standing ≠ .erased ∧ standing ≠ .strayed
  | .push _ _, none => standing ≠ .dated ∧ standing ≠ .strayed
  | .date deadline unixSeconds, some _ =>
      restart < deadline → restart < MemoryStore.unixDeadline restart unixSeconds ∧
        standing ≠ .erased ∧ standing ≠ .strayed
  | _, _ => True

instance (restart : SystemTime) (standing : Standing) (touch : Touch) (shown : Option Entry) :
    Decidable (standing.Sound restart touch shown) :=
  match touch, shown with
  | .persist, some _ => inferInstanceAs (Decidable (standing ≠ .erased ∧ standing ≠ .strayed))
  | .push _ _, none => inferInstanceAs (Decidable (standing ≠ .dated ∧ standing ≠ .strayed))
  | .date deadline unixSeconds, some _ =>
      inferInstanceAs (Decidable (restart < deadline →
        restart < MemoryStore.unixDeadline restart unixSeconds ∧
          standing ≠ .erased ∧ standing ≠ .strayed))
  | .skip, _ | .look, _ | .write _, _ | .delete, _ | .date _ _, none | .persist, none
  | .push _ _, some _ | .pop _, _ => isTrue trivial

/-- What a standing says of the live cell of a key and of the replayed one. -/
def Standing.Follows (restart : SystemTime) (standing : Standing) (live replayed : Option Entry) :
    Prop :=
  match standing with
  | .level => replayed = live ∧ ∀ entry, live = some entry → entry.expiresAt = none
  | .dated => ∀ entry, live = some entry → ∃ value deadline deadline',
      entry = ⟨value, some deadline⟩ ∧ replayed = some ⟨value, some deadline'⟩ ∧ restart < deadline'
  | .erased => replayed = none ∧
      ∀ entry, live = some entry → ∃ deadline, entry.expiresAt = some deadline ∧ deadline ≤ restart
  | .strayed => ∀ entry, live = some entry → ∃ items deadline,
      entry = ⟨.list items, some deadline⟩ ∧ deadline ≤ restart ∧
        (replayed = none ∨ ∃ items' expiresAt,
          replayed = some ⟨.list items', expiresAt⟩ ∧ items'.length ≤ items.length)

variable {restart now : SystemTime} {standing : Standing} {live replayed : Option Entry}

/-- A live entry that expires leaves the replay as it stood. -/
theorem Standing.Follows.visible_live (h : standing.Follows restart live replayed)
    (now : SystemTime) : standing.Follows restart (visible now live) replayed := by
  have hsome : ∀ entry, visible now live = some entry → live = some entry :=
    fun entry hentry => (visible_eq_some.mp hentry).1
  cases standing with
  | level =>
    obtain ⟨rfl, hundated⟩ := h
    have hvisible : visible now replayed = replayed := by
      cases replayed with
      | none => rfl
      | some entry => simp [visible_some, Entry.isExpired, hundated entry rfl]
    rw [hvisible]
    exact ⟨rfl, hundated⟩
  | dated => exact fun entry hentry => h entry (hsome entry hentry)
  | erased => exact ⟨h.1, fun entry hentry => h.2 entry (hsome entry hentry)⟩
  | strayed => exact fun entry hentry => h entry (hsome entry hentry)

/-- Nothing that replay holds and the live store shows expires during the replay. -/
theorem Standing.Follows.visible_replayed (h : standing.Follows restart live replayed) :
    standing.Follows restart live (visible restart replayed) := by
  cases standing with
  | level =>
    obtain ⟨rfl, hundated⟩ := h
    cases replayed with
    | none => exact ⟨rfl, hundated⟩
    | some entry =>
      refine ⟨?_, hundated⟩
      simp [visible_some, Entry.isExpired, hundated entry rfl]
  | dated =>
    intro entry hentry
    obtain ⟨value, deadline, deadline', rfl, rfl, hlater⟩ := h entry hentry
    refine ⟨value, deadline, deadline', rfl, ?_, hlater⟩
    simp [visible_some, Entry.isExpired, Int.not_le.mpr hlater]
  | erased =>
    obtain ⟨rfl, hpassed⟩ := h
    exact ⟨rfl, hpassed⟩
  | strayed =>
    intro entry hentry
    obtain ⟨items, deadline, rfl, hpassed, hstray⟩ := h entry hentry
    refine ⟨items, deadline, rfl, hpassed, ?_⟩
    rcases hstray with rfl | ⟨items', expiresAt, rfl, hlength⟩
    · exact Or.inl rfl
    · rw [visible_some]
      split
      · exact Or.inl rfl
      · exact Or.inr ⟨items', expiresAt, rfl, hlength⟩

/-- Where the live store does not show the key, replay may only hold what is left of it. -/
theorem follows_none :
    standing.Follows restart none replayed ↔
      (standing = .level ∨ standing = .erased → replayed = none) := by
  constructor
  · rintro h (rfl | rfl)
    · exact h.1
    · exact h.1
  · intro h
    cases standing with
    | level => exact ⟨h (Or.inl rfl), nofun⟩
    | erased => exact ⟨h (Or.inr rfl), nofun⟩
    | dated | strayed => exact nofun

/-! ### Touches

`live` is now what the live store shows of the key, so a touch makes `update` of it. -/

theorem expireCell_some {deadline : SystemTime} {cell : Option Entry} {entry : Entry}
    (h : expireCell now deadline cell = some entry) :
    ∃ shown, cell = some shown ∧ entry = { shown with expiresAt := some deadline } := by
  unfold expireCell at h
  split at h
  · cases h
  · obtain ⟨shown, hshown, rfl⟩ := Option.map_eq_some_iff.mp h
    exact ⟨shown, hshown, rfl⟩

theorem expireCell_none (now deadline : SystemTime) : expireCell now deadline none = none := by
  unfold expireCell
  split
  · rfl
  · rfl

/-- A deadline that replay cannot keep is not later than the restart. -/
theorem Standing.Sound.deadline_le {deadline : SystemTime} {unixSeconds : UInt64} {shown : Entry}
    (hsound : standing.Sound restart (.date deadline unixSeconds) (some shown))
    (h : MemoryStore.unixDeadline restart unixSeconds ≤ restart ∨ standing = .erased ∨
      standing = .strayed) : deadline ≤ restart := by
  by_contra hlater
  obtain ⟨hlogged, herased, hstrayed⟩ := hsound (Int.not_le.mp hlater)
  rcases h with hpast | hstanding | hstanding
  · exact absurd hlogged (Int.not_lt.mpr hpast)
  · exact herased hstanding
  · exact hstrayed hstanding

/-- Replay erases the key. -/
theorem Standing.Follows.date_past {deadline : SystemTime} {unixSeconds : UInt64}
    (hsound : standing.Sound restart (.date deadline unixSeconds) live)
    (hpast : MemoryStore.unixDeadline restart unixSeconds ≤ restart) :
    Standing.erased.Follows restart (expireCell now deadline live)
      (expireCell restart (MemoryStore.unixDeadline restart unixSeconds) replayed) := by
  refine ⟨by rw [expireCell, if_pos hpast], ?_⟩
  intro entry hentry
  obtain ⟨shown, rfl, rfl⟩ := expireCell_some hentry
  exact ⟨deadline, rfl, hsound.deadline_le (Or.inl hpast)⟩

/-- Replay sets the deadline on what it has of the key. -/
theorem Standing.Follows.date_ahead {deadline ahead : SystemTime} {unixSeconds : UInt64}
    (h : standing.Follows restart live replayed)
    (hsound : standing.Sound restart (.date deadline unixSeconds) live) (hahead : restart < ahead) :
    (if standing = .level ∧ live.isSome then Standing.dated else standing).Follows restart
      (expireCell now deadline live)
      (replayed.map fun entry => { entry with expiresAt := some ahead }) := by
  cases standing with
  | level =>
    obtain ⟨rfl, -⟩ := h
    cases replayed with
    | none =>
      rw [expireCell_none]
      apply follows_none.mpr
      intro _
      rfl
    | some shown =>
      intro entry hentry
      obtain ⟨_, hshown, rfl⟩ := expireCell_some hentry
      cases hshown
      exact ⟨_, _, _, rfl, rfl, hahead⟩
  | dated =>
    intro entry hentry
    obtain ⟨shown, rfl, rfl⟩ := expireCell_some hentry
    obtain ⟨value, deadline', deadline'', rfl, rfl, -⟩ := h shown rfl
    exact ⟨value, _, _, rfl, rfl, hahead⟩
  | erased =>
    obtain ⟨rfl, -⟩ := h
    refine ⟨rfl, ?_⟩
    intro entry hentry
    obtain ⟨shown, rfl, rfl⟩ := expireCell_some hentry
    exact ⟨deadline, rfl, hsound.deadline_le (Or.inr (Or.inl rfl))⟩
  | strayed =>
    intro entry hentry
    obtain ⟨shown, rfl, rfl⟩ := expireCell_some hentry
    obtain ⟨items, deadline', rfl, -, hstray⟩ := h shown rfl
    refine ⟨items, deadline, rfl, hsound.deadline_le (Or.inr (Or.inr rfl)), ?_⟩
    rcases hstray with rfl | ⟨items', expiresAt, rfl, hlength⟩
    · exact Or.inl rfl
    · exact Or.inr ⟨items', _, rfl, hlength⟩

theorem Standing.Follows.date {deadline : SystemTime} {unixSeconds : UInt64}
    (h : standing.Follows restart live replayed)
    (hsound : standing.Sound restart (.date deadline unixSeconds) live) :
    (standing.next restart (.date deadline unixSeconds) live).Follows restart
      (expireCell now deadline live)
      (expireCell restart (MemoryStore.unixDeadline restart unixSeconds) replayed) := by
  rw [Standing.next]
  by_cases hpast : MemoryStore.unixDeadline restart unixSeconds ≤ restart
  · rw [if_pos hpast]
    exact date_past hsound hpast
  · rw [if_neg hpast, expireCell.eq_def restart, if_neg hpast]
    exact h.date_ahead hsound (Int.not_le.mp hpast)

theorem Standing.Follows.persist (h : standing.Follows restart live replayed)
    (hsound : standing.Sound restart .persist live) :
    (standing.next restart .persist live).Follows restart (persistCell live)
      (persistCell replayed) := by
  cases live with
  | none =>
    apply follows_none.mpr
    intro hstanding
    rw [follows_none.mp h hstanding]
    rfl
  | some shown =>
    have hsame : persistCell replayed = persistCell (some shown) := by
      cases standing with
      | level => rw [h.1]
      | dated =>
        obtain ⟨value, deadline, deadline', rfl, rfl, -⟩ := h shown rfl
        rfl
      | erased => exact absurd rfl hsound.1
      | strayed => exact absurd rfl hsound.2
    refine ⟨hsame, ?_⟩
    rintro _ ⟨⟩
    rfl

theorem Standing.Follows.push {side : Side} {values : List Bytes}
    (h : standing.Follows restart live replayed)
    (hsound : standing.Sound restart (.push side values) live)
    (hok : ¬ (Touch.push side values).Rejected live) :
    (standing.next restart (.push side values) live).Follows restart
      ((pushEntry side values live).or live) ((pushEntry side values replayed).or replayed) := by
  rcases live with _ | ⟨value | items, expiresAt⟩
  · -- the list is new in the live store, and must be new in the replay
    have hnone : replayed = none := by
      apply follows_none.mp h
      cases standing with
      | level => exact Or.inl rfl
      | erased => exact Or.inr rfl
      | dated => exact absurd rfl hsound.1
      | strayed => exact absurd rfl hsound.2
    rw [hnone]
    refine ⟨rfl, ?_⟩
    rintro _ ⟨⟩
    rfl
  · exact absurd trivial hok
  · cases standing with
    | level =>
      obtain ⟨rfl, hundated⟩ := h
      obtain rfl : expiresAt = none := hundated _ rfl
      refine ⟨rfl, ?_⟩
      rintro _ ⟨⟩
      rfl
    | dated =>
      obtain ⟨value, deadline, deadline', hshown, rfl, hlater⟩ := h _ rfl
      cases hshown
      rintro _ ⟨⟩
      exact ⟨_, _, _, rfl, rfl, hlater⟩
    | erased =>
      obtain ⟨rfl, hpassed⟩ := h
      obtain ⟨deadline, hdeadline, hpast⟩ := hpassed _ rfl
      obtain rfl : expiresAt = some deadline := hdeadline
      rintro _ ⟨⟩
      refine ⟨_, deadline, rfl, hpast, Or.inr ⟨_, none, rfl, ?_⟩⟩
      rw [length_foldl_pushValue, length_foldl_pushValue, List.length_nil]
      omega
    | strayed =>
      obtain ⟨items', deadline, hshown, hpast, hstray⟩ := h _ rfl
      cases hshown
      rintro _ ⟨⟩
      refine ⟨_, deadline, rfl, hpast, ?_⟩
      rcases hstray with rfl | ⟨items', expiresAt, rfl, hlength⟩
      · refine Or.inr ⟨_, none, rfl, ?_⟩
        rw [length_foldl_pushValue, length_foldl_pushValue, List.length_nil]
        omega
      · refine Or.inr ⟨_, expiresAt, rfl, ?_⟩
        rw [length_foldl_pushValue, length_foldl_pushValue]
        omega

theorem popCell_list (side : Side) (items : List Bytes) (expiresAt : Option SystemTime) :
    popCell side (some ⟨.list items, expiresAt⟩) =
      if (popValue side items).2.isEmpty then none
      else some ⟨.list (popValue side items).2, expiresAt⟩ := rfl

/-- A pop that empties the live list leaves replay without the key. -/
theorem Standing.Follows.pop_last {side : Side} {items : List Bytes}
    {expiresAt : Option SystemTime}
    (h : standing.Follows restart (some ⟨.list items, expiresAt⟩) replayed)
    (hlast : (popValue side items).2.isEmpty = true) : popCell side replayed = none := by
  have hlive : popCell side (some ⟨.list items, expiresAt⟩) = none := by
    rw [popCell_list, if_pos hlast]
  cases standing with
  | level => rw [h.1, hlive]
  | dated =>
    obtain ⟨value, deadline, deadline', hshown, rfl, -⟩ := h _ rfl
    cases hshown
    rw [popCell_list, if_pos hlast]
  | erased =>
    rw [h.1]
    rfl
  | strayed =>
    obtain ⟨items', deadline, hshown, -, hstray⟩ := h _ rfl
    cases hshown
    rcases hstray with rfl | ⟨items', expiresAt, rfl, hlength⟩
    · rfl
    · rw [List.isEmpty_iff_length_eq_zero, length_popValue] at hlast
      have hlast' : (popValue side items').2.isEmpty = true := by
        rw [List.isEmpty_iff_length_eq_zero, length_popValue]
        omega
      rw [popCell_list, if_pos hlast']

/-- A pop that leaves a list keeps the standing of the key. -/
theorem Standing.Follows.pop_rest {side : Side} {items : List Bytes}
    {expiresAt : Option SystemTime}
    (h : standing.Follows restart (some ⟨.list items, expiresAt⟩) replayed)
    (hrest : ¬ (popValue side items).2.isEmpty = true) :
    standing.Follows restart (some ⟨.list (popValue side items).2, expiresAt⟩)
      (popCell side replayed) := by
  cases standing with
  | level =>
    obtain ⟨rfl, hundated⟩ := h
    refine ⟨by rw [popCell_list, if_neg hrest], ?_⟩
    rintro _ ⟨⟩
    exact hundated ⟨.list items, expiresAt⟩ rfl
  | dated =>
    obtain ⟨value, deadline, deadline', hshown, rfl, hlater⟩ := h _ rfl
    cases hshown
    rintro _ ⟨⟩
    exact ⟨_, deadline, deadline', rfl, by rw [popCell_list, if_neg hrest], hlater⟩
  | erased =>
    obtain ⟨rfl, hpassed⟩ := h
    refine ⟨rfl, ?_⟩
    rintro _ ⟨⟩
    exact hpassed ⟨.list items, expiresAt⟩ rfl
  | strayed =>
    obtain ⟨items', deadline, hshown, hpast, hstray⟩ := h _ rfl
    cases hshown
    rintro _ ⟨⟩
    refine ⟨_, deadline, rfl, hpast, ?_⟩
    rcases hstray with rfl | ⟨items', expiresAt, rfl, hlength⟩
    · exact Or.inl rfl
    · rw [popCell_list]
      split
      · exact Or.inl rfl
      · refine Or.inr ⟨_, expiresAt, rfl, ?_⟩
        rw [length_popValue, length_popValue]
        omega

theorem Standing.Follows.pop {side : Side} (h : standing.Follows restart live replayed)
    (hok : ¬ (Touch.pop side).Rejected live) :
    (standing.next restart (.pop side) live).Follows restart (popCell side live)
      (popCell side replayed) := by
  rcases live with _ | ⟨value | items, expiresAt⟩
  · apply follows_none.mpr
    intro hstanding
    rw [follows_none.mp h hstanding]
    rfl
  · exact absurd trivial hok
  · by_cases hlast : (popValue side items).2.isEmpty = true
    · have hnext : standing.next restart (.pop side) (some ⟨.list items, expiresAt⟩) = .level := by
        simp [Standing.next, popCell_list, hlast]
      rw [hnext, h.pop_last hlast, popCell_list, if_pos hlast]
      exact ⟨rfl, nofun⟩
    · have hnext : standing.next restart (.pop side) (some ⟨.list items, expiresAt⟩) = standing := by
        simp [Standing.next, popCell_list, hlast]
      rw [hnext, popCell_list, if_neg hlast]
      exact h.pop_rest hlast

/-- **One touch** of a key that replay follows. -/
theorem Standing.Follows.update {touch : Touch} (h : standing.Follows restart live replayed)
    (hsound : standing.Sound restart touch live) (hok : ¬ touch.Rejected live) :
    (standing.next restart touch live).Follows restart (touch.update now live)
      ((touch.replayed restart).update restart replayed) := by
  cases touch with
  | skip | look => exact h
  | write value =>
    refine ⟨rfl, ?_⟩
    rintro _ ⟨⟩
    rfl
  | delete => exact ⟨rfl, nofun⟩
  | date deadline unixSeconds => exact h.date hsound
  | persist => exact h.persist hsound
  | push side values => exact h.push hsound hok
  | pop side => exact h.pop hok

/-! ### Runs -/

def nextStanding (key : String) (restart : SystemTime) (standing : Standing) (request : Request)
    (store : MemoryStore) : Standing :=
  standing.next restart (requestTouch key request) (shown key request store)

/-- What the request does to the key can be followed by a replay at `restart`. -/
def SoundRequest (key : String) (restart : SystemTime) (standing : Standing) (request : Request)
    (store : MemoryStore) : Prop :=
  standing.Sound restart (requestTouch key request) (shown key request store)

instance (key : String) (restart : SystemTime) (standing : Standing) (request : Request)
    (store : MemoryStore) : Decidable (SoundRequest key restart standing request store) :=
  inferInstanceAs (Decidable (standing.Sound restart _ _))

/-- A run whose requests can all be followed on the key. -/
def SoundRun (key : String) (restart : SystemTime) (requests : List Request)
    (store : MemoryStore) : Prop :=
  Along (nextStanding key restart) (SoundRequest key restart) .level requests store

instance (key : String) (restart : SystemTime) (requests : List Request) (store : MemoryStore) :
    Decidable (SoundRun key restart requests store) :=
  decidableAlong _ _ _ _

theorem next_of_quiet {touch : Touch} {shown : Option Entry}
    (h : touch = .skip ∨ touch = .look ∨ touch.Rejected shown) :
    standing.next restart touch shown = standing := by
  rcases h with rfl | rfl | hrejected
  · rfl
  · rfl
  · unfold Touch.Rejected at hrejected
    split at hrejected
    · rfl
    · rfl
    · exact hrejected.elim

theorem follows_run {config : StoreConfig} (hlimit : config.maxMemoryBytes = none)
    {requests : List Request} {key : String} {restart : SystemTime}
    (hsound : SoundRun key restart requests (.withConfig config)) {envs : Nat → Env}
    (henvs : ∀ round, (envs round).clock = stoppedClock restart) :
    (historyAfter (nextStanding key restart) .level requests (.withConfig config)).Follows restart
      ((runStore requests (.withConfig config)).entries.lookup key)
      ((replayCommands envs (loggedCommands requests (.withConfig config)) 0 0
        (.withConfig config)).2.entries.lookup key) := by
  refine lockstep_key (fun standing live replayed => standing.Follows restart live replayed)
    ?_ ?_ ?_ henvs hlimit hlimit ⟨rfl, nofun⟩ hsound
  · intro standing request live replayed h hskip
    rw [nextStanding, next_of_quiet (Or.inl hskip)]
    exact h
  · intro standing request live replayed h hquiet
    rw [nextStanding, next_of_quiet hquiet]
    exact h.visible_live _
  · intro standing request live replayed h hsound hok
    exact (h.visible_live _).visible_replayed.update hsound hok

/-- The clock readings of the requests, in the order in which they are taken. -/
def readings (requests : List Request) : List SystemTime :=
  requests.flatMap fun request => [request.env.clock.deadlineNow, request.env.clock.fallbackNow,
    request.env.clock.expireNow, request.env.clock.now]

/-- The clock readings do not decrease, and the restart is not earlier than any of them. -/
def Timely (requests : List Request) (restart : SystemTime) : Prop :=
  (readings requests ++ [restart]).Pairwise (· ≤ ·)

instance (requests : List Request) (restart : SystemTime) : Decidable (Timely requests restart) :=
  inferInstanceAs (Decidable (List.Pairwise _ _))

/-- **Replay keeps what is live.**  A key whose touches replay can follow, and that the live
    store still shows at the restart, is shown by the replayed store with the same value. -/
theorem replay_shows_live (config : StoreConfig) (hlimit : config.maxMemoryBytes = none)
    (requests : List Request) (hwritten : ∀ request ∈ requests, request.outcome = .written)
    (restart : SystemTime) (key : String)
    (hsound : SoundRun key restart requests (.withConfig config)) (envs : Nat → Env)
    (henvs : ∀ round, (envs round).clock = stoppedClock restart) :
    let live := (serve requests (.initial config)).2
    let replayed := (replay .unlimited envs live.aof (.withConfig config)).2
    ∀ entry, visible restart (live.store.entries.lookup key) = some entry →
      ∃ entry', visible restart (replayed.entries.lookup key) = some entry' ∧
        entry'.value = entry.value := by
  intro live replayed entry hentry
  have hrun := ((follows_run hlimit hsound henvs).visible_live restart).visible_replayed
  simp only [replayed, live, replay_serve hwritten]
  simp only [live, serve_store hwritten] at hentry
  rw [hentry] at hrun
  have hcurrent := (visible_eq_some.mp hentry).2
  unfold Standing.Follows at hrun
  split at hrun
  · exact ⟨entry, hrun.1, rfl⟩
  · obtain ⟨value, deadline, deadline', rfl, hreplayed, -⟩ := hrun entry rfl
    exact ⟨_, hreplayed, rfl⟩
  · obtain ⟨deadline, hdeadline, hpassed⟩ := hrun.2 entry rfl
    simp [Entry.isExpired, hdeadline, hpassed] at hcurrent
  · obtain ⟨items, deadline, rfl, hpassed, -⟩ := hrun entry rfl
    simp [Entry.isExpired, hpassed] at hcurrent

/-! A list that is dated, pushed to and dated again, and a string whose deadline is taken
back before the restart.  Replay follows the first run up to 20 s, when the deadline has
not passed, and loses the key of the second. -/

/-- A request of a client that reads the clock `seconds` after the epoch. -/
def requestAt (seconds : Nat) (name : String) (args : List Bytes)
    (held : decide (args.length + 1 < 2 ^ 64 ∧ (utf8 name).length < 2 ^ 63 ∧
      ∀ arg ∈ args, arg.length < 2 ^ 63) = true := by exact Eq.refl true) : Request :=
  clientRequest name args (.at (seconds * NANOS_PER_SEC) 0) held

def refreshedRequests : List Request := [
  requestAt 0 "RPUSH" [utf8 "k", [1]],
  requestAt 1 "EXPIRE" [utf8 "k", utf8 "40"],
  requestAt 2 "LPUSH" [utf8 "k", [2]],
  requestAt 3 "EXPIREAT" [utf8 "k", utf8 "60"],
  requestAt 4 "RPOP" [utf8 "k"]]

theorem replay_shows_live_refreshed :
    ∃ entry, visible (20 * NANOS_PER_SEC) ((replay .unlimited
        (fun _ => .at (20 * NANOS_PER_SEC) 0) (serve refreshedRequests (.initial .default)).2.aof
        (.withConfig .default)).2.entries.lookup "k") = some entry ∧
      entry.value = .list [[2]] :=
  replay_shows_live .default rfl refreshedRequests (by decide) (20 * NANOS_PER_SEC) "k"
    (by decide +kernel) (fun _ => .at (20 * NANOS_PER_SEC) 0) (fun _ => rfl)
    { value := .list [[2]], expiresAt := some (60 * NANOS_PER_SEC) } (by decide +kernel)

def persistedRequests : List Request := [
  requestAt 0 "SET" [utf8 "k", [1]],
  requestAt 0 "EXPIREAT" [utf8 "k", utf8 "10"],
  requestAt 5 "PERSIST" [utf8 "k"]]

theorem replay_loses_persisted :
    Timely persistedRequests (20 * NANOS_PER_SEC) ∧
      visible (20 * NANOS_PER_SEC)
        ((serve persistedRequests (.initial .default)).2.store.entries.lookup "k") =
        some { value := .string [1], expiresAt := none } ∧
      visible (20 * NANOS_PER_SEC) ((replay .unlimited (fun _ => .at (20 * NANOS_PER_SEC) 0)
        (serve persistedRequests (.initial .default)).2.aof
        (.withConfig .default)).2.entries.lookup "k") = none := by
  decide +kernel

end AerugoCache.Replay
