import AerugoCache.ReplayDeadlines

/-!
# What a replay brings back

A push that the live store made to a list with a deadline is replayed after the record
of the deadline has erased the list, if the deadline passed before the restart.  It then
makes a new list, which has no deadline: the key comes back, and stays.  Where no push
comes to this, replay shows a key at the restart only if the live store shows it, or if
a deadline of the key passed less than a second before: deadlines are logged in whole
seconds, rounded up.
-/

namespace AerugoCache.Replay

open AerugoCache.ByteText AerugoCache.KeyedMap AerugoCache.Protocol AerugoCache.Storage
  AerugoCache.Commands AerugoCache.Persistence AerugoCache.Server

/-! ### Deadlines that passed -/

/-- The deadline of a cell, if it has passed. -/
def lapsed (now : SystemTime) (cell : Option Entry) : Option SystemTime :=
  (cell.bind Entry.expiresAt).filter fun deadline => deadline ≤ now

/-- The deadline that a touch gives a key, if it had passed before. -/
def lapsedAtOnce (now : SystemTime) (touch : Touch) (shown : Option Entry) : List SystemTime :=
  match touch, shown with
  | .date deadline _, some _ => if deadline ≤ now then [deadline] else []
  | _, _ => []

/-- One of these deadlines passed less than a second before the restart, or has not. -/
def Recent (restart : SystemTime) (passed : List SystemTime) : Prop :=
  ∃ deadline ∈ passed, restart < deadline + NANOS_PER_SEC

instance (restart : SystemTime) (passed : List SystemTime) : Decidable (Recent restart passed) :=
  inferInstanceAs (Decidable (∃ deadline ∈ passed, restart < deadline + NANOS_PER_SEC))

theorem Recent.append {restart : SystemTime} {passed : List SystemTime} (h : Recent restart passed)
    (more : List SystemTime) : Recent restart (passed ++ more) := by
  obtain ⟨deadline, hmem, hrecent⟩ := h
  exact ⟨deadline, List.mem_append_left _ hmem, hrecent⟩

/-- A push to a list with a deadline is in time if the deadline is not over by a second at
    the restart, and so is a deadline that was logged as one later than the restart. -/
def InTime (restart : SystemTime) (touch : Touch) (shown : Option Entry) : Prop :=
  match touch, shown with
  | .push _ _, some ⟨.list _, some deadline⟩ => restart < deadline + NANOS_PER_SEC
  | .date deadline unixSeconds, some _ =>
      restart < MemoryStore.unixDeadline restart unixSeconds → restart < deadline + NANOS_PER_SEC
  | _, _ => True

instance (restart : SystemTime) (touch : Touch) (shown : Option Entry) :
    Decidable (InTime restart touch shown) :=
  match touch, shown with
  | .push _ _, some ⟨.list _, some deadline⟩ =>
      inferInstanceAs (Decidable (restart < deadline + NANOS_PER_SEC))
  | .date deadline unixSeconds, some _ =>
      inferInstanceAs (Decidable (restart < MemoryStore.unixDeadline restart unixSeconds →
        restart < deadline + NANOS_PER_SEC))
  | .skip, _ | .look, _ | .write _, _ | .delete, _ | .date _ _, none | .persist, _
  | .push _ _, none | .push _ _, some ⟨.string _, _⟩ | .push _ _, some ⟨.list _, none⟩
  | .pop _, _ => isTrue trivial

/-! ### Rounding -/

theorem toNat_unixSecondsCeil_le {time : SystemTime} (h : UNIX_EPOCH ≤ time) :
    (unixSecondsCeil time).toNat ≤
      time.toNat / NANOS_PER_SEC + if time.toNat % NANOS_PER_SEC > 0 then 1 else 0 := by
  have hduration : durationSince time UNIX_EPOCH = some time.toNat := by
    rw [durationSince, if_pos h, UNIX_EPOCH, Int.sub_zero]
  rw [unixSecondsCeil, hduration]
  simp only [UInt64.toNat_add, UInt64.toNat_ofNat']
  have hquotient := Nat.mod_le (time.toNat / NANOS_PER_SEC) (2 ^ 64)
  split
  · have hsum := Nat.mod_le (time.toNat / NANOS_PER_SEC % 2 ^ 64 + (1 : UInt64).toNat) (2 ^ 64)
    exact Nat.le_trans hsum (Nat.add_le_add_right hquotient 1)
  · have hsum := Nat.mod_le (time.toNat / NANOS_PER_SEC % 2 ^ 64 + (0 : UInt64).toNat) (2 ^ 64)
    exact Nat.le_trans hsum (Nat.add_le_add_right hquotient 0)

/-- The logged seconds are less than a second too late. -/
theorem unixSecondsCeil_lt {time : SystemTime} (h : UNIX_EPOCH ≤ time) :
    ((unixSecondsCeil time).toNat : Int) * NANOS_PER_SEC < time + NANOS_PER_SEC := by
  have hle := toNat_unixSecondsCeil_le h
  have hdiv := Nat.div_add_mod time.toNat NANOS_PER_SEC
  have htime : (time.toNat : Int) = time := Int.toNat_of_nonneg h
  unfold NANOS_PER_SEC at *
  split at hle <;> omega

theorem checkedAdd_some {time sum : SystemTime} {seconds : UInt64}
    (h : checkedAdd time seconds = some sum) : sum = time + seconds.toNat * NANOS_PER_SEC := by
  simp only [checkedAdd] at h
  split at h
  · cases h
    rfl
  · cases h

theorem le_add_seconds (time : SystemTime) (seconds : UInt64) :
    time ≤ time + seconds.toNat * NANOS_PER_SEC :=
  Int.le_add_of_nonneg_right (Int.mul_nonneg (Int.natCast_nonneg _) (Int.natCast_nonneg _))

theorem lt_add_second {time deadline : SystemTime} (h : time < deadline) :
    time < deadline + NANOS_PER_SEC :=
  Int.lt_of_lt_of_le h (Int.le_add_of_nonneg_right (Int.natCast_nonneg _))

theorem le_expireDeadline (reading : SystemTime) (seconds : UInt64) :
    reading ≤ MemoryStore.expireDeadline reading seconds := by
  unfold MemoryStore.expireDeadline
  cases hsum : checkedAdd reading seconds with
  | none => exact Int.le_refl reading
  | some sum =>
    rw [Option.getD_some, checkedAdd_some hsum]
    exact le_add_seconds reading seconds

/-- The deadline that an `EXPIRE` logs, before rounding, is not later than the live one. -/
theorem logged_le_expireDeadline {clock : Clock} {seconds : UInt64}
    (hfallback : clock.fallbackNow ≤ clock.expireNow)
    (hdeadline : clock.deadlineNow ≤ clock.expireNow)
    (hrange : (checkedAdd clock.deadlineNow seconds).isSome →
      (checkedAdd clock.expireNow seconds).isSome) :
    (checkedAdd clock.deadlineNow seconds).getD clock.fallbackNow ≤
      MemoryStore.expireDeadline clock.expireNow seconds := by
  cases hsum : checkedAdd clock.deadlineNow seconds with
  | none => exact Int.le_trans hfallback (le_expireDeadline clock.expireNow seconds)
  | some sum =>
    obtain ⟨sum', hsum'⟩ := Option.isSome_iff_exists.mp (hrange (by rw [hsum]; rfl))
    rw [MemoryStore.expireDeadline, hsum', Option.getD_some, Option.getD_some,
      checkedAdd_some hsum, checkedAdd_some hsum']
    exact Int.add_le_add_right hdeadline _

theorem epoch_le_logged {clock : Clock} (hepoch : UNIX_EPOCH ≤ clock.deadlineNow)
    (hfallback : clock.deadlineNow ≤ clock.fallbackNow) (seconds : UInt64) :
    UNIX_EPOCH ≤ (checkedAdd clock.deadlineNow seconds).getD clock.fallbackNow := by
  cases hsum : checkedAdd clock.deadlineNow seconds with
  | none => exact Int.le_trans hepoch hfallback
  | some sum =>
    rw [Option.getD_some, checkedAdd_some hsum]
    exact Int.le_trans hepoch (le_add_seconds clock.deadlineNow seconds)

/-- A record that sets a deadline later than the restart sets the one it names. -/
theorem unixDeadline_of_lt {restart : SystemTime} {unixSeconds : UInt64}
    (h : restart < MemoryStore.unixDeadline restart unixSeconds) (reading : SystemTime) :
    MemoryStore.unixDeadline reading unixSeconds = unixSeconds.toNat * NANOS_PER_SEC := by
  unfold MemoryStore.unixDeadline at h ⊢
  cases hsum : checkedAdd UNIX_EPOCH unixSeconds with
  | none =>
    rw [hsum] at h
    exact absurd h (Int.lt_irrefl restart)
  | some sum =>
    rw [Option.getD_some, checkedAdd_some hsum, UNIX_EPOCH, Int.zero_add]

/-- **A logged deadline is less than a second too late**: always that of an `EXPIREAT`, and
    that of an `EXPIRE` on a clock after the epoch, unless the sum of clock and seconds
    overflows between its two readings. -/
theorem date_rounds {command : Command} {clock : Clock} {key : String} {deadline : SystemTime}
    {unixSeconds : UInt64} (htouch : command.touch clock key = .date deadline unixSeconds)
    (hepoch : UNIX_EPOCH ≤ clock.deadlineNow) (hfallback : clock.deadlineNow ≤ clock.fallbackNow)
    (hexpire : clock.fallbackNow ≤ clock.expireNow)
    (hrange : ∀ k seconds, command = .expire k seconds →
      (checkedAdd clock.deadlineNow seconds).isSome → (checkedAdd clock.expireNow seconds).isSome)
    {restart : SystemTime} (hlater : restart < MemoryStore.unixDeadline restart unixSeconds) :
    restart < deadline + NANOS_PER_SEC := by
  have hnamed := unixDeadline_of_lt hlater
  rw [hnamed] at hlater
  cases command with
  | expireAt k seconds =>
    simp only [Command.touch] at htouch
    split at htouch
    · obtain ⟨rfl, rfl⟩ := Touch.date.inj htouch
      rw [hnamed]
      exact lt_add_second hlater
    · cases htouch
  | expire k seconds =>
    simp only [Command.touch] at htouch
    split at htouch
    · obtain ⟨rfl, rfl⟩ := Touch.date.inj htouch
      have hceil := unixSecondsCeil_lt (epoch_le_logged hepoch hfallback seconds)
      have hlogged := logged_le_expireDeadline hexpire (Int.le_trans hfallback hexpire)
        (hrange k seconds rfl)
      exact Int.lt_of_lt_of_le (Int.lt_trans hlater hceil) (Int.add_le_add_right hlogged _)
    · cases htouch
  | ping | echo | dbSize | info | aerugoStats => cases htouch
  | _ =>
    simp only [Command.touch] at htouch
    split at htouch <;> cases htouch

/-! ### Keys that replay holds -/

/-- Two strings, or two lists of which the second is not longer. -/
def Covers : Value → Value → Prop
  | .string _, .string _ => True
  | .list items, .list items' => items'.length ≤ items.length
  | _, _ => False

/-- The replayed entry has a live one, which the live store still shows at the restart or
    no longer by less than a second. -/
def Backed (restart : SystemTime) (live replayed : Option Entry) : Prop :=
  ∃ entry entry', live = some entry ∧ replayed = some entry' ∧
    (∀ deadline, entry.expiresAt = some deadline → restart < deadline + NANOS_PER_SEC) ∧
    Covers entry.value entry'.value

/-- Why replay may hold a key: it does not, or a deadline passed shortly before the restart,
    or the live store holds the key as well. -/
def Accounted (restart : SystemTime) (passed : List SystemTime) (live replayed : Option Entry) :
    Prop :=
  replayed = none ∨ Recent restart passed ∨ Backed restart live replayed

variable {restart now : SystemTime} {passed : List SystemTime} {live replayed : Option Entry}

theorem lapsed_of_expired {entry : Entry} (h : entry.isExpired now = true) :
    ∃ deadline, entry.expiresAt = some deadline ∧ lapsed now (some entry) = some deadline := by
  rcases entry with ⟨value, _ | deadline⟩
  · cases h
  · have hpast : deadline ≤ now := of_decide_eq_true h
    exact ⟨deadline, rfl, by simp [lapsed, hpast]⟩

/-- An entry that expires leaves its deadline. -/
theorem Accounted.visible_live (h : Accounted restart passed live replayed) (now : SystemTime) :
    Accounted restart (passed ++ (lapsed now live).toList) (visible now live) replayed := by
  rcases h with hnone | hrecent | ⟨entry, entry', rfl, hreplayed, htime, hcovers⟩
  · exact Or.inl hnone
  · exact Or.inr (Or.inl (hrecent.append _))
  · cases hexpired : entry.isExpired now with
    | true =>
      obtain ⟨deadline, hdeadline, hlapsed⟩ := lapsed_of_expired hexpired
      refine Or.inr (Or.inl ⟨deadline, ?_, htime deadline hdeadline⟩)
      rw [hlapsed]
      simp
    | false =>
      refine Or.inr (Or.inr ⟨entry, entry', ?_, hreplayed, htime, hcovers⟩)
      rw [visible_some, hexpired, if_neg Bool.false_ne_true]

theorem Accounted.visible_replayed (h : Accounted restart passed live replayed)
    (now : SystemTime) : Accounted restart passed live (visible now replayed) := by
  cases replayed with
  | none => exact h
  | some entry =>
    rw [visible_some]
    split
    · exact Or.inl rfl
    · exact h

theorem Accounted.append (h : Accounted restart passed live replayed) (more : List SystemTime) :
    Accounted restart (passed ++ more) live replayed :=
  h.imp_right (Or.imp_left fun hrecent => hrecent.append more)

/-! ### Touches -/

theorem Accounted.date {deadline : SystemTime} {unixSeconds : UInt64}
    (h : Accounted restart passed live replayed)
    (htime : Recent restart passed ∨ InTime restart (.date deadline unixSeconds) live) :
    Accounted restart (passed ++ lapsedAtOnce now (.date deadline unixSeconds) live)
      (expireCell now deadline live)
      (expireCell restart (MemoryStore.unixDeadline restart unixSeconds) replayed) := by
  rcases htime with hrecent | htime
  · exact Or.inr (Or.inl (hrecent.append _))
  by_cases hpast : MemoryStore.unixDeadline restart unixSeconds ≤ restart
  · exact Or.inl (by rw [expireCell, if_pos hpast])
  rcases h with rfl | hrecent | ⟨entry, entry', rfl, rfl, -, hcovers⟩
  · exact Or.inl (by rw [expireCell, if_neg hpast]; rfl)
  · exact Or.inr (Or.inl (hrecent.append _))
  · have hrestart : restart < deadline + NANOS_PER_SEC := htime (Int.not_le.mp hpast)
    by_cases hover : deadline ≤ now
    · refine Or.inr (Or.inl ⟨deadline, ?_, hrestart⟩)
      simp [lapsedAtOnce, hover]
    · rw [expireCell, expireCell, if_neg hover, if_neg hpast]
      refine Or.inr (Or.inr ⟨_, _, rfl, rfl, ?_, hcovers⟩)
      rintro _ ⟨⟩
      exact hrestart

theorem Accounted.persist (h : Accounted restart passed live replayed) :
    Accounted restart passed (persistCell live) (persistCell replayed) := by
  rcases h with rfl | hrecent | ⟨entry, entry', rfl, rfl, -, hcovers⟩
  · exact Or.inl rfl
  · exact Or.inr (Or.inl hrecent)
  · exact Or.inr (Or.inr ⟨_, _, rfl, rfl, nofun, hcovers⟩)

theorem Accounted.push {side : Side} {values : List Bytes}
    (h : Accounted restart passed live replayed)
    (htime : Recent restart passed ∨ InTime restart (.push side values) live)
    (hok : ¬ (Touch.push side values).Rejected live) :
    Accounted restart passed ((pushEntry side values live).or live)
      ((pushEntry side values replayed).or replayed) := by
  rcases htime with hrecent | htime
  · exact Or.inr (Or.inl hrecent)
  rcases h with rfl | hrecent | ⟨entry, entry', rfl, rfl, hdeadline, hcovers⟩
  · rcases live with _ | ⟨value | items, expiresAt⟩
    · exact Or.inr (Or.inr ⟨_, _, rfl, rfl, nofun, Nat.le_refl _⟩)
    · exact absurd trivial hok
    · refine Or.inr (Or.inr ⟨_, _, rfl, rfl, ?_, ?_⟩)
      · rintro deadline (rfl : expiresAt = some deadline)
        exact htime
      · change (values.foldl (pushValue side) []).length ≤
          (values.foldl (pushValue side) items).length
        rw [length_foldl_pushValue, length_foldl_pushValue, List.length_nil]
        omega
  · exact Or.inr (Or.inl hrecent)
  · rcases entry with ⟨value | items, expiresAt⟩
    · exact absurd trivial hok
    · rcases entry' with ⟨value | items', expiresAt'⟩
      · exact hcovers.elim
      · have hlength : items'.length ≤ items.length := hcovers
        refine Or.inr (Or.inr ⟨_, _, rfl, rfl, hdeadline, ?_⟩)
        change (values.foldl (pushValue side) items').length ≤
          (values.foldl (pushValue side) items).length
        rw [length_foldl_pushValue, length_foldl_pushValue]
        omega

theorem Accounted.pop {side : Side} (h : Accounted restart passed live replayed)
    (hok : ¬ (Touch.pop side).Rejected live) :
    Accounted restart passed (popCell side live) (popCell side replayed) := by
  rcases h with rfl | hrecent | ⟨entry, entry', rfl, rfl, hdeadline, hcovers⟩
  · exact Or.inl rfl
  · exact Or.inr (Or.inl hrecent)
  · rcases entry with ⟨value | items, expiresAt⟩
    · exact absurd trivial hok
    · rcases entry' with ⟨value | items', expiresAt'⟩
      · exact hcovers.elim
      · have hlength : items'.length ≤ items.length := hcovers
        rw [popCell_list, popCell_list]
        by_cases hlast : (popValue side items').2.isEmpty = true
        · rw [if_pos hlast]
          exact Or.inl rfl
        · have hrest : ¬ (popValue side items).2.isEmpty = true := by
            rw [List.isEmpty_iff_length_eq_zero, length_popValue] at hlast ⊢
            omega
          rw [if_neg hlast, if_neg hrest]
          refine Or.inr (Or.inr ⟨_, _, rfl, rfl, hdeadline, ?_⟩)
          change (popValue side items').2.length ≤ (popValue side items).2.length
          rw [length_popValue, length_popValue]
          omega

/-- **One touch** of a key that replay can account for. -/
theorem Accounted.update {touch : Touch} (h : Accounted restart passed live replayed)
    (htime : Recent restart passed ∨ InTime restart touch live) (hok : ¬ touch.Rejected live) :
    Accounted restart (passed ++ lapsedAtOnce now touch live) (touch.update now live)
      ((touch.replayed restart).update restart replayed) := by
  cases touch with
  | skip | look => exact h.append _
  | write value => exact Or.inr (Or.inr ⟨_, _, rfl, rfl, nofun, trivial⟩)
  | delete => exact Or.inl rfl
  | date deadline unixSeconds => exact h.date htime
  | persist => exact h.persist.append _
  | push side values => exact (h.push htime hok).append _
  | pop side => exact (h.pop hok).append _

/-! ### Runs -/

/-- The deadlines of the key that passed while they were in force. -/
def nextPassed (key : String) (passed : List SystemTime) (request : Request)
    (store : MemoryStore) : List SystemTime :=
  passed ++ (lapsed request.env.clock.now (store.entries.lookup key)).toList ++
    lapsedAtOnce request.env.clock.now (requestTouch key request) (shown key request store)

/-- What the request does to the key is in time for the restart, or a deadline of the key
    passed shortly before that already. -/
def TimedRequest (key : String) (restart : SystemTime) (passed : List SystemTime)
    (request : Request) (store : MemoryStore) : Prop :=
  Recent restart passed ∨ InTime restart (requestTouch key request) (shown key request store)

instance (key : String) (restart : SystemTime) (passed : List SystemTime) (request : Request)
    (store : MemoryStore) : Decidable (TimedRequest key restart passed request store) :=
  inferInstanceAs (Decidable (Recent restart passed ∨ InTime restart _ _))

def TimedRun (key : String) (restart : SystemTime) (requests : List Request)
    (store : MemoryStore) : Prop :=
  Along (nextPassed key) (TimedRequest key restart) [] requests store

instance (key : String) (restart : SystemTime) (requests : List Request) (store : MemoryStore) :
    Decidable (TimedRun key restart requests store) :=
  decidableAlong _ _ _ _

/-- The deadlines of the key that passed in the live store, up to the restart. -/
def passedDeadlines (key : String) (restart : SystemTime) (requests : List Request)
    (store : MemoryStore) : List SystemTime :=
  historyAfter (nextPassed key) [] requests store ++
    (lapsed restart ((runStore requests store).entries.lookup key)).toList

theorem accounted_run {config : StoreConfig} (hlimit : config.maxMemoryBytes = none)
    {requests : List Request} {key : String} {restart : SystemTime}
    (htimed : TimedRun key restart requests (.withConfig config)) {envs : Nat → Env}
    (henvs : ∀ round, (envs round).clock = stoppedClock restart) :
    Accounted restart (historyAfter (nextPassed key) [] requests (.withConfig config))
      ((runStore requests (.withConfig config)).entries.lookup key)
      ((replayCommands envs (loggedCommands requests (.withConfig config)) 0 0
        (.withConfig config)).2.entries.lookup key) := by
  refine lockstep_key (fun passed live replayed => Accounted restart passed live replayed)
    ?_ ?_ ?_ henvs hlimit hlimit (Or.inl rfl) htimed
  · intro passed request live replayed h _
    exact (h.append _).append _
  · intro passed request live replayed h _
    exact (h.visible_live _).append _
  · intro passed request live replayed h htime hok
    exact ((h.visible_live _).visible_replayed restart).update
      (htime.imp_left fun hrecent => hrecent.append _) hok

theorem Timely.now_le {requests : List Request} {restart : SystemTime}
    (h : Timely requests restart) {request : Request} (hrequest : request ∈ requests) :
    request.env.clock.now ≤ restart := by
  refine (List.pairwise_append.mp h).2.2 _ ?_ restart List.mem_cons_self
  exact List.mem_flatMap.mpr ⟨request, hrequest, by simp⟩

theorem lapsed_le {now deadline : SystemTime} {cell : Option Entry}
    (h : deadline ∈ (lapsed now cell).toList) : deadline ≤ now := by
  rw [Option.mem_toList] at h
  exact of_decide_eq_true (Option.filter_eq_some_iff.mp h).2

theorem lapsedAtOnce_le {now deadline : SystemTime} {touch : Touch} {cell : Option Entry}
    (h : deadline ∈ lapsedAtOnce now touch cell) : deadline ≤ now := by
  unfold lapsedAtOnce at h
  split at h
  · split at h
    · rename_i hpast
      rw [List.mem_singleton.mp h]
      exact hpast
    · cases h
  · cases h

/-- No deadline has passed that is later than the clock. -/
theorem passed_le {key : String} {restart : SystemTime} {requests : List Request}
    (hnow : ∀ request ∈ requests, request.env.clock.now ≤ restart) {passed : List SystemTime}
    (hpassed : ∀ deadline ∈ passed, deadline ≤ restart) {store : MemoryStore} :
    ∀ deadline ∈ historyAfter (nextPassed key) passed requests store, deadline ≤ restart := by
  induction requests generalizing passed store with
  | nil => exact hpassed
  | cons request requests ih =>
    refine ih (fun r hr => hnow r (List.mem_cons_of_mem _ hr)) ?_
    intro deadline hdeadline
    have hrequest := hnow request List.mem_cons_self
    simp only [nextPassed, List.mem_append] at hdeadline
    rcases hdeadline with (hbefore | hlapsed) | honce
    · exact hpassed deadline hbefore
    · exact Int.le_trans (lapsed_le hlapsed) hrequest
    · exact Int.le_trans (lapsedAtOnce_le honce) hrequest

/-- **Replay brings nothing back.**  A key whose touches are in time, and that the replayed
    store shows at the restart, is shown by the live store as well, or a deadline of it
    passed there less than a second before. -/
theorem replay_shows_only_live (config : StoreConfig) (hlimit : config.maxMemoryBytes = none)
    (requests : List Request) (hwritten : ∀ request ∈ requests, request.outcome = .written)
    (restart : SystemTime) (htimely : Timely requests restart) (key : String)
    (htimed : TimedRun key restart requests (.withConfig config)) (envs : Nat → Env)
    (henvs : ∀ round, (envs round).clock = stoppedClock restart) :
    let live := (serve requests (.initial config)).2
    let replayed := (replay .unlimited envs live.aof (.withConfig config)).2
    ∀ entry, visible restart (replayed.entries.lookup key) = some entry →
      (visible restart (live.store.entries.lookup key)).isSome ∨
        ∃ deadline ∈ passedDeadlines key restart requests (.withConfig config),
          deadline ≤ restart ∧ restart < deadline + NANOS_PER_SEC := by
  intro live replayed entry hentry
  have hrun := (accounted_run hlimit htimed henvs).visible_live restart
  have hpassed : ∀ deadline ∈ passedDeadlines key restart requests (.withConfig config),
      deadline ≤ restart := by
    intro deadline hdeadline
    rcases List.mem_append.mp hdeadline with hbefore | hlapsed
    · exact passed_le (fun _ hrequest => htimely.now_le hrequest)
        (fun _ hnil => absurd hnil List.not_mem_nil) deadline hbefore
    · exact lapsed_le hlapsed
  simp only [replayed, live, replay_serve hwritten] at hentry
  simp only [live, serve_store hwritten]
  rcases hrun with hnone | ⟨deadline, hmem, hrecent⟩ | ⟨shown, _, hshown, -, -, -⟩
  · rw [hnone] at hentry
    cases hentry
  · exact Or.inr ⟨deadline, hmem, hpassed deadline hmem, hrecent⟩
  · rw [hshown]
    exact Or.inl rfl

/-! A queue with a deadline: pushed to and taken from while the deadline lies ahead of the
restart, and pushed to before a deadline that has passed by then. -/

def queueRequests : List Request := [
  requestAt 0 "RPUSH" [utf8 "k", [1]],
  requestAt 0 "EXPIREAT" [utf8 "k", utf8 "10"],
  requestAt 5 "RPUSH" [utf8 "k", [2]]]

theorem replay_shows_only_live_queue :
    (visible (8 * NANOS_PER_SEC)
        ((serve queueRequests (.initial .default)).2.store.entries.lookup "k")).isSome ∨
      ∃ deadline ∈ passedDeadlines "k" (8 * NANOS_PER_SEC) queueRequests (.withConfig .default),
        deadline ≤ 8 * NANOS_PER_SEC ∧ 8 * NANOS_PER_SEC < deadline + NANOS_PER_SEC :=
  replay_shows_only_live .default rfl queueRequests (by decide) (8 * NANOS_PER_SEC)
    (by decide +kernel) "k" (by decide +kernel) (fun _ => .at (8 * NANOS_PER_SEC) 0)
    (fun _ => rfl) { value := .list [[1], [2]], expiresAt := some (10 * NANOS_PER_SEC) }
    (by decide +kernel)

theorem replay_revives_queue :
    Timely queueRequests (20 * NANOS_PER_SEC) ∧
      visible (20 * NANOS_PER_SEC)
        ((serve queueRequests (.initial .default)).2.store.entries.lookup "k") = none ∧
      (∀ deadline ∈ passedDeadlines "k" (20 * NANOS_PER_SEC) queueRequests (.withConfig .default),
        ¬ 20 * NANOS_PER_SEC < deadline + NANOS_PER_SEC) ∧
      visible (20 * NANOS_PER_SEC) ((replay .unlimited (fun _ => .at (20 * NANOS_PER_SEC) 0)
        (serve queueRequests (.initial .default)).2.aof (.withConfig .default)).2.entries.lookup
          "k") = some { value := .list [[2]], expiresAt := none } := by
  decide +kernel

end AerugoCache.Replay
