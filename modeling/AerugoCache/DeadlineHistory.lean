import Mathlib.Data.List.Induction
import AerugoCache.StoreSteps

/-!
# Where a deadline comes from

An entry carries its deadline through every operation that keeps it.  So the deadline of
an entry tells the history of its key: an accepted `expire` or `expire_at_unix` set it,
and since then the key has been in the map all the time, with no `set`, no `persist` and
no other deadline.
-/

namespace AerugoCache.Storage

open AerugoCache.ByteText AerugoCache.KeyedMap

/-! ### The events of a key -/

/-- An accepted `expire` or `expire_at_unix` on the key sets a deadline in the future. -/
def StoreOp.Dates (op : StoreOp) (env : OpEnv) (store : MemoryStore) (key : String)
    (deadline : SystemTime) : Prop :=
  op.act env key = .date deadline ∧ env.now < deadline ∧ (op.run env store).1 = .done true

/-- The key stays in the map, and there is no successful `set` or `persist` on it and no new
    deadline. -/
structure StoreOp.Keeps (op : StoreOp) (env : OpEnv) (store : MemoryStore) (key : String) :
    Prop where
  present : ((op.run env store).2.entries.lookup key).isSome
  unexpired : op.act env key ≠ .pass → (visible env.now (store.entries.lookup key)).isSome
  not_set : ∀ value, op = .set key value → (op.run env store).1.IsOutOfMemory
  not_persisted : op = .persist key → (op.run env store).1 = .done false
  not_dated : ∀ deadline, ¬ op.Dates env store key deadline

/-- Every operation of the run keeps the key as it is. -/
def Undisturbed (key : String) : List (StoreOp × OpEnv) → MemoryStore → Prop
  | [], _ => True
  | (op, env) :: ops, store =>
      op.Keeps env store key ∧ Undisturbed key ops (op.run env store).2

/-- The deadline was set in the run, and the key undisturbed since. -/
def LastDated (ops : List (StoreOp × OpEnv)) (store : MemoryStore) (key : String)
    (deadline : SystemTime) : Prop :=
  ∃ earlier op env later, ops = earlier ++ (op, env) :: later ∧
    op.Dates env (runOps earlier store) key deadline ∧
    Undisturbed key later (op.run env (runOps earlier store)).2

theorem undisturbed_append (key : String) (ops ops' : List (StoreOp × OpEnv))
    (store : MemoryStore) :
    Undisturbed key (ops ++ ops') store ↔
      Undisturbed key ops store ∧ Undisturbed key ops' (runOps ops store) := by
  induction ops generalizing store with
  | nil => simp [Undisturbed, runOps]
  | cons event ops ih =>
    obtain ⟨op, env⟩ := event
    simp only [List.cons_append, Undisturbed, ih, and_assoc]
    rfl

/-! ### One operation -/

theorem StoreOp.act_eq_put {op : StoreOp} {env : OpEnv} {key : String} {value : Bytes}
    (h : op = .set key value) : op.act env key = .put value := by
  simp [h, StoreOp.act]

theorem StoreOp.eq_set_of_act {op : StoreOp} {env : OpEnv} {key : String} {value : Bytes}
    (h : op.act env key = .put value) : op = .set key value := by
  cases op with
  | set k v =>
    simp only [StoreOp.act] at h
    split at h
    · rename_i hk
      cases h
      rw [hk]
    · cases h
  | cleanupExpired | stats => cases h
  | _ =>
    simp only [StoreOp.act] at h
    split at h <;> cases h

theorem StoreOp.eq_persist_of_act {op : StoreOp} {env : OpEnv} {key : String}
    (h : op.act env key = .undate) : op = .persist key := by
  cases op with
  | persist k =>
    simp only [StoreOp.act] at h
    split at h
    · rename_i hk
      rw [hk]
    · cases h
  | cleanupExpired | stats => cases h
  | _ =>
    simp only [StoreOp.act] at h
    split at h <;> cases h

/-- Setting a deadline succeeds on a live entry. -/
theorem StoreOp.result_of_date {op : StoreOp} {env : OpEnv} {store : MemoryStore} {key : String}
    {deadline : SystemTime} (h : op.act env key = .date deadline) :
    (op.run env store).1 = .done (visible env.now (store.entries.lookup key)).isSome := by
  cases op with
  | expire k seconds =>
    simp only [StoreOp.act] at h
    split at h
    · rename_i hk
      rw [hk]
      exact congrArg (fun outcome => StoreResult.done outcome.1) (store.expireAt_eq env.now k _)
    · cases h
  | expireAtUnix k unixSeconds =>
    simp only [StoreOp.act] at h
    split at h
    · rename_i hk
      rw [hk]
      exact congrArg (fun outcome => StoreResult.done outcome.1) (store.expireAt_eq env.now k _)
    · cases h
  | cleanupExpired | stats => cases h
  | _ =>
    simp only [StoreOp.act] at h
    split at h <;> cases h

theorem StoreOp.result_of_persist (env : OpEnv) (store : MemoryStore) (key : String) :
    ((StoreOp.persist key).run env store).1 =
      .done ((visible env.now (store.entries.lookup key)).any fun entry =>
        entry.expiresAt.isSome) := by
  change StoreResult.done (store.persist env.now key).1 = _
  rw [MemoryStore.persist_eq]

theorem StoreOp.dates_iff {op : StoreOp} {env : OpEnv} {store : MemoryStore} {key : String}
    {deadline : SystemTime} :
    op.Dates env store key deadline ↔ op.act env key = .date deadline ∧ env.now < deadline ∧
      (visible env.now (store.entries.lookup key)).isSome := by
  unfold StoreOp.Dates
  constructor
  · rintro ⟨hact, hfuture, hdone⟩
    rw [StoreOp.result_of_date hact] at hdone
    exact ⟨hact, hfuture, StoreResult.done.inj hdone⟩
  · rintro ⟨hact, hfuture, hlive⟩
    rw [StoreOp.result_of_date hact, hlive]
    exact ⟨hact, hfuture, rfl⟩

/-- The act leaves the deadline of an entry that it leaves. -/
def KeyAct.KeepsDeadline : KeyAct → Prop
  | .pass | .look | .drop | .push _ _ | .pop _ => True
  | .put _ | .date _ | .undate => False

theorem KeyAct.expiresAt_kept {act : KeyAct} (h : act.KeepsDeadline) {now : SystemTime}
    {before after : Entry} (hafter : act.update now (some before) = some after) :
    after.expiresAt = before.expiresAt := by
  rcases before with ⟨value | list, expiresAt⟩
  · cases act with
    | put | date | undate => exact h.elim
    | drop => cases hafter
    | _ =>
      cases hafter
      rfl
  · cases act with
    | put | date | undate => exact h.elim
    | drop => cases hafter
    | pop side =>
      simp only [KeyAct.update, popCell] at hafter
      split at hafter
      · cases hafter
      · cases hafter
        rfl
    | _ =>
      cases hafter
      rfl

/-- Nothing else takes a deadline over from nothing. -/
theorem KeyAct.expiresAt_fresh {act : KeyAct} (h : act.KeepsDeadline) {now : SystemTime}
    {after : Entry} (hafter : act.update now none = some after) : after.expiresAt = none := by
  cases act with
  | put | date | undate => exact h.elim
  | push side values =>
    cases hafter
    rfl
  | _ => cases hafter

/-- An operation without an accepted `set`, `persist` or deadline keeps a key that stays. -/
theorem StoreOp.keeps_of_act {op : StoreOp} {env : OpEnv} {store : MemoryStore} {key : String}
    (hact : (op.act env key).KeepsDeadline)
    (hpresent : ((op.run env store).2.entries.lookup key).isSome)
    (hlive : op.act env key ≠ .pass → (visible env.now (store.entries.lookup key)).isSome) :
    op.Keeps env store key where
  present := hpresent
  unexpired := hlive
  not_set := by
    rintro value rfl
    rw [StoreOp.act_eq_put rfl] at hact
    exact hact.elim
  not_persisted := by
    rintro rfl
    simp [StoreOp.act, KeyAct.KeepsDeadline] at hact
  not_dated := by
    rintro deadline ⟨hdate, -⟩
    rw [hdate] at hact
    exact hact

/-- A refused operation keeps a key that stays. -/
theorem StoreOp.keeps_of_refused {op : StoreOp} {env : OpEnv} {store : MemoryStore} {key : String}
    (hrefused : ¬ op.Admitted env store) {after : Entry}
    (hafter : (op.run env store).2.entries.lookup key = some after) :
    op.Keeps env store key ∧ store.entries.lookup key = some after := by
  have hmemory := (op.isOutOfMemory_iff env store).mpr hrefused
  have hlookup := StoreOp.lookup_of_refused hrefused key
  rw [hafter] at hlookup
  constructor
  · constructor
    · rw [hafter]
      rfl
    · intro hact
      rw [if_neg hact] at hlookup
      rw [← hlookup]
      rfl
    · intro _ _
      exact hmemory
    · rintro rfl
      exact absurd hmemory (fun h => h)
    · rintro deadline ⟨-, -, hdone⟩
      rw [hdone] at hmemory
      exact hmemory
  · split at hlookup
    · exact hlookup.symm
    · exact (visible_eq_some.mp hlookup.symm).1

/-- The operation sets the deadline, or keeps the key, which had it. -/
def StoreOp.LeavesDeadline (op : StoreOp) (env : OpEnv) (store : MemoryStore) (key : String)
    (deadline : SystemTime) : Prop :=
  op.Dates env store key deadline ∨
    op.Keeps env store key ∧ ∃ before, store.entries.lookup key = some before ∧
      before.expiresAt = some deadline

section

variable {op : StoreOp} {env : OpEnv} {store : MemoryStore} {key : String} {after : Entry}

theorem StoreOp.not_dates_of_act {act : KeyAct} (hact : op.act env key = act)
    {deadline : SystemTime} (hne : act ≠ .date deadline) : ¬ op.Dates env store key deadline := by
  rintro ⟨hdate, -⟩
  exact hne (hact.symm.trans hdate)

/-- After an accepted `set` there is no deadline. -/
theorem StoreOp.expiresAt_of_put {value : Bytes} (hadmitted : op.Admitted env store)
    (hact : op.act env key = .put value)
    (hcell : some after = (op.act env key).cell env.now (store.entries.lookup key))
    (deadline : SystemTime) :
    after.expiresAt = some deadline ↔ op.LeavesDeadline env store key deadline := by
  have hkept : ¬ op.Keeps env store key := by
    intro h
    have hmemory := h.not_set value (StoreOp.eq_set_of_act hact)
    rw [StoreOp.isOutOfMemory_iff] at hmemory
    exact hmemory hadmitted
  have hnot : ¬ op.Dates env store key deadline := StoreOp.not_dates_of_act hact nofun
  rw [hact] at hcell
  cases hcell
  simp [StoreOp.LeavesDeadline, hkept, hnot]

/-- After `persist` there is no deadline; it keeps a key that had none. -/
theorem StoreOp.expiresAt_of_undate (hact : op.act env key = .undate)
    (hcell : some after = (op.act env key).cell env.now (store.entries.lookup key))
    (deadline : SystemTime) :
    after.expiresAt = some deadline ↔ op.LeavesDeadline env store key deadline := by
  have hpersist := StoreOp.eq_persist_of_act hact
  have hnot : ¬ op.Dates env store key deadline := StoreOp.not_dates_of_act hact nofun
  rw [hact] at hcell
  obtain ⟨before, hvisible, rfl⟩ := Option.map_eq_some_iff.mp hcell.symm
  have hkept : op.Keeps env store key → before.expiresAt = none := by
    intro h
    have hdone := h.not_persisted hpersist
    rw [hpersist, StoreOp.result_of_persist, hvisible] at hdone
    simpa using StoreResult.done.inj hdone
  constructor
  · intro h
    cases h
  · rintro (hdated | ⟨h, other, hother, hdeadline⟩)
    · exact absurd hdated hnot
    · rw [(visible_eq_some.mp hvisible).1] at hother
      cases hother
      rw [hkept h] at hdeadline
      cases hdeadline

/-- After `expire` an entry that is still there has the deadline it set. -/
theorem StoreOp.expiresAt_of_date {set : SystemTime} (hact : op.act env key = .date set)
    (hcell : some after = (op.act env key).cell env.now (store.entries.lookup key))
    (deadline : SystemTime) :
    after.expiresAt = some deadline ↔ op.LeavesDeadline env store key deadline := by
  rw [hact] at hcell
  have hupdate : some after =
      expireCell env.now set (visible env.now (store.entries.lookup key)) := hcell
  have hfuture : ¬ set ≤ env.now := by
    intro hpast
    rw [expireCell, if_pos hpast] at hupdate
    cases hupdate
  rw [expireCell, if_neg hfuture] at hupdate
  obtain ⟨before, hvisible, rfl⟩ := Option.map_eq_some_iff.mp hupdate.symm
  have hdated : ∀ other, op.Dates env store key other ↔ set = other := by
    intro other
    rw [StoreOp.dates_iff, hact, hvisible]
    constructor
    · rintro ⟨hsame, -⟩
      exact KeyAct.date.inj hsame
    · rintro rfl
      exact ⟨rfl, Int.not_le.mp hfuture, rfl⟩
  have hkept : ¬ op.Keeps env store key := fun h => h.not_dated set ((hdated set).mpr rfl)
  simp [StoreOp.LeavesDeadline, hkept, hdated]

/-- An act that keeps deadlines: the entry was there with its deadline, or it is new. -/
theorem StoreOp.expiresAt_of_kept (hkeeps : (op.act env key).KeepsDeadline)
    (hpresent : ((op.run env store).2.entries.lookup key).isSome)
    (hcell : some after = (op.act env key).cell env.now (store.entries.lookup key))
    (deadline : SystemTime) :
    after.expiresAt = some deadline ↔ op.LeavesDeadline env store key deadline := by
  have hdates : ¬ op.Dates env store key deadline := by
    rintro ⟨hdate, -⟩
    rw [hdate] at hkeeps
    exact hkeeps
  by_cases hpass : op.act env key = .pass
  · rw [hpass] at hcell
    have hkept := StoreOp.keeps_of_act hkeeps hpresent fun h => absurd hpass h
    have hbefore : store.entries.lookup key = some after := hcell.symm
    simp [StoreOp.LeavesDeadline, hdates, hkept, hbefore]
  · rw [KeyAct.cell_of_ne_pass hpass] at hcell
    rcases hvisible : visible env.now (store.entries.lookup key) with _ | before
    · -- the entry had expired, or there was none
      rw [hvisible] at hcell
      have hfresh := KeyAct.expiresAt_fresh hkeeps hcell.symm
      have hkept : ¬ op.Keeps env store key := by
        intro h
        have hlive := h.unexpired hpass
        rw [hvisible] at hlive
        cases hlive
      simp [StoreOp.LeavesDeadline, hdates, hkept, hfresh]
    · rw [hvisible] at hcell
      have hsame := KeyAct.expiresAt_kept hkeeps hcell.symm
      have hkept := StoreOp.keeps_of_act hkeeps hpresent fun _ => by rw [hvisible]; rfl
      simp [StoreOp.LeavesDeadline, hdates, hkept, (visible_eq_some.mp hvisible).1, hsame]

end

/-- A key that an operation keeps was in the map before it. -/
theorem StoreOp.Keeps.held {op : StoreOp} {env : OpEnv} {store : MemoryStore} {key : String}
    (h : op.Keeps env store key) : ∃ before, store.entries.lookup key = some before := by
  obtain ⟨after, hafter⟩ := Option.isSome_iff_exists.mp h.present
  by_cases hadmitted : op.Admitted env store
  · by_cases hpass : op.act env key = .pass
    · have hlookup := StoreOp.lookup_of_admitted hadmitted key
      rw [hafter, hpass] at hlookup
      rcases hlookup with hcell | ⟨-, hgone⟩
      · exact ⟨after, hcell.symm⟩
      · cases hgone
    · obtain ⟨before, hbefore⟩ := Option.isSome_iff_exists.mp (h.unexpired hpass)
      exact ⟨before, (visible_eq_some.mp hbefore).1⟩
  · exact ⟨after, (StoreOp.keeps_of_refused hadmitted hafter).2⟩

/-- **The deadline after an operation** is one that the operation sets, or the one before it
    if it keeps the key. -/
theorem StoreOp.expiresAt_iff {op : StoreOp} {env : OpEnv} {store : MemoryStore} {key : String}
    {after : Entry} (hafter : (op.run env store).2.entries.lookup key = some after)
    (deadline : SystemTime) :
    after.expiresAt = some deadline ↔ op.LeavesDeadline env store key deadline := by
  by_cases hadmitted : op.Admitted env store
  · have hpresent : ((op.run env store).2.entries.lookup key).isSome := by
      rw [hafter]
      rfl
    have hlookup := StoreOp.lookup_of_admitted hadmitted key
    rw [hafter] at hlookup
    have hcell := hlookup.resolve_right fun h => nomatch h.2
    cases hact : op.act env key with
    | put value => exact StoreOp.expiresAt_of_put hadmitted hact hcell deadline
    | undate => exact StoreOp.expiresAt_of_undate hact hcell deadline
    | date set => exact StoreOp.expiresAt_of_date hact hcell deadline
    | _ =>
      refine StoreOp.expiresAt_of_kept ?_ hpresent hcell deadline
      rw [hact]
      trivial
  · obtain ⟨hkept, hbefore⟩ := StoreOp.keeps_of_refused hadmitted hafter
    have hdates : ¬ op.Dates env store key deadline := hkept.not_dated deadline
    simp [StoreOp.LeavesDeadline, hdates, hkept, hbefore]

/-! ### Runs -/

theorem lastDated_concat (ops : List (StoreOp × OpEnv)) (op : StoreOp) (env : OpEnv)
    (store : MemoryStore) (key : String) (deadline : SystemTime) :
    LastDated (ops ++ [(op, env)]) store key deadline ↔
      op.Dates env (runOps ops store) key deadline ∨
        op.Keeps env (runOps ops store) key ∧ LastDated ops store key deadline := by
  constructor
  · rintro ⟨earlier, dater, daterEnv, later, hsplit, hdates, hkept⟩
    rcases List.eq_nil_or_concat later with rfl | ⟨later, last, rfl⟩
    · obtain ⟨rfl, hlast⟩ := List.append_inj' hsplit rfl
      cases hlast
      exact Or.inl hdates
    · rw [List.concat_eq_append, ← List.cons_append, ← List.append_assoc] at hsplit
      obtain ⟨rfl, hlast⟩ := List.append_inj' hsplit rfl
      cases hlast
      rw [List.concat_eq_append, undisturbed_append] at hkept
      obtain ⟨hlater, hlast, -⟩ := hkept
      refine Or.inr ⟨?_, earlier, dater, daterEnv, later, rfl, hdates, hlater⟩
      rw [runOps_append]
      exact hlast
  · rintro (hdates | ⟨hkeeps, earlier, dater, daterEnv, later, rfl, hdates, hlater⟩)
    · exact ⟨ops, op, env, [], rfl, hdates, trivial⟩
    · refine ⟨earlier, dater, daterEnv, later ++ [(op, env)], by simp, hdates, ?_⟩
      rw [undisturbed_append]
      rw [runOps_append] at hkeeps
      exact ⟨hlater, hkeeps, trivial⟩

/-- The deadlines of a run from the empty store. -/
theorem expiresAt_iff_lastDated (config : StoreConfig) (ops : List (StoreOp × OpEnv))
    {key : String} {entry : Entry}
    (hentry : (runOps ops (.withConfig config)).entries.lookup key = some entry)
    (deadline : SystemTime) :
    entry.expiresAt = some deadline ↔ LastDated ops (.withConfig config) key deadline := by
  induction ops using List.reverseRecOn generalizing entry with
  | nil =>
    rw [runOps, List.foldl_nil, MemoryStore.withConfig, Finmap.lookup_empty] at hentry
    cases hentry
  | append_singleton ops event ih =>
    obtain ⟨op, env⟩ := event
    rw [runOps_append] at hentry
    rw [StoreOp.expiresAt_iff hentry, StoreOp.LeavesDeadline, lastDated_concat]
    apply or_congr_right
    apply and_congr_right
    intro hkeeps
    obtain ⟨before, hbefore⟩ := hkeeps.held
    rw [← ih hbefore]
    constructor
    · rintro ⟨other, hother, hdeadline⟩
      rw [hbefore] at hother
      cases hother
      exact hdeadline
    · intro hdeadline
      exact ⟨before, hbefore, hdeadline⟩

/-- What leaves a deadline as it is: a read, a push, a pop, an operation on another key, and
    a write that is rejected, unless it drops the entry as expired. -/
theorem StoreOp.expiresAt_unchanged {op : StoreOp} {env : OpEnv} {store : MemoryStore}
    {key : String} {before after : Entry}
    (hbefore : store.entries.lookup key = some before)
    (hafter : (op.run env store).2.entries.lookup key = some after)
    (hkeeps : (op.act env key).KeepsDeadline ∨ (op.run env store).1.IsOutOfMemory)
    (hlive : op.act env key = .pass ∨ before.isExpired env.now = false) :
    after.expiresAt = before.expiresAt := by
  have hkept : op.Keeps env store key := by
    rcases hkeeps with hact | hrejected
    · apply StoreOp.keeps_of_act hact
      · rw [hafter]
        rfl
      · intro hne
        rw [hbefore, visible_eq_some.mpr ⟨rfl, hlive.resolve_left hne⟩]
        rfl
    · exact (StoreOp.keeps_of_refused ((op.isOutOfMemory_iff env store).mp hrejected) hafter).1
  apply Option.ext
  intro deadline
  rw [StoreOp.expiresAt_iff hafter]
  constructor
  · rintro (hdates | ⟨-, other, hother, hdeadline⟩)
    · exact absurd hdates (hkept.not_dated deadline)
    · rw [hbefore] at hother
      cases hother
      exact hdeadline
  · intro hdeadline
    exact Or.inr ⟨hkept, before, hbefore, hdeadline⟩

/-- **Deadline lifecycle.**  In every run from the empty store, under every configuration,
    the deadline of an entry is the one that was last set on its key, the key being
    undisturbed since; an entry without a deadline is one whose key has none of this kind.
    From there on a read, a push, a pop, an operation on another key and a rejected write
    leave the deadline of a live entry that stays. -/
theorem deadline_lifecycle (config : StoreConfig) (ops : List (StoreOp × OpEnv)) (key : String)
    (entry : Entry)
    (hentry : (runOps ops (.withConfig config)).entries.lookup key = some entry) :
    (∀ deadline, entry.expiresAt = some deadline ↔
        LastDated ops (.withConfig config) key deadline) ∧
      (entry.expiresAt = none ↔ ¬ ∃ deadline, LastDated ops (.withConfig config) key deadline) ∧
      ∀ (op : StoreOp) env after,
        (op.run env (runOps ops (.withConfig config))).2.entries.lookup key = some after →
        (op.act env key).KeepsDeadline ∨
          (op.run env (runOps ops (.withConfig config))).1.IsOutOfMemory →
        op.act env key = .pass ∨ entry.isExpired env.now = false →
        after.expiresAt = entry.expiresAt := by
  have hdated := expiresAt_iff_lastDated config ops hentry
  refine ⟨hdated, ?_, ?_⟩
  · rw [Option.eq_none_iff_forall_ne_some, not_exists]
    exact forall_congr' fun deadline => not_congr (hdated deadline)
  · intro op env after hafter hkeeps hlive
    exact StoreOp.expiresAt_unchanged hentry hafter hkeeps hlive

/-- A deadline survives a push and a pop, and the write of another key. -/
def datedOps : List (StoreOp × OpEnv) := [
  (.lpush "k" [[1]], .at 0), (.expireAtUnix "k" 100, .at 0), (.rpush "k" [[2]], .at 1),
  (.lpop "k", .at 2), (.set "other" [3], .at 3)]

theorem deadline_lifecycle_queue :
    LastDated datedOps (.withConfig .default) "k" 100000000000 := by
  have hentry : (runOps datedOps (.withConfig .default)).entries.lookup "k" =
      some { value := .list [[2]], expiresAt := some 100000000000 } := by
    decide +kernel
  exact ((deadline_lifecycle .default datedOps "k" _ hentry).1 100000000000).mp rfl

end AerugoCache.Storage
