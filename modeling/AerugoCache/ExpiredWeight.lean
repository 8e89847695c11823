import AerugoCache.KeyCounts

/-!
# What expired entries cost a write

A write drops the expired entry of its own key, and no other, before the limit is
enforced.  Expired entries under other keys still count: they can make the estimate
exceed the limit, and an eviction picks among all keys.  A sweep before the write takes
them out of the map.
-/

namespace AerugoCache.Storage

open AerugoCache.ByteText AerugoCache.KeyedMap

/-! ### The weight of the expired entries -/

/-- The expired entries under other keys. -/
def expiredOthers (now : SystemTime) (key : String) (entries : Entries) : Entries :=
  retain (fun k entry => decide (k ≠ key) && entry.isExpired now) entries

theorem weigh_retain_add {α β : Type} [DecidableEq α] (w : α → β → Nat) (p : α → β → Bool)
    (m : HashMap α β) :
    weigh w (retain p m) + weigh w (retain (fun k v => !p k v) m) = weigh w m := by
  have hsplit := Multiset.filter_add_not (fun s : (_ : α) × β => p s.1 s.2 = true) m.entries
  unfold weigh retain
  conv_rhs => rw [← hsplit]
  simp

/-- The estimate of a write: the live entries with the write applied, and the expired
    entries under other keys. -/
theorem estimate_split (entries : Entries) (now : SystemTime) (key : String) (entry : Entry) :
    estimatedMemoryBytes (entries.insert key entry) =
      estimatedMemoryBytes ((retainUnexpired entries now).insert key entry) +
        estimatedMemoryBytes (expiredOthers now key entries) := by
  have hlive : retain (fun _ entry => !entry.isExpired now) (entries.erase key) =
      (retainUnexpired entries now).erase key := by
    apply Finmap.ext_lookup
    intro k
    rw [lookup_retain, lookup_erase_eq, lookup_erase_eq, lookup_retainUnexpired]
    split <;> rfl
  have hexpired : retain (fun _ entry => !!entry.isExpired now) (entries.erase key) =
      expiredOthers now key entries := by
    apply Finmap.ext_lookup
    intro k
    rw [expiredOthers, lookup_retain, lookup_retain, lookup_erase_eq]
    by_cases hk : k = key
    · cases entries.lookup k <;> simp [hk]
    · simp [hk]
  have hsplit := weigh_retain_add entryEstimatedMemoryBytes
    (fun _ entry => !entry.isExpired now) (entries.erase key)
  rw [hlive, hexpired] at hsplit
  simp only [estimatedMemoryBytes, weigh_insert]
  omega

theorem estimate_swept_le (entries : Entries) (now : SystemTime) (key : String) (entry : Entry) :
    estimatedMemoryBytes ((retainUnexpired entries now).insert key entry) ≤
      estimatedMemoryBytes (entries.insert key entry) := by
  rw [estimate_split entries now]
  exact Nat.le_add_right _ _

theorem retainUnexpired_later {now later : SystemTime} (h : now ≤ later) (entries : Entries) :
    retainUnexpired (retainUnexpired entries now) later = retainUnexpired entries later := by
  apply Finmap.ext_lookup
  intro k
  simp only [lookup_retainUnexpired, visible_later h]

/-! ### Acceptance -/

/-- The write was accepted. -/
def StoreResult.Accepted : StoreResult → Prop
  | .written (.ok _) | .length (.ok _) => True
  | _ => False

theorem StoreOp.accepted_iff (op : StoreOp) (env : OpEnv) (store : MemoryStore) :
    (op.run env store).1.Accepted ↔
      (op.written env store).isSome ∧ op.Admitted env store := by
  have hpush : ∀ side key values, (StoreResult.length
        (store.push env.picks env.now key values side).1).Accepted ↔
      ((pushEntry side values (visible env.now (store.entries.lookup key))).map
          fun entry => (key, entry)).isSome ∧
        ∀ k entry, (pushEntry side values (visible env.now (store.entries.lookup key))).map
          (fun entry => (key, entry)) = some (k, entry) →
            Admits store.config store.entries k entry := by
    intro side key values
    rw [MemoryStore.push_eq]
    cases pushEntry side values (visible env.now (store.entries.lookup key)) with
    | none => simp [StoreResult.Accepted]
    | some entry =>
      obtain ⟨hok, herror⟩ := store.commitWrite_result env.picks key
        (visible env.now (store.entries.lookup key)) entry
      by_cases hadmits : Admits store.config store.entries key entry
      · simp [hok hadmits, StoreResult.Accepted, Except.map, hadmits]
      · simp [herror hadmits, StoreResult.Accepted, Except.map, hadmits]
  cases op with
  | set key value =>
    change (StoreResult.written (store.set env.picks env.now key value).1).Accepted ↔ _
    rw [MemoryStore.set_eq]
    obtain ⟨hok, herror⟩ := store.commitWrite_result env.picks key
      (visible env.now (store.entries.lookup key)) { value := .string value, expiresAt := none }
    by_cases hadmits : Admits store.config store.entries key
      { value := .string value, expiresAt := none }
    · simp [hok hadmits, StoreResult.Accepted, StoreOp.written, StoreOp.Admitted, hadmits]
    · simp [herror hadmits, StoreResult.Accepted, StoreOp.written, StoreOp.Admitted, hadmits]
  | lpush key values => exact hpush .left key values
  | rpush key values => exact hpush .right key values
  | _ => exact iff_of_false (fun h => h) (fun h => Bool.false_ne_true h.1)

theorem admits_iff {config : StoreConfig} {maxMemoryBytes : Nat}
    (hmax : config.maxMemoryBytes = some maxMemoryBytes) (entries : Entries) (key : String)
    (entry : Entry) :
    (config.evictionPolicy = .noEviction → (Admits config entries key entry ↔
        estimatedMemoryBytes (entries.insert key entry) ≤ maxMemoryBytes)) ∧
      (config.evictionPolicy = .allKeysRandom → (Admits config entries key entry ↔
        entryEstimatedMemoryBytes key entry ≤ maxMemoryBytes)) := by
  have hadmits : Admits config entries key entry ↔
      (maxMemoryBytes < estimatedMemoryBytes (entries.insert key entry) →
        config.evictionPolicy = .allKeysRandom ∧
          entryEstimatedMemoryBytes key entry ≤ maxMemoryBytes) := by
    simp [Admits, hmax]
  constructor
  · intro hpolicy
    rw [hadmits, hpolicy]
    simp
  · intro hpolicy
    rw [hadmits, hpolicy]
    have hown : entryEstimatedMemoryBytes key entry ≤
        estimatedMemoryBytes (entries.insert key entry) := by
      apply le_weigh
      rw [lookup_insert_eq, if_pos rfl]
    constructor
    · intro h
      by_contra hlarge
      exact hlarge (h (by omega)).2
    · intro h _
      exact ⟨rfl, h⟩

/-- An evicted entry is the one the map held. -/
theorem Evicted.lookup_victim {original current : Entries} {protectedKey : Option String}
    {evicted : List (String × Entry)} (h : Evicted original protectedKey current evicted)
    {victim : String × Entry} (hvictim : victim ∈ evicted) :
    original.lookup victim.1 = some victim.2 := by
  rw [← h.restored]
  have hdistinct := h.distinct
  clear h
  induction evicted generalizing current with
  | nil => cases hvictim
  | cons first evicted ih =>
    obtain ⟨hfirst, hrest⟩ := List.nodup_cons.mp hdistinct
    change (restoreEvicted (current.insert first.1 first.2) evicted).lookup victim.1 = _
    rcases List.mem_cons.mp hvictim with rfl | hvictim
    · rw [lookup_restoreEvicted, lookup_insert_eq, if_pos rfl]
      intro other hother heq
      exact hfirst (List.mem_map.mpr ⟨other, hother, heq⟩)
    · exact ih hvictim hrest

/-! ### What a write must not depend on -/

/-- The victims are evicted in such an order that no live entry goes while an expired one
    is in the map. -/
def SparesLive (now : SystemTime) (entries : Entries) (evicted : List (String × Entry)) : Prop :=
  ∀ earlier victim later, evicted = earlier ++ victim :: later →
    victim.2.isExpired now = false → ∀ key entry, entries.lookup key = some entry →
      entry.isExpired now = true → key ∈ earlier.map Prod.fst

/-- The calls that clean the map. -/
def StoreOp.MaySweep : StoreOp → Prop
  | .cleanupExpired | .stats | .inspectKeys _ => True
  | _ => False

/-- The expired entries cost the write nothing: it is rejected for the live entries only,
    it evicts no live entry before an expired one, and a sweep before it does not change
    whether it is accepted. -/
structure CostsNothing (maxMemoryBytes : Nat) (op : StoreOp) (env : OpEnv)
    (store : MemoryStore) : Prop where
  rejected : store.config.evictionPolicy = .noEviction → (op.run env store).1.IsOutOfMemory →
    ∀ key entry, op.written env store = some (key, entry) →
      maxMemoryBytes <
        estimatedMemoryBytes ((retainUnexpired store.entries env.now).insert key entry)
  evicted : store.config.evictionPolicy = .allKeysRandom →
    ∀ key entry, op.written env store = some (key, entry) → ∀ picks evicted after,
      enforceMemoryLimit (store.entries.insert key entry) store.config (some key) picks =
        (.ok evicted, after) →
      SparesLive env.now (store.entries.insert key entry) evicted
  swept : ∀ sweep : StoreOp, sweep.MaySweep → ∀ sweepEnv : OpEnv, sweepEnv.now ≤ env.now →
    ((op.run env (sweep.run sweepEnv store).2).1.Accepted ↔ (op.run env store).1.Accepted)

/-- The expired entries under other keys do not matter to the write: there is room for
    them, or the write fails without them, or an eviction finds no live entry beside an
    expired one. -/
def ExpiredHarmless (maxMemoryBytes : Nat) (op : StoreOp) (env : OpEnv)
    (store : MemoryStore) : Prop :=
  ∀ key entry, op.written env store = some (key, entry) →
    let live := estimatedMemoryBytes ((retainUnexpired store.entries env.now).insert key entry)
    let lingering := estimatedMemoryBytes (expiredOthers env.now key store.entries)
    live + lingering ≤ maxMemoryBytes ∨
      match store.config.evictionPolicy with
      | .noEviction => maxMemoryBytes < live
      | .allKeysRandom =>
          maxMemoryBytes < entryEstimatedMemoryBytes key entry ∨
            (∀ other kept, other ≠ key → store.entries.lookup other = some kept →
              kept.isExpired env.now = false) ∨
            ∀ other kept, other ≠ key → store.entries.lookup other = some kept →
              kept.isExpired env.now = true

theorem StoreOp.entries_of_maySweep {sweep : StoreOp} (h : sweep.MaySweep) (env : OpEnv)
    (store : MemoryStore) :
    (sweep.run env store).2.entries = store.entries ∨
      (sweep.run env store).2.entries = retainUnexpired store.entries env.now := by
  cases sweep with
  | cleanupExpired => exact Or.inr (store.cleanupExpired_entries env.now)
  | stats => exact Or.inr (store.stats_entries env.now)
  | inspectKeys limit =>
    have hentries := store.inspectKeys_entries env.order env.now limit
    by_cases hlimit : limit = 0
    · rw [if_pos hlimit] at hentries
      exact Or.inl hentries
    · rw [if_neg hlimit] at hentries
      exact Or.inr hentries
  | _ => exact h.elim

/-- What is written depends on the live entries only. -/
theorem StoreOp.written_congr {store store' : MemoryStore} {env : OpEnv}
    (h : ∀ k, visible env.now (store'.entries.lookup k) = visible env.now (store.entries.lookup k))
    (op : StoreOp) : op.written env store' = op.written env store := by
  cases op with
  | lpush | rpush => simp only [StoreOp.written, h]
  | _ => rfl

/-- The written entry has not expired. -/
theorem StoreOp.written_live {op : StoreOp} {env : OpEnv} {store : MemoryStore} {key : String}
    {entry : Entry} (h : op.written env store = some (key, entry)) :
    entry.isExpired env.now = false := by
  rcases StoreOp.written_some h with ⟨value, rfl, rfl⟩ | ⟨side, values, rfl, hentry⟩
  · rfl
  · rcases hcell : visible env.now (store.entries.lookup key) with _ | ⟨_ | list, expiresAt⟩
    · rw [hcell] at hentry
      cases hentry
      rfl
    · rw [hcell] at hentry
      cases hentry
    · rw [hcell] at hentry
      cases hentry
      exact (visible_eq_some.mp hcell).2

variable {maxMemoryBytes : Nat} {store : MemoryStore} {op : StoreOp} {env : OpEnv}

/-! ### The two policies -/

/-- An eviction that finds a live and an expired entry can take the live one first. -/
theorem exists_unspared (hmax : store.config.maxMemoryBytes = some maxMemoryBytes)
    (hpolicy : store.config.evictionPolicy = .allKeysRandom) {key : String} {entry : Entry}
    (hover : maxMemoryBytes < estimatedMemoryBytes (store.entries.insert key entry))
    (hsmall : entryEstimatedMemoryBytes key entry ≤ maxMemoryBytes)
    {other : String} {kept : Entry} (hother : other ≠ key)
    (hkept : store.entries.lookup other = some kept) (hlive : kept.isExpired env.now = false)
    {stale : String} {dead : Entry} (hstale : stale ≠ key)
    (hdead : store.entries.lookup stale = some dead) (hexpired : dead.isExpired env.now = true) :
    ∃ picks evicted after,
      enforceMemoryLimit (store.entries.insert key entry) store.config (some key) picks =
        (.ok evicted, after) ∧
      ¬ SparesLive env.now (store.entries.insert key entry) evicted := by
  have hadmits : Admits store.config store.entries key entry :=
    ((admits_iff hmax store.entries key entry).2 hpolicy).mpr hsmall
  obtain ⟨picks, later, after, henforce⟩ :=
    MemoryStore.exists_evicted hmax hadmits hover hother hkept
  refine ⟨picks, _, after, henforce, ?_⟩
  intro hspares
  have hstill : (store.entries.insert key entry).lookup stale = some dead := by
    rw [lookup_insert_eq, if_neg hstale, hdead]
  have hgone := hspares [] (other, kept) later rfl hlive stale dead hstill hexpired
  cases hgone

/-- Where the expired entries are harmless, a rejection is for the live ones. -/
theorem ExpiredHarmless.rejected (h : ExpiredHarmless maxMemoryBytes op env store)
    (hmax : store.config.maxMemoryBytes = some maxMemoryBytes)
    (hpolicy : store.config.evictionPolicy = .noEviction)
    (hrejected : (op.run env store).1.IsOutOfMemory) {key : String} {entry : Entry}
    (hwritten : op.written env store = some (key, entry)) :
    maxMemoryBytes <
      estimatedMemoryBytes ((retainUnexpired store.entries env.now).insert key entry) := by
  rw [StoreOp.isOutOfMemory_iff, StoreOp.admitted_of_written hwritten,
    (admits_iff hmax store.entries key entry).1 hpolicy, estimate_split _ env.now] at hrejected
  have hharmless := h key entry hwritten
  simp only [hpolicy] at hharmless
  exact hharmless.resolve_left hrejected

theorem ExpiredHarmless.evicted (h : ExpiredHarmless maxMemoryBytes op env store)
    (hmax : store.config.maxMemoryBytes = some maxMemoryBytes)
    (hpolicy : store.config.evictionPolicy = .allKeysRandom) {key : String} {entry : Entry}
    (hwritten : op.written env store = some (key, entry)) {picks : Picks}
    {evicted : List (String × Entry)} {after : Entries}
    (henforce : enforceMemoryLimit (store.entries.insert key entry) store.config (some key) picks =
      (.ok evicted, after)) :
    SparesLive env.now (store.entries.insert key entry) evicted := by
  intro earlier victim later hsplit hlive k expired hk hexpired
  have hevicted := (enforceMemoryLimit_ok henforce).1
  have hvictim : victim ∈ evicted := by simp [hsplit]
  have hhad := hevicted.lookup_victim hvictim
  have hnot : victim.1 ≠ key := fun heq => hevicted.unprotected victim hvictim (by rw [heq])
  have hother : k ≠ key := by
    rintro rfl
    rw [lookup_insert_eq, if_pos rfl] at hk
    cases hk
    rw [StoreOp.written_live hwritten] at hexpired
    cases hexpired
  rw [lookup_insert_eq, if_neg hother] at hk
  rw [lookup_insert_eq, if_neg hnot] at hhad
  have hharmless := h key entry hwritten
  simp only [hpolicy, ← estimate_split] at hharmless
  rcases hharmless with hfits | hlarge | halive | hdead
  · -- there is room, and nothing is evicted
    rw [enforceMemoryLimit, hmax] at henforce
    simp only [hfits, if_true] at henforce
    cases henforce
    cases hvictim
  · -- the write is rejected
    have hrefused : ¬ Admits store.config store.entries key entry := by
      rw [(admits_iff hmax store.entries key entry).2 hpolicy]
      exact Nat.not_le_of_lt hlarge
    have herror := (store.commitWrite_result picks key none entry).2 hrefused
    rw [MemoryStore.commitWrite, henforce] at herror
    cases herror
  · have hfresh := halive k expired hother hk
    rw [hexpired] at hfresh
    cases hfresh
  · have hstale := hdead victim.1 victim.2 hnot hhad
    rw [hlive] at hstale
    cases hstale

theorem ExpiredHarmless.swept (h : ExpiredHarmless maxMemoryBytes op env store)
    (hmax : store.config.maxMemoryBytes = some maxMemoryBytes) {sweep : StoreOp}
    (hsweep : sweep.MaySweep) {sweepEnv : OpEnv} (hnow : sweepEnv.now ≤ env.now) :
    (op.run env (sweep.run sweepEnv store).2).1.Accepted ↔ (op.run env store).1.Accepted := by
  have hconfig := sweep.run_config sweepEnv store
  rcases StoreOp.entries_of_maySweep hsweep sweepEnv store with hentries | hentries
  · have hwritten : op.written env (sweep.run sweepEnv store).2 = op.written env store :=
      StoreOp.written_congr (fun k => by rw [hentries]) op
    simp only [StoreOp.accepted_iff, StoreOp.Admitted, hwritten, hconfig, hentries]
  · have hwritten : op.written env (sweep.run sweepEnv store).2 = op.written env store := by
      apply StoreOp.written_congr
      intro k
      rw [hentries, lookup_retainUnexpired, visible_later hnow]
    rw [StoreOp.accepted_iff, StoreOp.accepted_iff, hwritten]
    rcases hentry : op.written env store with _ | ⟨key, entry⟩
    · simp
    · rw [StoreOp.admitted_of_written hentry, StoreOp.admitted_of_written (hwritten.trans hentry),
        hconfig, hentries]
      cases hpolicy : store.config.evictionPolicy with
      | noEviction =>
        rw [(admits_iff hmax _ key entry).1 hpolicy, (admits_iff hmax _ key entry).1 hpolicy]
        have hlive := estimate_swept_le (retainUnexpired store.entries sweepEnv.now) env.now key
          entry
        have hswept := estimate_swept_le store.entries sweepEnv.now key entry
        rw [retainUnexpired_later hnow] at hlive
        have hharmless := h key entry hentry
        simp only [hpolicy, ← estimate_split] at hharmless
        simp only [Option.isSome_some, true_and]
        omega
      | allKeysRandom =>
        rw [(admits_iff hmax _ key entry).2 hpolicy, (admits_iff hmax _ key entry).2 hpolicy]

/-- **The cost of expired entries.**  Under a limit they cost a write nothing exactly if
    they are harmless: they fit in beside the live entries, or the write fails without them,
    or the eviction it causes finds no live entry beside an expired one. -/
theorem costsNothing_iff (maxMemoryBytes : Nat) (store : MemoryStore)
    (hmax : store.config.maxMemoryBytes = some maxMemoryBytes) (op : StoreOp) (env : OpEnv) :
    CostsNothing maxMemoryBytes op env store ↔ ExpiredHarmless maxMemoryBytes op env store := by
  constructor
  · intro hcosts key entry hwritten live lingering
    have hsplit := estimate_split store.entries env.now key entry
    by_contra hharm
    rw [not_or] at hharm
    obtain ⟨hover, hharm⟩ := hharm
    cases hpolicy : store.config.evictionPolicy with
    | noEviction =>
      have hrejected : (op.run env store).1.IsOutOfMemory := by
        rw [StoreOp.isOutOfMemory_iff, StoreOp.admitted_of_written hwritten,
          (admits_iff hmax store.entries key entry).1 hpolicy]
        omega
      rw [hpolicy] at hharm
      exact hharm (hcosts.rejected hpolicy hrejected key entry hwritten)
    | allKeysRandom =>
      simp only [hpolicy, not_or, not_forall] at hharm
      obtain ⟨hsmall, ⟨stale, dead, hstale, hdead, hexpired⟩,
        ⟨other, kept, hother, hkept, hlive⟩⟩ := hharm
      have hlive' : kept.isExpired env.now = false := by simpa using hlive
      have hexpired' : dead.isExpired env.now = true := by simpa using hexpired
      obtain ⟨picks, evicted, after, henforce, hunspared⟩ :=
        exists_unspared hmax hpolicy (by omega) (Nat.le_of_not_lt hsmall) hother hkept hlive' hstale
          hdead hexpired'
      exact hunspared (hcosts.evicted hpolicy key entry hwritten picks evicted after henforce)
  · intro h
    constructor
    · intro hpolicy hrejected key entry hwritten
      exact h.rejected hmax hpolicy hrejected hwritten
    · intro hpolicy key entry hwritten picks evicted after henforce
      exact h.evicted hmax hpolicy hwritten henforce
    · intro sweep hsweep sweepEnv hnow
      exact h.swept hmax hsweep hnow

/-- Room for two small entries, one of which has expired when the third comes. -/
def tightOps : List (StoreOp × OpEnv) := [
  (.set "a" [1], .at 0), (.expireAtUnix "a" 10, .at 0), (.set "b" [2], .at 0)]

theorem costsNothing_iff_room :
    CostsNothing 200 (.set "c" [3]) (.at 20000000000)
      (runOps tightOps (.withConfig ⟨some 200, .noEviction⟩)) := by
  have hmax : (runOps tightOps (.withConfig ⟨some 200, .noEviction⟩)).config.maxMemoryBytes =
      some 200 := by
    rw [runOps_config]
    rfl
  rw [costsNothing_iff 200 _ hmax]
  intro key entry hwritten
  obtain ⟨rfl, rfl⟩ := Prod.mk.inj (Option.some.inj hwritten)
  refine Or.inl ?_
  decide +kernel

/-- A write is out of memory for an entry that has expired. -/
theorem expired_entry_rejects :
    ¬ ∀ maxMemoryBytes policy ops op env, CostsNothing maxMemoryBytes op env
      (runOps ops (.withConfig ⟨some maxMemoryBytes, policy⟩)) := by
  intro hall
  have hrejected : ((StoreOp.set "c" [3]).run (.at 20000000000)
      (runOps tightOps (.withConfig ⟨some 140, .noEviction⟩))).1.IsOutOfMemory := by
    decide +kernel
  have hover := (hall 140 .noEviction tightOps (.set "c" [3]) (.at 20000000000)).rejected
    (by rw [runOps_config]; rfl) hrejected "c" { value := .string [3], expiresAt := none } rfl
  revert hover
  decide +kernel

end AerugoCache.Storage
