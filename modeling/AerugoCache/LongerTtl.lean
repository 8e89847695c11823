import AerugoCache.StoreCells

/-!
# Longer times to live

A visible key is dated by `expire` and `expire_at_unix`, and then visible until the
deadline.  The deadline grows with the seconds as long as the clock can represent it;
the first deadline beyond is replaced by the reading itself, so the key goes at once.
-/

namespace AerugoCache.Storage

open AerugoCache.KeyedMap

/-! ### Deadlines -/

/-- The end of the clock: the first instant that `SystemTime` cannot represent. -/
def CLOCK_END : SystemTime := 2 ^ 63 * NANOS_PER_SEC

theorem checkedAdd_of_lt {time : SystemTime} {seconds : UInt64}
    (h : time + seconds.toNat * NANOS_PER_SEC < CLOCK_END) :
    checkedAdd time seconds = some (time + seconds.toNat * NANOS_PER_SEC) :=
  if_pos h

theorem checkedAdd_of_le {time : SystemTime} {seconds : UInt64}
    (h : CLOCK_END ≤ time + seconds.toNat * NANOS_PER_SEC) : checkedAdd time seconds = none :=
  if_neg (Int.not_lt.mpr h)

namespace MemoryStore

theorem expireDeadline_of_lt {reading : SystemTime} {seconds : UInt64}
    (h : reading + seconds.toNat * NANOS_PER_SEC < CLOCK_END) :
    expireDeadline reading seconds = reading + seconds.toNat * NANOS_PER_SEC := by
  rw [expireDeadline, checkedAdd_of_lt h, Option.getD_some]

theorem expireDeadline_of_le {reading : SystemTime} {seconds : UInt64}
    (h : CLOCK_END ≤ reading + seconds.toNat * NANOS_PER_SEC) :
    expireDeadline reading seconds = reading := by
  rw [expireDeadline, checkedAdd_of_le h, Option.getD_none]

/-- The seconds of a timestamp are below the end of the clock. -/
theorem epoch_add_lt {seconds : UInt64} :
    UNIX_EPOCH + seconds.toNat * NANOS_PER_SEC < CLOCK_END ↔ seconds.toNat < 2 ^ 63 := by
  change (0 : Int) + seconds.toNat * 1000000000 < 2 ^ 63 * 1000000000 ↔ seconds.toNat < 2 ^ 63
  omega

theorem unixDeadline_of_seconds_lt (reading : SystemTime) {unixSeconds : UInt64}
    (h : unixSeconds.toNat < 2 ^ 63) :
    unixDeadline reading unixSeconds = unixSeconds.toNat * NANOS_PER_SEC := by
  rw [unixDeadline, checkedAdd_of_lt (epoch_add_lt.mpr h), Option.getD_some, UNIX_EPOCH,
    Int.zero_add]

theorem unixDeadline_of_le_seconds (reading : SystemTime) {unixSeconds : UInt64}
    (h : 2 ^ 63 ≤ unixSeconds.toNat) : unixDeadline reading unixSeconds = reading := by
  have hend : CLOCK_END ≤ UNIX_EPOCH + unixSeconds.toNat * NANOS_PER_SEC := by
    apply Int.not_lt.mp
    rw [epoch_add_lt]
    omega
  rw [unixDeadline, checkedAdd_of_le hend, Option.getD_none]

end MemoryStore

/-! ### How long a dated key is visible -/

/-- A key is visible in a store at an instant. -/
def MemoryStore.Shows (store : MemoryStore) (key : String) (t : SystemTime) : Prop :=
  (visible t (store.entries.lookup key)).isSome = true

variable {store : MemoryStore} {key : String} {now : SystemTime}

/-- From `now` on, a visible key that gets a deadline is visible up to it. -/
theorem shows_expireAt (hshown : store.Shows key now) (deadline : SystemTime) {t : SystemTime}
    (ht : now ≤ t) : (store.expireAt now key deadline).2.Shows key t ↔ t < deadline := by
  obtain ⟨entry, hentry⟩ := Option.isSome_iff_exists.mp hshown
  rw [MemoryStore.Shows, MemoryStore.expireAt_eq, hentry, MemoryStore.withCell_entries,
    lookup_assign_self, expireCell]
  by_cases hpast : deadline ≤ now
  · have hnot : ¬ t < deadline := Int.not_lt.mpr (Int.le_trans hpast ht)
    rw [if_pos hpast]
    simp [hnot]
  · rw [if_neg hpast, Option.map_some, visible_some]
    by_cases hlive : t < deadline
    · have hopen : ¬ deadline ≤ t := Int.not_le.mpr hlive
      simp [Entry.isExpired, hlive, hopen]
    · have hreached : deadline ≤ t := Int.not_lt.mp hlive
      simp [Entry.isExpired, hlive, hreached]

/-- From `now` on, the first store shows the key no longer than the second. -/
def ShowsNoLonger (first second : MemoryStore) (key : String) (now : SystemTime) : Prop :=
  ∀ t, now ≤ t → first.Shows key t → second.Shows key t

/-- Of two half-open intervals with one start, the first lies in the second. -/
theorem interval_subset_iff {start first second : Int} :
    (∀ t, start ≤ t → t < first → t < second) ↔ first ≤ start ∨ first ≤ second := by
  constructor
  · intro h
    by_cases hempty : first ≤ start
    · exact Or.inl hempty
    · have hlast := h (first - 1) (by omega) (by omega)
      right
      omega
  · intro h t hstart hfirst
    omega

theorem showsNoLonger_expireAt (hshown : store.Shows key now) (first second : SystemTime) :
    ShowsNoLonger (store.expireAt now key first).2 (store.expireAt now key second).2 key now ↔
      first ≤ now ∨ first ≤ second := by
  rw [← interval_subset_iff]
  apply forall_congr'
  intro t
  apply forall_congr'
  intro ht
  rw [shows_expireAt hshown first ht, shows_expireAt hshown second ht]

/-! ### Seconds from now, and timestamps -/

/-- Seconds on a reading, against the end of the clock. -/
theorem deadline_order {now : Int} {first second : Nat} (hle : first ≤ second) {d₁ d₂ limit : Int}
    (h₁ : now + first * NANOS_PER_SEC < limit → d₁ = now + first * NANOS_PER_SEC)
    (h₁' : limit ≤ now + first * NANOS_PER_SEC → d₁ = now)
    (h₂ : now + second * NANOS_PER_SEC < limit → d₂ = now + second * NANOS_PER_SEC)
    (h₂' : limit ≤ now + second * NANOS_PER_SEC → d₂ = now) :
    (d₁ ≤ now ∨ d₁ ≤ d₂) ↔
      ¬ (0 < first ∧ now + first * NANOS_PER_SEC < limit ∧
        limit ≤ now + second * NANOS_PER_SEC) := by
  unfold NANOS_PER_SEC at *
  omega

theorem expire_longer_iff (hshown : store.Shows key now) {s₁ s₂ : UInt64} (hle : s₁ ≤ s₂) :
    ShowsNoLonger (store.expire now now key s₁).2 (store.expire now now key s₂).2 key now ↔
      ¬ (0 < s₁.toNat ∧ now + s₁.toNat * NANOS_PER_SEC < CLOCK_END ∧
        CLOCK_END ≤ now + s₂.toNat * NANOS_PER_SEC) := by
  rw [MemoryStore.expire, MemoryStore.expire, showsNoLonger_expireAt hshown]
  apply deadline_order (UInt64.le_iff_toNat_le.mp hle)
  · exact MemoryStore.expireDeadline_of_lt
  · exact MemoryStore.expireDeadline_of_le
  · exact MemoryStore.expireDeadline_of_lt
  · exact MemoryStore.expireDeadline_of_le

theorem shows_after_expire (hshown : store.Shows key now) {seconds : UInt64}
    (hpos : 0 < seconds.toNat) :
    (store.expire now now key seconds).2.Shows key now ↔
      now + seconds.toNat * NANOS_PER_SEC < CLOCK_END := by
  rw [MemoryStore.expire, shows_expireAt hshown _ (Int.le_refl now)]
  constructor
  · intro hlater
    apply Int.not_le.mp
    intro hend
    rw [MemoryStore.expireDeadline_of_le hend] at hlater
    exact Int.lt_irrefl now hlater
  · intro hend
    rw [MemoryStore.expireDeadline_of_lt hend]
    apply Int.lt_add_of_pos_right
    apply Int.mul_pos
    · exact Int.natCast_pos.mpr hpos
    · decide

theorem timestamp_order {now : Int} {first second : Nat} (hle : first ≤ second) {d₁ d₂ : Int}
    (h₁ : first < 2 ^ 63 → d₁ = first * NANOS_PER_SEC) (h₁' : 2 ^ 63 ≤ first → d₁ = now)
    (h₂ : second < 2 ^ 63 → d₂ = second * NANOS_PER_SEC) (h₂' : 2 ^ 63 ≤ second → d₂ = now) :
    (d₁ ≤ now ∨ d₁ ≤ d₂) ↔
      ¬ (now < first * NANOS_PER_SEC ∧ first < 2 ^ 63 ∧ 2 ^ 63 ≤ second) := by
  unfold NANOS_PER_SEC at *
  omega

theorem expireAtUnix_longer_iff (hshown : store.Shows key now) {u₁ u₂ : UInt64} (hle : u₁ ≤ u₂) :
    ShowsNoLonger (store.expireAtUnix now now key u₁).2 (store.expireAtUnix now now key u₂).2
        key now ↔
      ¬ (now < u₁.toNat * NANOS_PER_SEC ∧ u₁.toNat < 2 ^ 63 ∧ 2 ^ 63 ≤ u₂.toNat) := by
  rw [MemoryStore.expireAtUnix, MemoryStore.expireAtUnix, showsNoLonger_expireAt hshown]
  apply timestamp_order (UInt64.le_iff_toNat_le.mp hle)
  · exact MemoryStore.unixDeadline_of_seconds_lt now
  · exact MemoryStore.unixDeadline_of_le_seconds now
  · exact MemoryStore.unixDeadline_of_seconds_lt now
  · exact MemoryStore.unixDeadline_of_le_seconds now

/-- **A longer time to live keeps a key at least as long**, and a positive one keeps it
    visible now, unless its deadline, and not that of the shorter one, is beyond what
    the clock represents. -/
theorem longer_ttl_iff (hshown : store.Shows key now) :
    (∀ s₁ s₂ : UInt64, s₁ ≤ s₂ →
      (ShowsNoLonger (store.expire now now key s₁).2 (store.expire now now key s₂).2 key now ↔
        ¬ (0 < s₁.toNat ∧ now + s₁.toNat * NANOS_PER_SEC < CLOCK_END ∧
          CLOCK_END ≤ now + s₂.toNat * NANOS_PER_SEC))) ∧
      (∀ seconds : UInt64, 0 < seconds.toNat →
        ((store.expire now now key seconds).2.Shows key now ↔
          now + seconds.toNat * NANOS_PER_SEC < CLOCK_END)) ∧
      ∀ u₁ u₂ : UInt64, u₁ ≤ u₂ →
        (ShowsNoLonger (store.expireAtUnix now now key u₁).2
            (store.expireAtUnix now now key u₂).2 key now ↔
          ¬ (now < u₁.toNat * NANOS_PER_SEC ∧ u₁.toNat < 2 ^ 63 ∧ 2 ^ 63 ≤ u₂.toNat)) := by
  refine ⟨?_, ?_, ?_⟩
  · intro s₁ s₂ hle
    exact expire_longer_iff hshown hle
  · intro seconds hpos
    exact shows_after_expire hshown hpos
  · intro u₁ u₂ hle
    exact expireAtUnix_longer_iff hshown hle

/-- One key without a deadline. -/
def undatedStore : MemoryStore :=
  { MemoryStore.withConfig .default with
    entries := Finmap.insert "k" ⟨.string [1], none⟩ ∅ }

theorem undatedStore_shows : undatedStore.Shows "k" 0 := by
  unfold MemoryStore.Shows
  decide +kernel

theorem longer_ttl_undated :
    ShowsNoLonger (undatedStore.expire 0 0 "k" 1).2 (undatedStore.expire 0 0 "k" 60).2 "k" 0 :=
  ((longer_ttl_iff undatedStore_shows).1 1 60 (by decide)).mpr (by decide)

/-- At the epoch: one second keeps the key, `u64::MAX` seconds delete it; a deadline at
    second 1 keeps it, one at second 2^63 deletes it. -/
theorem longest_ttl_deletes :
    ¬ (ShowsNoLonger (undatedStore.expire 0 0 "k" 1).2
        (undatedStore.expire 0 0 "k" 18446744073709551615).2 "k" 0) ∧
      ¬ (undatedStore.expire 0 0 "k" 18446744073709551615).2.Shows "k" 0 ∧
      ¬ (ShowsNoLonger (undatedStore.expireAtUnix 0 0 "k" 1).2
        (undatedStore.expireAtUnix 0 0 "k" 9223372036854775808).2 "k" 0) := by
  have hexpire : ¬ (undatedStore.expire 0 0 "k" 18446744073709551615).2.Shows "k" 0 := by
    unfold MemoryStore.Shows
    decide +kernel
  have hunix : ¬ (undatedStore.expireAtUnix 0 0 "k" 9223372036854775808).2.Shows "k" 0 := by
    unfold MemoryStore.Shows
    decide +kernel
  refine ⟨?_, hexpire, ?_⟩
  · intro h
    apply hexpire
    apply h 0 (Int.le_refl 0)
    unfold MemoryStore.Shows
    decide +kernel
  · intro h
    apply hunix
    apply h 0 (Int.le_refl 0)
    unfold MemoryStore.Shows
    decide +kernel

end AerugoCache.Storage
