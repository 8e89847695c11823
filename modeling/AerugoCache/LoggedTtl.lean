import AerugoCache.LongerTtl
import AerugoCache.ReplayExpired

/-!
# Logged deadlines

`EXPIRE` is logged as an `EXPIREAT` with the deadline rounded up to whole seconds, so
that a restart never cuts a time to live short.  But `to_aof_frame` reads the clock
before `expire` does: rounding makes up for the time between the two readings only
while they lie in the same second.
-/

namespace AerugoCache.Commands

open AerugoCache.ByteText AerugoCache.KeyedMap AerugoCache.Protocol AerugoCache.Storage

/-! ### Rounding up -/

/-- The whole seconds at or after an instant. -/
def secondsCeil (time : SystemTime) : Int :=
  -(-time / NANOS_PER_SEC)

theorem le_secondsCeil (time : Int) :
    time ≤ secondsCeil time * NANOS_PER_SEC ∧
      secondsCeil time * NANOS_PER_SEC < time + NANOS_PER_SEC := by
  unfold secondsCeil NANOS_PER_SEC
  omega

theorem secondsCeil_add (time : Int) (seconds : Nat) :
    secondsCeil (time + seconds * NANOS_PER_SEC) = secondsCeil time + seconds := by
  unfold secondsCeil NANOS_PER_SEC
  omega

/-- `unix_seconds_ceil` rounds up, and an instant before the epoch to the epoch. -/
theorem toNat_unixSecondsCeil {time : Int} (hend : time < CLOCK_END) :
    ((unixSecondsCeil time).toNat : Int) = max 0 (secondsCeil time) := by
  rw [unixSecondsCeil]
  by_cases hepoch : UNIX_EPOCH ≤ time
  · have hduration : durationSince time UNIX_EPOCH = some time.toNat := by
      rw [durationSince, if_pos hepoch, UNIX_EPOCH, Int.sub_zero]
    have htime : (time.toNat : Int) = time := Int.toNat_of_nonneg hepoch
    have hseconds : time.toNat / 1000000000 < 2 ^ 63 := by
      change time < 2 ^ 63 * 1000000000 at hend
      omega
    have hquotient : (UInt64.ofNat (time.toNat / 1000000000)).toNat = time.toNat / 1000000000 :=
      UInt64.toNat_ofNat_of_lt' (Nat.lt_of_lt_of_le hseconds (by decide))
    rw [hduration]
    change ((UInt64.ofNat (time.toNat / 1000000000) +
      if time.toNat % 1000000000 > 0 then 1 else 0).toNat : Int) = max 0 (-(-time / 1000000000))
    rw [UInt64.toNat_add, hquotient]
    split
    · have hone : (1 : UInt64).toNat = 1 := rfl
      rw [hone]
      omega
    · have hzero : (0 : UInt64).toNat = 0 := rfl
      rw [hzero]
      omega
  · have hduration : durationSince time UNIX_EPOCH = none := if_neg hepoch
    rw [hduration]
    change (0 : Int) = max 0 (-(-time / 1000000000))
    change ¬ (0 : Int) ≤ time at hepoch
    omega

/-! ### The deadline that is logged -/

variable {clock : Clock} {seconds : UInt64}

/-- The seconds that `to_aof_frame` logs for an `EXPIRE`. -/
theorem toNat_expirationDeadline
    (hend : clock.deadlineNow + seconds.toNat * NANOS_PER_SEC < CLOCK_END) :
    ((expirationDeadline clock seconds).toNat : Int) =
      max 0 (secondsCeil clock.deadlineNow + seconds.toNat) := by
  rw [expirationDeadline, checkedAdd_of_lt hend, Option.getD_some, toNat_unixSecondsCeil hend,
    secondsCeil_add]

/-- What `expire_at_unix` makes of the record, whatever the clock of the restart says, is
    not earlier than the deadline that `expire` computes, and less than a second later if
    both were computed from one reading. -/
def LogsDeadline (clock : Clock) (seconds : UInt64) : Prop :=
  ∀ restart : SystemTime,
    MemoryStore.expireDeadline clock.expireNow seconds ≤
        MemoryStore.unixDeadline restart (expirationDeadline clock seconds) ∧
      (clock.deadlineNow = clock.expireNow →
        MemoryStore.unixDeadline restart (expirationDeadline clock seconds) <
          MemoryStore.expireDeadline clock.expireNow seconds + NANOS_PER_SEC)

/-- A logged second that the clock represents is the deadline after a restart. -/
theorem logsDeadline_of_lt (hlogged : (expirationDeadline clock seconds).toNat < 2 ^ 63)
    (hlive : clock.expireNow + seconds.toNat * NANOS_PER_SEC < CLOCK_END) :
    LogsDeadline clock seconds ↔
      clock.expireNow + seconds.toNat * NANOS_PER_SEC ≤
          (expirationDeadline clock seconds).toNat * NANOS_PER_SEC ∧
        (clock.deadlineNow = clock.expireNow →
          (expirationDeadline clock seconds).toNat * NANOS_PER_SEC <
            clock.expireNow + seconds.toNat * NANOS_PER_SEC + NANOS_PER_SEC) := by
  unfold LogsDeadline
  simp only [MemoryStore.unixDeadline_of_seconds_lt _ hlogged,
    MemoryStore.expireDeadline_of_lt hlive]
  exact forall_const SystemTime

/-- Beyond that the deadline after a restart is its reading, which may be any. -/
theorem not_logsDeadline_of_le (hlogged : 2 ^ 63 ≤ (expirationDeadline clock seconds).toNat) :
    ¬ LogsDeadline clock seconds := by
  intro h
  have hearly := (h (MemoryStore.expireDeadline clock.expireNow seconds - 1)).1
  rw [MemoryStore.unixDeadline_of_le_seconds _ hlogged] at hearly
  exact absurd hearly (Int.not_le.mpr (Int.sub_lt_self _ Int.one_pos))

theorem rounded_order {t₁ t₂ : Int} {seconds logged : Nat} (hle : t₁ ≤ t₂)
    (hlogged : (logged : Int) = max 0 (secondsCeil t₁ + seconds)) (hsmall : logged < 2 ^ 63) :
    (t₂ + seconds * NANOS_PER_SEC ≤ logged * NANOS_PER_SEC ∧
        (t₁ = t₂ → (logged : Int) * NANOS_PER_SEC <
          t₂ + seconds * NANOS_PER_SEC + NANOS_PER_SEC)) ↔
      t₁ + seconds * NANOS_PER_SEC ≤ 2 ^ 63 * NANOS_PER_SEC - NANOS_PER_SEC ∧
        (t₂ + seconds * NANOS_PER_SEC ≤ 0 ∨ t₂ ≤ secondsCeil t₁ * NANOS_PER_SEC) ∧
        (t₁ = t₂ → 0 - (NANOS_PER_SEC : Int) < t₂ + seconds * NANOS_PER_SEC) := by
  obtain ⟨hceil, hceil'⟩ := le_secondsCeil t₁
  unfold NANOS_PER_SEC at *
  generalize secondsCeil t₁ = ceil at *
  omega

theorem rounded_past_end {t₁ : Int} {seconds logged : Nat}
    (hlogged : (logged : Int) = max 0 (secondsCeil t₁ + seconds)) (hbig : 2 ^ 63 ≤ logged) :
    ¬ t₁ + seconds * NANOS_PER_SEC ≤ CLOCK_END - NANOS_PER_SEC := by
  obtain ⟨hceil, hceil'⟩ := le_secondsCeil t₁
  unfold CLOCK_END NANOS_PER_SEC at *
  generalize secondsCeil t₁ = ceil at *
  omega

theorem logsDeadline_iff (hreadings : clock.deadlineNow ≤ clock.expireNow)
    (hlive : clock.expireNow + seconds.toNat * NANOS_PER_SEC < CLOCK_END) :
    LogsDeadline clock seconds ↔
      clock.deadlineNow + seconds.toNat * NANOS_PER_SEC ≤ CLOCK_END - NANOS_PER_SEC ∧
        (clock.expireNow + seconds.toNat * NANOS_PER_SEC ≤ UNIX_EPOCH ∨
          clock.expireNow ≤ secondsCeil clock.deadlineNow * NANOS_PER_SEC) ∧
        (clock.deadlineNow = clock.expireNow →
          UNIX_EPOCH - NANOS_PER_SEC < clock.expireNow + seconds.toNat * NANOS_PER_SEC) := by
  have hlogged := toNat_expirationDeadline
    (Int.lt_of_le_of_lt (Int.add_le_add_right hreadings _) hlive)
  by_cases hsmall : (expirationDeadline clock seconds).toNat < 2 ^ 63
  · rw [logsDeadline_of_lt hsmall hlive]
    exact rounded_order hreadings hlogged hsmall
  · have hbig : 2 ^ 63 ≤ (expirationDeadline clock seconds).toNat := Nat.not_lt.mp hsmall
    constructor
    · intro h
      exact absurd h (not_logsDeadline_of_le hbig)
    · intro h
      exact absurd h.1 (rounded_past_end hlogged hbig)

/-! ### The deadline in the store -/

variable {env : Env} {store : MemoryStore} {key : String}

/-- Handling an `EXPIRE` keeps its time to live: the deadline that the live store has after
    it is not later than the one that its record gives at a restart, and, if both were
    computed from one reading, less than a second earlier. -/
def KeepsTtl (env : Env) (store : MemoryStore) (key : String) (seconds : UInt64) : Prop :=
  ∀ logged unixSeconds, (Command.expire key seconds).toAofFrame env.clock = some logged →
    Command.fromFrame logged = .ok (.expireAt key unixSeconds) →
    ∀ value live, ((Command.expire key seconds).execute env store).2.entries.lookup key =
      some ⟨value, some live⟩ →
    ∀ restart, live ≤ MemoryStore.unixDeadline restart unixSeconds ∧
      (env.clock.deadlineNow = env.clock.expireNow →
        MemoryStore.unixDeadline restart unixSeconds < live + NANOS_PER_SEC)

theorem lookup_expire {value : Value} {expiresAt : Option SystemTime}
    (hvisible : visible env.clock.now (store.entries.lookup key) = some ⟨value, expiresAt⟩)
    (seconds : UInt64) :
    ((Command.expire key seconds).execute env store).2.entries.lookup key =
      if MemoryStore.expireDeadline env.clock.expireNow seconds ≤ env.clock.now then none
      else some ⟨value, some (MemoryStore.expireDeadline env.clock.expireNow seconds)⟩ := by
  change (store.expireAt env.clock.now key _).2.entries.lookup key = _
  rw [MemoryStore.expireAt_eq, hvisible, MemoryStore.withCell_entries, lookup_assign_self]
  rfl

theorem fromFrame_expireRecord {logged : Frame}
    (hlog : (Command.expire key seconds).toAofFrame env.clock = some logged) :
    Command.fromFrame logged = .ok (.expireAt key (expirationDeadline env.clock seconds)) := by
  have hcommand := fromFrame_commandFrame "EXPIREAT"
    [utf8 key, utf8 (toString (expirationDeadline env.clock seconds))]
  rw [← Option.some.inj hlog]
  exact hcommand.trans (parseCommand_expireAt key _)

/-- The record and the store have the two deadlines, unless the live one is past at once
    and the key is deleted. -/
theorem keepsTtl_of_visible {value : Value} {expiresAt : Option SystemTime}
    (hvisible : visible env.clock.now (store.entries.lookup key) = some ⟨value, expiresAt⟩) :
    KeepsTtl env store key seconds ↔
      MemoryStore.expireDeadline env.clock.expireNow seconds ≤ env.clock.now ∨
        LogsDeadline env.clock seconds := by
  have hlookup := lookup_expire hvisible seconds
  constructor
  · intro h
    by_cases hpast : MemoryStore.expireDeadline env.clock.expireNow seconds ≤ env.clock.now
    · exact Or.inl hpast
    · rw [if_neg hpast] at hlookup
      exact Or.inr (h _ _ rfl (fromFrame_expireRecord rfl) _ _ hlookup)
  · intro h logged unixSeconds hlog hparse current live hcell
    rw [hlookup] at hcell
    rw [fromFrame_expireRecord hlog] at hparse
    cases hparse
    split at hcell
    · cases hcell
    · rename_i hfuture
      cases hcell
      exact h.resolve_left hfuture

/-- **When a logged `EXPIRE` keeps the time to live**: the deadline passed before it was set
    and the key is deleted, or the logged second is one that the clock represents, the
    clock of `expire` has not passed the whole second at or after the reading for the
    record (or the live deadline is not after the epoch), and a deadline from one reading
    is less than a second before the epoch. -/
theorem keepsTtl_iff {value : Value} {expiresAt : Option SystemTime}
    (hvisible : visible env.clock.now (store.entries.lookup key) = some ⟨value, expiresAt⟩)
    (hreadings : env.clock.deadlineNow ≤ env.clock.expireNow)
    (hlive : env.clock.expireNow + seconds.toNat * NANOS_PER_SEC < CLOCK_END) :
    KeepsTtl env store key seconds ↔
      env.clock.expireNow + seconds.toNat * NANOS_PER_SEC ≤ env.clock.now ∨
        env.clock.deadlineNow + seconds.toNat * NANOS_PER_SEC ≤ CLOCK_END - NANOS_PER_SEC ∧
          (env.clock.expireNow + seconds.toNat * NANOS_PER_SEC ≤ UNIX_EPOCH ∨
            env.clock.expireNow ≤ secondsCeil env.clock.deadlineNow * NANOS_PER_SEC) ∧
          (env.clock.deadlineNow = env.clock.expireNow →
            UNIX_EPOCH - NANOS_PER_SEC <
              env.clock.expireNow + seconds.toNat * NANOS_PER_SEC) := by
  rw [keepsTtl_of_visible hvisible, logsDeadline_iff hreadings hlive,
    MemoryStore.expireDeadline_of_lt hlive]

theorem undatedStore_visible (now : SystemTime) :
    visible now (undatedStore.entries.lookup "k") = some ⟨.string [1], none⟩ := by
  rfl

/-- Ten seconds from the epoch, executed half a second after the record was made. -/
def lateEnv : Env := ⟨⟨0, 0, 500000000, 500000000⟩, .ascending, .constant 0⟩

theorem late_ttl_shortened : ¬ KeepsTtl lateEnv undatedStore "k" 10 := by
  rw [keepsTtl_of_visible (undatedStore_visible _)]
  rintro (hpast | hlogs)
  · exact absurd hpast (by decide +kernel)
  · exact absurd (hlogs 0).1 (by decide +kernel)

/-- The same delay within a second is made up for. -/
def promptEnv : Env := ⟨⟨250000000, 250000000, 750000000, 750000000⟩, .ascending, .constant 0⟩

theorem keepsTtl_prompt : KeepsTtl promptEnv undatedStore "k" 10 :=
  (keepsTtl_iff (undatedStore_visible _) (by decide) (by decide)).mpr (Or.inr (by decide))

end AerugoCache.Commands
