import AerugoCache.ErrorReplies
import AerugoCache.LoggedTtl

/-!
# The log misses no command

The record of a command that parses parses to that command again, or for an `EXPIRE` to
the `EXPIREAT` of its deadline in whole seconds.  A command without a record shows the
store as it was.
-/

namespace AerugoCache.Commands

open AerugoCache.ByteText AerugoCache.Protocol AerugoCache.Storage AerugoCache.Server

/-- The commands that are logged as they are. -/
def Command.IsMutation : Command → Prop
  | .set _ _ | .del _ | .expireAt _ _ | .persist _ | .lpush _ _ | .rpush _ _ | .lpop _
  | .rpop _ => True
  | _ => False

theorem Command.IsMutation.replayed {command : Command} (h : command.IsMutation)
    (clock : Clock) : command.replayed clock = command := by
  cases command with
  | expire key seconds => exact absurd h id
  | _ => rfl

theorem Command.IsMutation.logged {command : Command} (h : command.IsMutation) (clock : Clock) :
    ∃ frame, command.toAofFrame clock = some frame := by
  cases command with
  | set | del | expireAt | persist | lpush | rpush | lpop | rpop => exact ⟨_, rfl⟩
  | _ => exact absurd h id

/-- The deadline that `expiration_deadline` rounds. -/
def loggedDeadline (clock : Clock) (seconds : UInt64) : SystemTime :=
  (checkedAdd clock.deadlineNow seconds).getD clock.fallbackNow

theorem loggedDeadline_lt {clock : Clock} (hclock : clock.fallbackNow < CLOCK_END)
    (seconds : UInt64) : loggedDeadline clock seconds < CLOCK_END := by
  rw [loggedDeadline]
  by_cases hend : clock.deadlineNow + seconds.toNat * NANOS_PER_SEC < CLOCK_END
  · rw [checkedAdd_of_lt hend]
    exact hend
  · rw [checkedAdd_of_le (Int.not_lt.mp hend)]
    exact hclock

/-- **Command codec round trip and log completeness.**  A mutation is logged as a frame
    that parses to it; an `EXPIRE` as one that parses to the `EXPIREAT` of its deadline,
    rounded up to the whole seconds of a timestamp; what is not logged leaves the keys,
    values and deadlines that the store shows. -/
theorem log_complete {frame : Frame} {command : Command}
    (hparse : Command.fromFrame frame = .ok command) (clock : Clock) :
    (command.IsMutation → ∃ logged, command.toAofFrame clock = some logged ∧
        Command.fromFrame logged = .ok command) ∧
      (∀ key seconds, command = .expire key seconds → ∃ logged unixSeconds,
        command.toAofFrame clock = some logged ∧
          Command.fromFrame logged = .ok (.expireAt key unixSeconds) ∧
          (clock.fallbackNow < CLOCK_END →
            (unixSeconds.toNat : Int) = max 0 (secondsCeil (loggedDeadline clock seconds)))) ∧
      (command.toAofFrame clock = none → ∀ env store,
        SameVisible env.clock.now store.entries (command.execute env store).2.entries) := by
  refine ⟨?_, ?_, ?_⟩
  · intro hmutation
    obtain ⟨logged, hlog⟩ := hmutation.logged clock
    refine ⟨logged, hlog, ?_⟩
    rw [fromFrame_toAofFrame hparse hlog, hmutation.replayed]
  · rintro key seconds rfl
    refine ⟨_, expirationDeadline clock seconds, rfl, fromFrame_toAofFrame hparse rfl, ?_⟩
    intro hclock
    exact toNat_unixSecondsCeil (loggedDeadline_lt hclock seconds)
  · intro hunlogged env store
    rw [sameVisible_execute]
    exact not_changes_of_unlogged hunlogged env store

/-- An `EXPIRE` in mixed case, read half a second after the epoch. -/
theorem log_complete_expire :
    ∃ logged unixSeconds,
      (Command.expire "k" 10).toAofFrame ⟨500000000, 500000000, 500000000, 500000000⟩ =
          some logged ∧
        Command.fromFrame logged = .ok (.expireAt "k" unixSeconds) ∧
        ((500000000 : SystemTime) < CLOCK_END → (unixSeconds.toNat : Int) = max 0 (secondsCeil
          (loggedDeadline ⟨500000000, 500000000, 500000000, 500000000⟩ 10))) := by
  have hparse : Command.fromFrame (commandFrame "eXpIrE" [utf8 "k", utf8 "10"]) =
      .ok (.expire "k" 10) := by
    rfl
  exact (log_complete hparse _).2.1 "k" 10 rfl

end AerugoCache.Commands
