import AerugoCache.Replay
import AerugoCache.StoreSteps

/-!
# What a command does to one key

Without a memory limit the keys do not interact: a command touches a key in one of a
few ways, and the cell of the key after it is a function of the cell before it and of
the clock.  The touch of a logged command is the touch of its record, except that the
record of a deadline computes the deadline anew.
-/

namespace AerugoCache.Commands

open AerugoCache.ByteText AerugoCache.KeyedMap AerugoCache.Protocol AerugoCache.Storage

/-- What a command does to one key.  A `date` has the deadline that the command gives the
    key and the seconds its record names. -/
inductive Touch where
  | skip
  | look
  | write (value : Bytes)
  | delete
  | date (deadline : SystemTime) (unixSeconds : UInt64)
  | persist
  | push (side : Side) (values : List Bytes)
  | pop (side : Side)
deriving DecidableEq, Repr

def Command.touch (clock : Clock) (key : String) : Command → Touch
  | .ping _ | .echo _ => .skip
  | .set k value => if key = k then .write value else .skip
  | .get k | .ttl k | .lrange k _ _ => if key = k then .look else .skip
  | .del keys => if key ∈ keys then .delete else .skip
  | .exists keys => if key ∈ keys then .look else .skip
  | .expire k seconds =>
      if key = k then
        .date (MemoryStore.expireDeadline clock.expireNow seconds) (expirationDeadline clock seconds)
      else .skip
  | .expireAt k unixSeconds =>
      if key = k then .date (MemoryStore.unixDeadline clock.expireNow unixSeconds) unixSeconds
      else .skip
  | .persist k => if key = k then .persist else .skip
  | .lpush k values => if key = k then .push .left values else .skip
  | .rpush k values => if key = k then .push .right values else .skip
  | .lpop k => if key = k then .pop .left else .skip
  | .rpop k => if key = k then .pop .right else .skip
  | .dbSize | .info | .aerugoStats => .look
  | .aerugoInspect limit => if limit = 0 then .skip else .look

/-- What a touch makes of the entry that is left of the key. -/
def Touch.update (now : SystemTime) : Touch → Option Entry → Option Entry
  | .skip, cell | .look, cell => cell
  | .write value, _ => some { value := .string value, expiresAt := none }
  | .delete, _ => none
  | .date deadline _, cell => expireCell now deadline cell
  | .persist, cell => persistCell cell
  | .push side values, cell => (pushEntry side values cell).or cell
  | .pop side, cell => popCell side cell

/-- What a touch makes of the cell of the key: only `skip` leaves an expired entry. -/
def Touch.cell (now : SystemTime) (touch : Touch) (cell : Option Entry) : Option Entry :=
  match touch with
  | .skip => cell
  | touch => touch.update now (visible now cell)

/-- The touch of the record of a command, replayed when the clock reads `reading`. -/
def Touch.replayed (reading : SystemTime) : Touch → Touch
  | .date _ unixSeconds => .date (MemoryStore.unixDeadline reading unixSeconds) unixSeconds
  | touch => touch

theorem cell_of_ne_skip {touch : Touch} (h : touch ≠ .skip) (now : SystemTime)
    (cell : Option Entry) : touch.cell now cell = touch.update now (visible now cell) := by
  cases touch with
  | skip => exact absurd rfl h
  | _ => rfl

theorem replayed_ne_skip {touch : Touch} (h : touch ≠ .skip) (reading : SystemTime) :
    touch.replayed reading ≠ .skip := by
  cases touch with
  | skip => exact absurd rfl h
  | _ => nofun

theorem replayed_ite (reading : SystemTime) (p : Prop) [Decidable p] (touch : Touch) :
    (if p then touch else .skip).replayed reading = if p then touch.replayed reading else .skip := by
  split <;> rfl

/-- The record of a command touches a key as the command does. -/
theorem touch_replayed (command : Command) (clock clock' : Clock) (key : String) :
    (command.replayed clock).touch clock' key =
      (command.touch clock key).replayed clock'.expireNow := by
  cases command with
  | aerugoInspect limit =>
    simp only [Command.replayed, Command.touch]
    split <;> rfl
  | _ =>
    simp only [Command.replayed, Command.touch, replayed_ite]
    rfl

/-! ### Execution touches every key -/

/-- A touch is what the operation of the command does to the key. -/
def Touch.act : Touch → KeyAct
  | .skip => .pass
  | .look => .look
  | .write value => .put value
  | .delete => .drop
  | .date deadline _ => .date deadline
  | .persist => .undate
  | .push side values => .push side values
  | .pop side => .pop side

theorem act_cell (touch : Touch) (now : SystemTime) (cell : Option Entry) :
    touch.act.cell now cell = touch.cell now cell := by
  cases touch <;> rfl

theorem act_of_touch {command : Command} {op : StoreOp} (hop : command.storeOp = some op)
    (env : Env) (key : String) :
    op.act env.opEnv key = (command.touch env.clock key).act := by
  cases command with
  | ping | echo => cases hop
  | aerugoInspect limit =>
    cases hop
    simp only [StoreOp.act, Command.touch]
    split <;> rfl
  | _ =>
    cases hop
    simp only [StoreOp.act, Command.touch, apply_ite Touch.act]
    rfl

theorem touch_of_no_op {command : Command} (hop : command.storeOp = none) (clock : Clock)
    (key : String) : command.touch clock key = .skip := by
  cases command with
  | ping | echo => rfl
  | _ => cases hop

/-- **What a command makes of a key.** -/
theorem lookup_execute {store : MemoryStore} (hlimit : store.config.maxMemoryBytes = none)
    (command : Command) (env : Env) (key : String) :
    (command.execute env store).2.entries.lookup key =
      (command.touch env.clock key).cell env.clock.now (store.entries.lookup key) := by
  rw [execute_store]
  cases hop : command.storeOp with
  | none =>
    rw [touch_of_no_op hop]
    rfl
  | some op =>
    rw [← act_cell, ← act_of_touch hop]
    exact op.lookup_of_unlimited hlimit env.opEnv key

/-! ### Rejected touches -/

/-- A push or a pop finds a string. -/
def Touch.Rejected : Touch → Option Entry → Prop
  | .push _ _, some ⟨.string _, _⟩ | .pop _, some ⟨.string _, _⟩ => True
  | _, _ => False

/-- A touch that looks at most or is rejected leaves what it finds. -/
theorem update_of_quiet {touch : Touch} {cell : Option Entry}
    (h : touch = .skip ∨ touch = .look ∨ touch.Rejected cell) (now : SystemTime) :
    touch.update now cell = cell := by
  rcases h with rfl | rfl | hrejected
  · rfl
  · rfl
  · unfold Touch.Rejected at hrejected
    split at hrejected
    · rfl
    · rfl
    · exact hrejected.elim

theorem reply_isOk {α : Type} (frame : α → Frame) (result : Except StoreError α) :
    (reply frame result).isOk = result.isOk := by
  cases result <;> rfl

theorem rejected_ite {p : Prop} [Decidable p] {touch : Touch} {cell : Option Entry} :
    (if p then touch else .skip).Rejected cell ↔ p ∧ touch.Rejected cell := by
  by_cases hp : p
  · rw [if_pos hp, and_iff_right hp]
  · rw [if_neg hp]
    exact iff_of_false (fun h => h) (fun h => hp h.1)

theorem push_rejected {store : MemoryStore} (hlimit : store.config.maxMemoryBytes = none)
    (picks : Picks) (now : SystemTime) (key : String) (values : List Bytes) (side : Side) :
    (store.push picks now key values side).1.isOk = false ↔
      (Touch.push side values).Rejected (visible now (store.entries.lookup key)) := by
  have hpush : ∀ entry, pushEntry side values (visible now (store.entries.lookup key)) =
      some entry → (store.push picks now key values side).1.isOk = true := by
    intro entry hentry
    rw [MemoryStore.push_eq, hentry]
    change (Except.map _ (store.commitWrite picks key _ entry).1).isOk = true
    rw [MemoryStore.commitWrite_unlimited hlimit]
    rfl
  rcases hcell : visible now (store.entries.lookup key) with _ | ⟨value | items, expiresAt⟩
  · rw [hcell] at hpush
    rw [hpush _ rfl]
    exact iff_of_false (by decide) (fun h => h)
  · rw [MemoryStore.push_eq, hcell]
    exact iff_of_true rfl trivial
  · rw [hcell] at hpush
    rw [hpush _ rfl]
    exact iff_of_false (by decide) (fun h => h)

theorem pop_rejected (store : MemoryStore) (now : SystemTime) (key : String) (side : Side) :
    (store.pop now key side).1.isOk = false ↔
      (Touch.pop side).Rejected (visible now (store.entries.lookup key)) := by
  rw [MemoryStore.pop_eq]
  rcases visible now (store.entries.lookup key) with _ | ⟨value | items, expiresAt⟩
  · exact iff_of_false nofun (fun h => h)
  · exact iff_of_true rfl trivial
  · exact iff_of_false nofun (fun h => h)

/-- A command that succeeds was not rejected on any key. -/
theorem not_rejected_of_ok {command : Command} {env : Env} {store : MemoryStore}
    (hlimit : store.config.maxMemoryBytes = none)
    (hok : (command.execute env store).1.isOk = true) (key : String) :
    ¬ (command.touch env.clock key).Rejected (visible env.clock.now (store.entries.lookup key)) := by
  have hpush : ∀ values side, (store.push env.picks env.clock.now key values side).1.isOk = true →
      ¬ (Touch.push side values).Rejected (visible env.clock.now (store.entries.lookup key)) := by
    intro values side hpushed hrejected
    rw [(push_rejected hlimit env.picks env.clock.now key values side).mpr hrejected] at hpushed
    cases hpushed
  have hpop : ∀ side, (store.pop env.clock.now key side).1.isOk = true →
      ¬ (Touch.pop side).Rejected (visible env.clock.now (store.entries.lookup key)) := by
    intro side hpopped hrejected
    rw [(pop_rejected store env.clock.now key side).mpr hrejected] at hpopped
    cases hpopped
  intro hrejected
  cases command with
  | lpush k values =>
    obtain ⟨rfl, hcell⟩ := rejected_ite.mp hrejected
    exact hpush values .left ((reply_isOk _ _).symm.trans hok) hcell
  | rpush k values =>
    obtain ⟨rfl, hcell⟩ := rejected_ite.mp hrejected
    exact hpush values .right ((reply_isOk _ _).symm.trans hok) hcell
  | lpop k =>
    obtain ⟨rfl, hcell⟩ := rejected_ite.mp hrejected
    exact hpop .left ((reply_isOk _ _).symm.trans hok) hcell
  | rpop k =>
    obtain ⟨rfl, hcell⟩ := rejected_ite.mp hrejected
    exact hpop .right ((reply_isOk _ _).symm.trans hok) hcell
  | ping | echo | dbSize | info | aerugoStats => exact hrejected
  | aerugoInspect limit =>
    simp only [Command.touch] at hrejected
    split at hrejected <;> exact hrejected
  | _ => exact (rejected_ite.mp hrejected).2

/-- A command that is not logged looks at a key at most. -/
theorem touch_of_toAofFrame_none {command : Command} {clock : Clock}
    (h : command.toAofFrame clock = none) (key : String) :
    command.touch clock key = .skip ∨ command.touch clock key = .look := by
  have honly : ∀ p : Prop, ∀ _ : Decidable p, (if p then Touch.look else .skip) = .skip ∨
      (if p then Touch.look else .skip) = .look := by
    intro p _
    split
    · exact Or.inr rfl
    · exact Or.inl rfl
  cases command with
  | ping | echo => exact Or.inl rfl
  | get | «exists» | ttl | lrange => exact honly _ _
  | dbSize | info | aerugoStats => exact Or.inr rfl
  | aerugoInspect limit =>
    simp only [Command.touch]
    split
    · exact Or.inl rfl
    · exact Or.inr rfl
  | set | del | expire | expireAt | persist | lpush | rpush | lpop | rpop => cases h

/-- A command that fails looks at a key at most, or is rejected there. -/
theorem touch_of_failed {command : Command} {env : Env} {store : MemoryStore}
    (hlimit : store.config.maxMemoryBytes = none)
    (hfailed : (command.execute env store).1.isOk = false) (key : String) :
    command.touch env.clock key = .skip ∨ command.touch env.clock key = .look ∨
      (command.touch env.clock key).Rejected
        (visible env.clock.now (store.entries.lookup key)) := by
  have honly : ∀ (k : String) (touch : Touch),
      touch.Rejected (visible env.clock.now (store.entries.lookup k)) →
      (if key = k then touch else .skip) = .skip ∨ (if key = k then touch else .skip) = .look ∨
        (if key = k then touch else .skip).Rejected
          (visible env.clock.now (store.entries.lookup key)) := by
    intro k touch hrejected
    by_cases hk : key = k
    · subst hk
      rw [if_pos rfl]
      exact Or.inr (Or.inr hrejected)
    · rw [if_neg hk]
      exact Or.inl rfl
  cases command with
  | set k value =>
    have hwrite : (store.set env.picks env.clock.now k value).1 = .ok () := by
      rw [MemoryStore.set_eq, MemoryStore.commitWrite_unlimited hlimit]
    have hset : (store.set env.picks env.clock.now k value).1.isOk = false :=
      (reply_isOk _ _).symm.trans hfailed
    rw [hwrite] at hset
    cases hset
  | lpush k values =>
    have hpushed := (reply_isOk _ _).symm.trans hfailed
    exact honly k (.push .left values) ((push_rejected hlimit _ _ k values .left).mp hpushed)
  | rpush k values =>
    have hpushed := (reply_isOk _ _).symm.trans hfailed
    exact honly k (.push .right values) ((push_rejected hlimit _ _ k values .right).mp hpushed)
  | lpop k =>
    have hpopped := (reply_isOk _ _).symm.trans hfailed
    exact honly k (.pop .left) ((pop_rejected store _ k .left).mp hpopped)
  | rpop k =>
    have hpopped := (reply_isOk _ _).symm.trans hfailed
    exact honly k (.pop .right) ((pop_rejected store _ k .right).mp hpopped)
  | ping value =>
    cases value <;> cases hfailed
  | get k =>
    have hnone : (Command.get k).toAofFrame env.clock = none := rfl
    exact (touch_of_toAofFrame_none hnone key).imp_right Or.inl
  | lrange k start stop =>
    have hnone : (Command.lrange k start stop).toAofFrame env.clock = none := rfl
    exact (touch_of_toAofFrame_none hnone key).imp_right Or.inl
  | _ => cases hfailed

end AerugoCache.Commands

namespace AerugoCache.Replay

open AerugoCache.KeyedMap AerugoCache.Protocol AerugoCache.Storage AerugoCache.Commands
  AerugoCache.Server

/-! ### Requests -/

/-- What a request does to a key; one that does not parse does nothing. -/
def requestTouch (key : String) (request : Request) : Touch :=
  match Command.fromFrame request.frame with
  | .ok command => command.touch request.env.clock key
  | .error _ => .skip

/-- What the store shows of a key to a request. -/
def shown (key : String) (request : Request) (store : MemoryStore) : Option Entry :=
  visible request.env.clock.now (store.entries.lookup key)

theorem lookup_nextStore {store : MemoryStore} (hlimit : store.config.maxMemoryBytes = none)
    (request : Request) (key : String) :
    (nextStore request store).entries.lookup key =
      (requestTouch key request).cell request.env.clock.now (store.entries.lookup key) := by
  unfold nextStore executeRequest requestTouch
  cases Command.fromFrame request.frame with
  | ok command => exact lookup_execute hlimit command request.env key
  | error error => rfl

/-- A request without a record: the key is as it was, or its expired entry is gone. -/
theorem unlogged_touch {request : Request} {store : MemoryStore}
    (hlimit : store.config.maxMemoryBytes = none)
    (hlogged : loggedCommand request store = none) (key : String) :
    requestTouch key request = .skip ∨ requestTouch key request = .look ∨
      (requestTouch key request).Rejected (shown key request store) := by
  unfold loggedCommand at hlogged
  unfold requestTouch shown
  rcases hparse : Command.fromFrame request.frame with error | command
  · exact Or.inl rfl
  · rw [hparse] at hlogged
    change (if _ then _ else _) = none at hlogged
    split at hlogged
    · cases hlogged
    · rename_i hnot
      rw [not_and_or, Bool.not_eq_true, Option.not_isSome_iff_eq_none] at hnot
      rcases hnot with hfailed | hnone
      · exact touch_of_failed hlimit hfailed key
      · exact (touch_of_toAofFrame_none hnone key).imp_right Or.inl

/-- A request with a record was not rejected, and replay repeats its touch. -/
theorem logged_touch {request : Request} {store : MemoryStore} {logged : Command}
    (hlimit : store.config.maxMemoryBytes = none)
    (hlogged : loggedCommand request store = some logged) (clock : Clock) (key : String) :
    ¬ (requestTouch key request).Rejected (shown key request store) ∧
      logged.touch clock key = (requestTouch key request).replayed clock.expireNow := by
  obtain ⟨command, hparse, hok, -, rfl, -⟩ := loggedCommand_some hlogged
  unfold requestTouch shown
  rw [hparse]
  exact ⟨not_rejected_of_ok hlimit hok key, touch_replayed command request.env.clock clock key⟩

/-! ### One key in the live run and in the replay -/

/-- All the readings of a command are `now`. -/
def stoppedClock (now : SystemTime) : Clock := ⟨now, now, now, now⟩

/-- `lockstep` for the cells of one key, without a memory limit and with a replay during
    which the clock does not move.  A request may leave the key as it is, look at it, or be
    logged with a touch that replay repeats. -/
theorem lockstep_key {γ : Type} {next : γ → Request → MemoryStore → γ}
    {good : γ → Request → MemoryStore → Prop} {key : String} {restart : SystemTime}
    (R : γ → Option Entry → Option Entry → Prop)
    (hkept : ∀ {history request live replayed}, R history (live.entries.lookup key) replayed →
      requestTouch key request = .skip →
      R (next history request live) (live.entries.lookup key) replayed)
    (hlooked : ∀ {history request live replayed}, R history (live.entries.lookup key) replayed →
      requestTouch key request = .skip ∨ requestTouch key request = .look ∨
        (requestTouch key request).Rejected (shown key request live) →
      R (next history request live) (shown key request live) replayed)
    (hlogged : ∀ {history request live replayed}, R history (live.entries.lookup key) replayed →
      good history request live →
      ¬ (requestTouch key request).Rejected (shown key request live) →
      R (next history request live)
        ((requestTouch key request).update request.env.clock.now (shown key request live))
        (((requestTouch key request).replayed restart).update restart (visible restart replayed)))
    {envs : Nat → Env} (henvs : ∀ round, (envs round).clock = stoppedClock restart)
    {history : γ} {requests : List Request} {live replayed : MemoryStore}
    (hlive : live.config.maxMemoryBytes = none) (hreplayed : replayed.config.maxMemoryBytes = none)
    (hstart : R history (live.entries.lookup key) (replayed.entries.lookup key))
    (hgood : Along next good history requests live) :
    R (historyAfter next history requests live) ((runStore requests live).entries.lookup key)
      ((replayCommands envs (loggedCommands requests live) 0 0 replayed).2.entries.lookup key) := by
  let R' := fun (history : γ) (live : MemoryStore) (_ _ : Nat) (replayed : MemoryStore) =>
    live.config.maxMemoryBytes = none ∧ replayed.config.maxMemoryBytes = none ∧
      R history (live.entries.lookup key) (replayed.entries.lookup key)
  have hstart' : R' history live 0 0 replayed := ⟨hlive, hreplayed, hstart⟩
  have hrun : R' (historyAfter next history requests live) (runStore requests live)
      (0 + (loggedCommands requests live).length)
      (replayCommands envs (loggedCommands requests live) 0 0 replayed).1
      (replayCommands envs (loggedCommands requests live) 0 0 replayed).2 :=
    lockstep next R' envs ?_ ?_ hstart' hgood
  · exact hrun.2.2
  · intro history request live round count replayed h _ hnone
    obtain ⟨hlive, hreplayed, h⟩ := h
    refine ⟨by rw [nextStore_config, hlive], hreplayed, ?_⟩
    have hquiet := unlogged_touch hlive hnone key
    rw [lookup_nextStore hlive]
    by_cases hskip : requestTouch key request = .skip
    · rw [hskip]
      exact hkept h hskip
    · rw [cell_of_ne_skip hskip]
      have hsame := update_of_quiet hquiet request.env.clock.now
      unfold shown at hsame
      rw [hsame]
      exact hlooked h hquiet
  · intro history request live round count replayed command h hgood hsome
    obtain ⟨hlive, hreplayed, h⟩ := h
    obtain ⟨hok, htouch⟩ := logged_touch hlive hsome (envs round).clock key
    refine ⟨by rw [nextStore_config, hlive], by rw [execute_config, hreplayed], ?_⟩
    rw [lookup_nextStore hlive, lookup_execute hreplayed, htouch, henvs round]
    by_cases hskip : requestTouch key request = .skip
    · rw [hskip]
      exact hkept h hskip
    · rw [cell_of_ne_skip hskip, cell_of_ne_skip (replayed_ne_skip hskip _)]
      exact hlogged h hgood hok

end AerugoCache.Replay
