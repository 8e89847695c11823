import AerugoCache.CommandCodec
import AerugoCache.LogScan

/-!
# Appends that fail

An append that fails leaves some beginning of its record in the log, and the records
after it go behind that.  As long as no append succeeds behind a torn record, every
record whose append succeeded is read back, in order.  Behind a torn record the
decoder takes the next record for the rest of the torn one.
-/

namespace AerugoCache.Persistence

open AerugoCache.ByteText AerugoCache.Protocol AerugoCache.Storage AerugoCache.Commands

/-- The log after appends, one after another. -/
def appendAll : List (Record × AppendOutcome) → Bytes → Bytes
  | [], log => log
  | (record, outcome) :: appends, log => appendAll appends (append log record.frame outcome).2

/-- The records whose append returned `Ok`. -/
def acknowledged (appends : List (Record × AppendOutcome)) : List Record :=
  (appends.filter fun appended => appended.2 = .written).map Prod.fst

/-- The commands that `replay` executes: it reads the frames of the scan and skips those
    that are no command. -/
def executedCommands (log : Bytes) : List Command :=
  (scanLog .unlimited log).1.filterMap fun frame => (Command.fromFrame frame).toOption

/-- The append failed with some but not all of its record in the log. -/
def Torn (appended : Record × AppendOutcome) : Prop :=
  ∃ kept, appended.2 = .failed kept ∧ 0 < kept ∧ kept < (writeFrame appended.1.frame).length

instance (appended : Record × AppendOutcome) : Decidable (Torn appended) :=
  match h : appended.2 with
  | .written => isFalse (by rintro ⟨kept, hkept, -⟩; rw [h] at hkept; cases hkept)
  | .failed kept =>
      decidable_of_iff (0 < kept ∧ kept < (writeFrame appended.1.frame).length) (by simp [Torn, h])

/-- No append succeeds behind a torn record. -/
def NoneBehindTorn (appends : List (Record × AppendOutcome)) : Prop :=
  appends.Pairwise fun earlier later => Torn earlier → later.2 ≠ .written

instance (appends : List (Record × AppendOutcome)) : Decidable (NoneBehindTorn appends) :=
  inferInstanceAs (Decidable (appends.Pairwise _))

theorem append_log (log : Bytes) (frame : Frame) (outcome : AppendOutcome) :
    (append log frame outcome).2 = log ++ (append [] frame outcome).2 := by
  cases outcome <;> rfl

theorem appendAll_eq (appends : List (Record × AppendOutcome)) (log : Bytes) :
    appendAll appends log =
      log ++ appends.flatMap fun appended => (append [] appended.1.frame appended.2).2 := by
  induction appends generalizing log with
  | nil => simp [appendAll]
  | cons appended appends ih =>
    rw [appendAll, ih, append_log, List.flatMap_cons, List.append_assoc]

/-- What an append that tears nothing adds: the whole record, or nothing. -/
theorem append_not_torn {appended : Record × AppendOutcome} (h : ¬ Torn appended) :
    (append [] appended.1.frame appended.2).2 = writeFrame appended.1.frame ∨
      (append [] appended.1.frame appended.2).2 = [] ∧ appended.2 ≠ .written := by
  obtain ⟨record, outcome⟩ := appended
  cases outcome with
  | written => exact Or.inl rfl
  | failed kept =>
    by_cases hzero : kept = 0
    · subst hzero
      refine Or.inr ⟨?_, ?_⟩
      · simp [append]
      · simp
    · refine Or.inl ?_
      have hall : (writeFrame record.frame).length ≤ kept := by
        by_contra hshort
        exact h ⟨kept, rfl, Nat.pos_of_ne_zero hzero, Nat.lt_of_not_le hshort⟩
      simp [append, List.take_of_length_le hall]

theorem acknowledged_cons (appended : Record × AppendOutcome)
    (appends : List (Record × AppendOutcome)) :
    acknowledged (appended :: appends) =
      (if appended.2 = .written then [appended.1] else []) ++ acknowledged appends := by
  by_cases hwritten : appended.2 = .written <;> simp [acknowledged, hwritten]

/-- The log is whole records, the acknowledged ones among them, and then a rest. -/
theorem exists_whole {appends : List (Record × AppendOutcome)} (h : NoneBehindTorn appends) :
    ∃ whole rest, appendAll appends [] = (whole.map Record.frame).flatMap writeFrame ++ rest ∧
      (acknowledged appends).Sublist whole := by
  rw [appendAll_eq, List.nil_append]
  induction appends with
  | nil => exact ⟨[], [], rfl, List.Sublist.refl _⟩
  | cons appended appends ih =>
    obtain ⟨hbehind, hrest⟩ := List.pairwise_cons.mp h
    obtain ⟨whole, rest, hlog, hsub⟩ := ih hrest
    rw [List.flatMap_cons, acknowledged_cons]
    by_cases htorn : Torn appended
    · -- nothing behind a torn record is acknowledged
      have hnone : acknowledged appends = [] := by
        simp only [acknowledged, List.map_eq_nil_iff, List.filter_eq_nil_iff, decide_eq_true_eq]
        intro later hlater
        exact hbehind later hlater htorn
      have hfailed : appended.2 ≠ .written := by
        obtain ⟨kept, hkept, -⟩ := htorn
        simp [hkept]
      refine ⟨[], _, rfl, ?_⟩
      rw [hnone, if_neg hfailed]
      exact List.Sublist.refl _
    · rcases append_not_torn htorn with hwhole | ⟨hnothing, hfailed⟩
      · refine ⟨appended.1 :: whole, rest, ?_, ?_⟩
        · rw [hwhole, hlog]
          simp
        · split
          · exact hsub.cons_cons _
          · exact hsub.cons _
      · refine ⟨whole, rest, ?_, ?_⟩
        · rw [hnothing, hlog]
          rfl
        · rw [if_neg hfailed]
          exact hsub

theorem commands_of_records (records : List Record) :
    (records.map Record.frame).filterMap (fun frame => (Command.fromFrame frame).toOption) =
      records.map Record.command := by
  induction records with
  | nil => rfl
  | cons record records ih =>
    rw [List.map_cons, List.filterMap_cons, record.parses, ih]
    rfl

theorem executedCommands_whole (whole : List Record) (rest : Bytes) :
    (whole.map Record.command).Sublist
      (executedCommands ((whole.map Record.frame).flatMap writeFrame ++ rest)) := by
  have hread : ∀ frame ∈ whole.map Record.frame, frame.Readable := by
    simpa using fun record _ => Record.readable record
  have hfits : ∀ frame ∈ whole.map Record.frame, frame.Fits .unlimited := by
    simpa using fun record _ => Record.fits record
  obtain ⟨fuel, hscan⟩ := scanLog_written hread hfits rest
  rw [executedCommands, hscan, List.filterMap_append, commands_of_records]
  exact List.sublist_append_left _ _

/-- The frames of the scan are those that `replay` executes, whatever the store. -/
theorem replay_store (envs : Nat → Env) (log : Bytes) (store : MemoryStore) :
    (replay .unlimited envs (some log) store).2 =
      (replayFrames envs (scanLog .unlimited log).1 0 0 store).2 := by
  rw [replay_scan]

/-- **Failed appends.**  `replay` runs the frames of the scan; where no append succeeds
    behind a torn record, every command whose append returned `Ok` is among theirs, in
    order. -/
theorem acknowledged_executed {appends : List (Record × AppendOutcome)}
    (h : NoneBehindTorn appends) :
    let log := appendAll appends []
    (∀ envs store, (replay .unlimited envs (some log) store).2 =
      (replayFrames envs (scanLog .unlimited log).1 0 0 store).2) ∧
    ((acknowledged appends).map Record.command).Sublist (executedCommands log) := by
  intro log
  obtain ⟨whole, rest, hlog, hsub⟩ := exists_whole h
  refine ⟨fun envs store => replay_store envs log store, ?_⟩
  rw [show log = _ from hlog]
  exact (hsub.map _).trans (executedCommands_whole whole rest)

/-- The record of a `SET`. -/
def setRecord (key : String) (value : Bytes)
    (held : decide ((utf8 key).length < 2 ^ 63 ∧ value.length < 2 ^ 63) = true := by
      exact Eq.refl true) : Record where
  frame := commandFrame "SET" [utf8 key, value]
  command := .set key value
  readable := commandFrame_readable _ _
  fits := by
    obtain ⟨hkey, hvalue⟩ := of_decide_eq_true held
    rw [commandFrame_fits]
    simp only [List.mem_cons, List.not_mem_nil, or_false, forall_eq_or_imp, forall_eq]
    exact ⟨by simp, by decide, hkey, hvalue⟩
  parses := by
    rw [fromFrame_commandFrame]
    change parseCommand "SET" [utf8 key, value] = _
    simp only [parseCommand, Commands.bytesToString_utf8]
    rfl

/-- Two appends succeed among one that writes nothing, one that fails after its last byte
    and one that tears its record. -/
theorem acknowledged_executed_flush :
    let appends := [(setRecord "a" [1], AppendOutcome.failed 0), (setRecord "b" [2], .written),
      (setRecord "c" [3], .failed 27), (setRecord "d" [4], .written),
      (setRecord "e" [5], .failed 7)]
    let log := appendAll appends []
    (acknowledged appends).map Record.command = [.set "b" [2], .set "d" [4]] ∧
      executedCommands log = [.set "b" [2], .set "c" [3], .set "d" [4]] ∧
      (∀ envs store, (replay .unlimited envs (some log) store).2 =
        (replayFrames envs (scanLog .unlimited log).1 0 0 store).2) ∧
      [Command.set "b" [2], .set "d" [4]].Sublist (executedCommands log) := by
  intro appends log
  have hacknowledged : (acknowledged appends).map Record.command =
      [.set "b" [2], .set "d" [4]] := rfl
  have hexecuted : executedCommands log = [.set "b" [2], .set "c" [3], .set "d" [4]] := by
    decide +kernel
  obtain ⟨hreplay, hsub⟩ := acknowledged_executed (by decide : NoneBehindTorn appends)
  rw [hacknowledged] at hsub
  exact ⟨hacknowledged, hexecuted, hreplay, hsub⟩

/-- A record torn after its header swallows the next one, whose append succeeds: `replay`
    executes nothing and returns an error. -/
theorem torn_append_loses_next :
    let appends := [(setRecord "a" [1], AppendOutcome.failed 4), (setRecord "b" [2], .written)]
    let log := appendAll appends []
    ((acknowledged appends).map Record.command = [.set "b" [2]] ∧
      executedCommands log = [] ∧
      ∀ envs store, replay .unlimited envs (some log) store =
        (.error (.unexpectedEof "unexpected EOF while reading RESP array"), store)) ∧
    ¬ ∀ appends, ((acknowledged appends).map Record.command).Sublist
      (executedCommands (appendAll appends [])) := by
  intro appends log
  have hscan : (scanLog .unlimited log).1.length = 0 ∧ (scanLog .unlimited log).2 =
      .error (.unexpectedEof "unexpected EOF while reading RESP array") := by
    decide +kernel
  obtain ⟨hframes, hended⟩ := hscan
  have hnone := List.eq_nil_of_length_eq_zero hframes
  have hexecuted : executedCommands log = [] := by
    rw [executedCommands, hnone]
    rfl
  have hacknowledged : (acknowledged appends).map Record.command = [.set "b" [2]] := rfl
  refine ⟨⟨hacknowledged, hexecuted, fun envs store => ?_⟩, fun hall => ?_⟩
  · rw [replay_scan, hnone, hended]
    rfl
  · have hlost := hall appends
    rw [hacknowledged, hexecuted] at hlost
    cases hlost

end AerugoCache.Persistence
