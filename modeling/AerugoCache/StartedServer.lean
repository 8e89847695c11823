import AerugoCache.NonemptyLists
import AerugoCache.Options
import AerugoCache.SocketTasks

/-!
# A server from its options on

What every command and every sweep keep of the entries holds in every state that a server
can reach: its log, whatever it holds, is replayed by executing commands, and so are the
requests of the clients, in whatever order their bytes arrive and the tasks take the locks.
So a server started with `--max-memory` keeps to the size on its command line.
-/

namespace AerugoCache.Concurrent

open AerugoCache.ByteText AerugoCache.KeyedMap AerugoCache.Protocol AerugoCache.Storage
  AerugoCache.Commands AerugoCache.Persistence AerugoCache.Server AerugoCache.StepSystem
  AerugoCache.Options

/-! ### From commands to servers -/

/-- Every command that the parser makes keeps the property of the store. -/
def KeptByCommands (P : MemoryStore → Prop) : Prop :=
  ∀ frame command, Command.fromFrame frame = .ok command → ∀ env store,
    P store → P (command.execute env store).2

section

variable {P : MemoryStore → Prop}

theorem KeptByCommands.replayLoop (h : KeptByCommands P) (heap : Allocator) (envs : Nat → Env)
    (fuel round : Nat) (stream : Bytes) (count : Nat) {store : MemoryStore} (hstore : P store) :
    P (Persistence.replayLoop heap envs fuel round stream count store).2 := by
  induction fuel generalizing round stream count store with
  | zero => exact hstore
  | succ fuel ih =>
    rw [Persistence.replayLoop]
    split
    · exact hstore
    · exact hstore
    · rename_i frame rest hframe
      apply ih
      cases hcommand : Command.fromFrame frame with
      | error error => exact hstore
      | ok command =>
        have hnext := h frame command hcommand (envs round) store hstore
        simp only
        generalize command.execute (envs round) store = outcome at hnext ⊢
        obtain ⟨_ | _, after⟩ := outcome
        · exact hnext
        · exact hnext

/-- Whatever the log holds, a server that starts has the property. -/
theorem KeptByCommands.startup (h : KeptByCommands P) {config : StoreConfig}
    (hempty : P (.withConfig config)) {heap : Allocator} {envs : Nat → Env}
    {file : Option (Option Bytes)} {server : ServerState}
    (hstart : Server.startup heap envs config file = .ok server) : P server.store := by
  unfold Server.startup at hstart
  split at hstart
  · cases hstart
    exact hempty
  · rename_i log
    have hreplayed : P (replay heap envs log (.withConfig config)).2 := by
      cases log with
      | none => exact hempty
      | some log => exact h.replayLoop heap envs _ 0 log 0 hempty
    generalize replay heap envs log (.withConfig config) = outcome at hstart hreplayed
    obtain ⟨_ | count, store⟩ := outcome
    · cases hstart
    · cases hstart
      exact hreplayed

end

/-- The turn under the lock of the entries is the command, but for its counts. -/
theorem enterFrame_store (frame : Frame) (env : Env) (outcome : AppendOutcome)
    (store : MemoryStore) :
    (enterFrame frame env outcome store).2 =
      (executeFrame frame env store).2.withCounters store.counters := by
  rw [enterFrame, executeFrame]
  cases Command.fromFrame frame with
  | error error => rfl
  | ok command =>
    simp only [execute_store]
    cases command.storeOp with
    | none => rfl
    | some op => exact (congrArg (fun outcome => outcome.2.withCounters store.counters)
        (op.splits env.opEnv store)).symm

/-- Every command and every sweep keeps the property, and the counters do not matter. -/
structure KeptByTasks (P : MemoryStore → Prop) : Prop where
  commands : KeptByCommands P
  cleanup : ∀ store now, P store → P (store.cleanupExpired now).2
  counters : ∀ store counters, P store → P (store.withCounters counters)

section

variable {P : MemoryStore → Prop} {Id : Type} [DecidableEq Id]

theorem KeptByTasks.enterFrame (h : KeptByTasks P) {store : MemoryStore} (hstore : P store)
    (frame : Frame) (env : Env) (outcome : AppendOutcome) :
    P (Concurrent.enterFrame frame env outcome store).2 := by
  rw [enterFrame_store]
  apply h.counters
  unfold executeFrame
  cases hcommand : Command.fromFrame frame with
  | error error => exact hstore
  | ok command => exact h.commands frame command hcommand env store hstore

theorem KeptByTasks.turn (h : KeptByTasks P) {turn : LockTurn} {phase next : Phase}
    {server server' : ServerState} (hstore : P server.store)
    (hturn : Phase.Takes server turn phase next server') : P server'.store := by
  cases hturn with
  | record counts pending => exact h.counters _ _ hstore
  | report pending => exact hstore
  | append response aofFrame outcome => exact hstore

/-- No step of the server breaks the property. -/
theorem KeptByTasks.host (h : KeptByTasks P) (heap : Allocator) (rounds : Id → Nat → Round) :
    Keeps (Host.step fun id => socketRules heap (rounds id)) fun host => P host.server.store := by
  intro host event next hstore hstep
  cases Host.step_takes hstep with
  | client hconnection =>
    cases SocketTask.step_takes hconnection with
    | enter htask hpoll => exact h.enterFrame hstore _ _ _
    | turn htask hturn => exact h.turn hstore (Phase.turn_takes hturn)
    | _ => exact hstore
  | cleanup hidle =>
    rename_i now
    have hcleaned := h.counters _ host.server.store.counters (h.cleanup _ now hstore)
    have hsplits : StoreOp.cleanupExpired.run (.at now) host.server.store = _ :=
      StoreOp.cleanupExpired.splits (.at now) host.server.store
    change P ((StoreOp.cleanupExpired.run (.at now) host.server.store).2.withCounters _)
      at hcleaned
    rwa [hsplits] at hcleaned
  | record hcounts => exact h.counters _ _ hstore

end

/-! ### The limit, and no empty lists -/

/-- The store is under a limit of `size` bytes, keeps to it, and stores no empty list. -/
structure Bounded (size : Nat) (store : MemoryStore) : Prop where
  limited : store.config.maxMemoryBytes = some size
  within : store.WithinLimit
  nonempty : NonemptyLists store.entries

theorem keptByCommands_bounded (size : Nat) : KeptByCommands (Bounded size) := by
  intro frame command hcommand env store hstore
  refine ⟨?_, ?_, execute_nonempty (fromFrame_pushesValues hcommand) env hstore.nonempty⟩
  · rw [execute_config]
    exact hstore.limited
  · rw [execute_store]
    cases command.storeOp with
    | none => exact hstore.within
    | some op => exact op.run_withinLimit env.opEnv hstore.within

theorem keptByTasks_bounded (size : Nat) : KeptByTasks (Bounded size) where
  commands := keptByCommands_bounded size
  cleanup store now hstore := by
    refine ⟨?_, ?_, ?_⟩
    · exact (congrArg StoreConfig.maxMemoryBytes
        (StoreOp.cleanupExpired.run_config (.at now) store)).trans hstore.limited
    · exact StoreOp.cleanupExpired.run_withinLimit (.at now) hstore.within
    · exact @StoreOp.nonempty_run .cleanupExpired (.at now) (fun _ => trivial) _ hstore.nonempty
  counters _ _ hstore := ⟨hstore.limited, hstore.within, hstore.nonempty⟩

theorem bounded_empty {config : StoreConfig} {size : Nat}
    (h : config.maxMemoryBytes = some size) : Bounded size (.withConfig config) where
  limited := h
  within _ _ := Nat.zero_le _
  nonempty key := by
    rw [show (MemoryStore.withConfig config).entries.lookup key = none from rfl]
    exact nonemptyCell_none

/-- **The limit on the command line.**  If the options are accepted, the text of
    `--max-memory` stands for a size in bytes, and from every log that replays, and for any
    clients that send any bytes, a server started with these options never holds or reports
    more than that size, nor stores an empty list, in any state that it reaches by the turns
    of its connections and of the task that cleans up. -/
theorem started_within_limit {maxMemory : String} {evictionPolicy : Option String}
    {config : StoreConfig} (hoptions : storeConfig (some maxMemory) evictionPolicy = .ok config)
    {Id : Type} [DecidableEq Id] :
    ∃ size, config.maxMemoryBytes = some size ∧ SizeText maxMemory.toList size ∧
      ∀ heap envs file server, startup heap envs config file = .ok server →
        ∀ (rounds : Id → Nat → Round) streams events host,
          run (Host.step fun id => socketRules heap (rounds id)) events
            (.accepted server streams) = some host →
          let store := host.server.store
          estimatedMemoryBytes store.entries ≤ size ∧ NonemptyLists store.entries ∧
            ∀ now, (store.stats now).1.estimatedMemoryBytes ≤ size := by
  obtain ⟨size, hlimit, hsize⟩ := storeConfig_limit hoptions
  refine ⟨size, hlimit, hsize, ?_⟩
  intro heap envs file server hstart rounds streams events host hrun store
  have hkept := keptByTasks_bounded size
  have hserver : Bounded size server.store :=
    hkept.commands.startup (bounded_empty hlimit) hstart
  have hstore : Bounded size store := (hkept.host heap rounds).run hserver hrun
  have hwithin := hstore.within size hstore.limited
  refine ⟨hwithin, hstore.nonempty, fun now => ?_⟩
  change (buildStats (retainUnexpired store.entries now) store.config).estimatedMemoryBytes ≤ _
  rw [buildStats_estimatedMemoryBytes]
  exact Nat.le_trans (retainUnexpired_le store.entries now) hwithin

/-- A log of two writes under a limit that holds one of them. -/
def loggedWrites : Bytes :=
  [commandFrame "SET" [utf8 "a", [1]], commandFrame "SET" [utf8 "b", [2]]].flatMap writeFrame

/-- Clients that write one more key. -/
def thirdWrite : Bool → Bytes := fun _ => writeFrame (commandFrame "SET" [utf8 "c", [3]])

/-- The log is replayed, a sweep comes, and a third write is served. -/
def thirdEvents : List (HostEvent Bool SocketAction) :=
  [.client true (.arrive 100), .cleanup 1, .client true .read, .client true (.turn .record)]

theorem started_within_limit_logged :
    ∃ server host, startup .unlimited (fun _ => .at 0 0) ⟨some 80, .allKeysRandom⟩
        (some (some loggedWrites)) = .ok server ∧
      run (Host.step fun _ => socketRules .unlimited fun _ => ⟨.at 1 0, .written, true⟩)
        thirdEvents (.accepted server thirdWrite) = some host ∧
      estimatedMemoryBytes host.server.store.entries ≤ 80 ∧
      ∀ now, (host.server.store.stats now).1.estimatedMemoryBytes ≤ 80 := by
  have hoptions : storeConfig (some " 80 B") (some "AllKeys-Random") =
      .ok ⟨some 80, .allKeysRandom⟩ := by
    decide +kernel
  have hfinished : ((startup .unlimited (fun _ => .at 0 0) ⟨some 80, .allKeysRandom⟩
      (some (some loggedWrites))).toOption.bind fun server =>
        run (Host.step fun _ => socketRules .unlimited fun _ => ⟨.at 1 0, .written, true⟩)
          thirdEvents (.accepted server thirdWrite)).isSome = true := by
    decide +kernel
  obtain ⟨host, hhost⟩ := Option.isSome_iff_exists.mp hfinished
  obtain ⟨server, hserver, hrun⟩ := Option.bind_eq_some_iff.mp hhost
  have hstart : startup .unlimited (fun _ => .at 0 0) ⟨some 80, .allKeysRandom⟩
      (some (some loggedWrites)) = .ok server := by
    cases hstartup : startup .unlimited (fun _ => .at 0 0) ⟨some 80, .allKeysRandom⟩
        (some (some loggedWrites)) with
    | error error =>
      rw [hstartup] at hserver
      cases hserver
    | ok other =>
      rw [hstartup] at hserver
      cases hserver
      rfl
  obtain ⟨size, hlimit, -, hall⟩ := @started_within_limit _ _ _ hoptions Bool _
  obtain rfl := Option.some.inj hlimit
  obtain ⟨hentries, -, hreports⟩ := hall _ _ _ server hstart _ _ _ host hrun
  exact ⟨server, host, hstart, hrun, hentries, hreports⟩

end AerugoCache.Concurrent
