import AerugoCache.ClientView
import AerugoCache.ExpiredWeight
import AerugoCache.KeyCounts
import AerugoCache.ReportTotals

/-!
# What the dashboard shows

The dashboard is a client like any other: it asks for the statistics and then for the rows,
while the other clients go on.  Both replies arrive whole and are read back, so it shows the
store as it was when the server came to the first request, and as it was when it came to
the second.
-/

namespace AerugoCache.Dashboard

open AerugoCache.ByteText AerugoCache.KeyedMap AerugoCache.Protocol AerugoCache.Storage
  AerugoCache.Commands AerugoCache.TextLines AerugoCache.Client AerugoCache.Server

/-! ### The size of a report -/

/-- A store on a machine: it fits the address space, and its figures are values of their
    types, also once the expired entries are counted. -/
structure Sized (store : MemoryStore) : Prop where
  memory : Storage.estimatedMemoryBytes store.entries < 2 ^ 63
  limit : ∀ limit ∈ store.config.maxMemoryBytes, limit < 2 ^ 64
  expired : store.counters.expiredKeysCleaned + size store.entries < 2 ^ 64
  evicted : store.counters.evictedKeys < 2 ^ 64
  rejected : store.counters.rejectedWrites < 2 ^ 64

theorem sized_iff {store : MemoryStore} : Sized store ↔
    Storage.estimatedMemoryBytes store.entries < 2 ^ 63 ∧
      (∀ limit ∈ store.config.maxMemoryBytes, limit < 2 ^ 64) ∧
      store.counters.expiredKeysCleaned + size store.entries < 2 ^ 64 ∧
      store.counters.evictedKeys < 2 ^ 64 ∧ store.counters.rejectedWrites < 2 ^ 64 :=
  ⟨fun ⟨hmemory, hlimit, hexpired, hevicted, hrejected⟩ =>
    ⟨hmemory, hlimit, hexpired, hevicted, hrejected⟩,
    fun ⟨hmemory, hlimit, hexpired, hevicted, hrejected⟩ =>
      ⟨hmemory, hlimit, hexpired, hevicted, hrejected⟩⟩

instance (store : MemoryStore) : Decidable (Sized store) := decidable_of_iff' _ sized_iff

theorem buildStats_expiringKeys_le (entries : Entries) (config : StoreConfig) :
    (buildStats entries config).expiringKeys ≤ size entries := by
  have hadd : ∀ (stats : StoreStats) (key : String) (entry : Entry),
      (stats.add key entry).expiringKeys = entry.expiresAt.toList.length + stats.expiringKeys := by
    intro stats key entry
    rcases entry with ⟨_ | _, _ | _⟩ <;> simp [StoreStats.add, Nat.add_comm]
  have hsum : (buildStats entries config).expiringKeys =
      weigh (fun _ entry => entry.expiresAt.toList.length) entries :=
    foldl_add StoreStats.expiringKeys hadd _ _
  have hone : ∀ (key : String) (entry : Entry), entry.expiresAt.toList.length ≤ 1 := by
    intro key entry
    rcases entry with ⟨_, _ | _⟩ <;> simp
  have hle := weigh_mono hone entries
  rw [weigh_const, Nat.one_mul] at hle
  rw [hsum]
  exact hle

theorem foldl_add_maxMemoryBytes (s : Multiset ((_ : String) × Entry)) (stats : StoreStats) :
    (s.foldl (fun stats s => stats.add s.1 s.2) stats).maxMemoryBytes = stats.maxMemoryBytes := by
  induction s using Multiset.induction_on generalizing stats with
  | empty => rfl
  | cons s rest ih =>
    rw [Multiset.foldl_cons, ih]
    rcases s with ⟨key, ⟨_ | _, _ | _⟩⟩ <;> rfl

theorem stats_maxMemoryBytes (store : MemoryStore) (now : SystemTime) :
    (store.stats now).1.maxMemoryBytes = store.config.maxMemoryBytes :=
  foldl_add_maxMemoryBytes _ _

theorem stats_rejectedWrites (store : MemoryStore) (now : SystemTime) :
    (store.stats now).1.rejectedWrites = store.counters.rejectedWrites := by
  change (MemoryStore.recordExpired _ _).counters.rejectedWrites = _
  rw [MemoryStore.recordExpired_counters]

/-- The report of a store on a machine is made of values of their types. -/
theorem Sized.stats {store : MemoryStore} (h : Sized store) (now : SystemTime) :
    WordSized (store.stats now).1 := by
  obtain ⟨hcounted, htyped, hlimited, hitemised⟩ := store.stats_figures now
  obtain ⟨hcleaned, hevicted⟩ := store.stats_totals now
  have hmemory := Nat.lt_of_le_of_lt (retainUnexpired_le store.entries now) h.memory
  have hexpiring : (store.stats now).1.expiringKeys ≤ size (retainUnexpired store.entries now) :=
    buildStats_expiringKeys_le _ _
  have hexpired := h.expired
  rw [← hlimited] at hmemory
  rw [← hcounted] at hexpiring
  intro figure hfigure
  rcases List.mem_append.mp hfigure with hnumber | hmax
  · simp only [numberFields, List.map_cons, List.map_nil, List.mem_cons, List.not_mem_nil,
      or_false] at hnumber
    rcases hnumber with rfl | rfl | rfl | rfl | rfl | rfl | rfl | rfl | rfl | rfl | rfl
    case inr.inr.inr.inr.inr.inr.inr.inr.inr.inl =>
      rw [hevicted]
      exact h.evicted
    case inr.inr.inr.inr.inr.inr.inr.inr.inr.inr =>
      rw [stats_rejectedWrites]
      exact h.rejected
    all_goals omega
  · rw [stats_maxMemoryBytes, Option.mem_toList] at hmax
    exact h.limit figure hmax

/-- `stats` only adds to the counters. -/
theorem le_stats (store : MemoryStore) (now : SystemTime) :
    store.counters.Le (store.stats now).2.counters := by
  have hsplits := StoreOp.stats.splits (.at now) store
  have hcounters : (store.stats now).2.counters =
      store.counters + (StoreOp.stats.locked (.at now) store.config store.entries).2.2 :=
    congrArg (fun outcome => outcome.2.counters) hsplits
  rw [hcounters]
  exact (StoreCounters.Le.refl _).add _

/-- The counters of a report are those of a machine if the ones it may show are. -/
theorem Sized.shown {store : MemoryStore} {counters total : StoreCounters}
    (h : Sized (store.withCounters total)) (now : SystemTime)
    (hle : ((store.withCounters counters).stats now).2.counters.Le total) :
    Sized (store.withCounters counters) := by
  have hlater := le_stats (store.withCounters counters) now
  refine ⟨h.memory, h.limit, ?_, ?_, ?_⟩
  · exact Nat.lt_of_le_of_lt (Nat.add_le_add_right (hlater.trans hle).expired _) h.expired
  · exact Nat.lt_of_le_of_lt (hlater.trans hle).evicted h.evicted
  · exact Nat.lt_of_le_of_lt (hlater.trans hle).rejected h.rejected

/-- No row is larger than the store. -/
theorem Sized.rows {store : MemoryStore} (h : Sized store) {order : KeyOrder} {now : SystemTime}
    {limit : Nat} {row : KeyInspection} (hrow : row ∈ (store.inspectKeys order now limit).1) :
    Measured row ∧ row.key.utf8ByteSize < 2 ^ 63 ∧ row.valueType.utf8ByteSize < 2 ^ 63 := by
  obtain ⟨entry, hentry, heq⟩ := (store.inspectKeys_first order now limit).shown row hrow
  have hweight := le_weigh entryEstimatedMemoryBytes (visible_eq_some.mp hentry).1
  have hsum := entryEstimatedMemoryBytes_eq row.key entry
  have hmemory := h.memory
  rw [Storage.estimatedMemoryBytes] at hmemory
  have hpayload : row.payloadBytes = entry.value.payloadBytes := congrArg _ heq
  have hestimated : row.estimatedMemoryBytes = entryEstimatedMemoryBytes row.key entry :=
    congrArg KeyInspection.estimatedMemoryBytes heq
  have hitems : row.listItems = entry.value.listItems := congrArg _ heq
  have htype : row.valueType = entry.value.typeName := congrArg _ heq
  refine ⟨⟨?_, ?_, ?_⟩, ?_, ?_⟩
  · omega
  · omega
  · omega
  · omega
  · have hnames : "string".utf8ByteSize < 2 ^ 63 ∧ "list".utf8ByteSize < 2 ^ 63 := by decide
    rw [htype]
    cases entry.value with
    | string value => exact hnames.1
    | list values => exact hnames.2

theorem held_bulk {text : String} (h : text.utf8ByteSize < 2 ^ 63) :
    (Commands.bulk text).Held .unlimited := by
  refine ⟨?_, rfl⟩
  exact h

theorem Sized.rowsFrame_fits {store : MemoryStore} (h : Sized store) (order : KeyOrder)
    (now : SystemTime) (limit : Nat) :
    (rowsFrame (store.inspectKeys order now limit).1).Fits .unlimited := by
  have hlength := (store.inspectKeys_first order now limit).length
  have htotal : (store.stats now).1.totalKeys < 2 ^ 64 :=
    h.stats now _ (List.mem_append_left _ (by simp [numberFields]))
  intro sub hsub
  rcases Frame.mem_subframes_array.mp hsub with rfl | ⟨item, hitem, hmem⟩
  · refine ⟨?_, rfl⟩
    rw [List.length_map]
    omega
  · obtain ⟨row, hrow, rfl⟩ := List.mem_map.mp hitem
    obtain ⟨-, hkey, htype⟩ := h.rows hrow
    simp only [inspectionToFrame, Commands.bulk, Commands.integer, Frame.subframes, subframesOf,
      List.cons_append, List.nil_append, List.append_nil, List.mem_cons, List.not_mem_nil,
      or_false] at hmem
    rcases hmem with rfl | rfl | rfl | rfl | rfl | rfl | rfl
    · refine ⟨?_, rfl⟩
      simp
    · exact held_bulk hkey
    · exact held_bulk htype
    all_goals exact trivial

theorem length_natText {n : Nat} (h : n < 2 ^ 64) : (toString n).toList.length ≤ 20 := by
  rw [Nat.toString_eq_repr, Nat.toList_repr, Nat.length_toDigits_le_iff (by decide) (by decide)]
  exact Nat.lt_of_lt_of_le h (by decide)

theorem length_writtenFields {stats : StoreStats} (h : WordSized stats) :
    ∀ field ∈ writtenFields stats, (fieldLine field).toList.length ≤ 43 := by
  have hnumbers : ∀ field ∈ numberFields stats, (toString field.2).toList.length ≤ 20 := by
    intro field hfield
    apply length_natText
    exact h field.2 (List.mem_append_left _ (List.mem_map_of_mem hfield))
  have hmax : (maxMemoryText stats.maxMemoryBytes).toList.length ≤ 20 := by
    cases hlimit : stats.maxMemoryBytes with
    | none => decide
    | some bytes =>
      apply length_natText
      exact h bytes (List.mem_append_right _ (by simp [hlimit]))
  have hpolicy : stats.evictionPolicy.asStr.toList.length ≤ 20 := by
    cases stats.evictionPolicy <;> decide
  have hvalues : ∀ field ∈ writtenFields stats, field.2.toList.length ≤ 20 := by
    simp only [numberFields, List.forall_mem_cons] at hnumbers
    simp only [writtenFields, keyspaceFields, memoryFields, counterFields, List.forall_mem_append,
      List.forall_mem_cons, hnumbers, hmax, hpolicy]
    simp
  have hnames : ∀ name ∈ fieldNames, name.toList.length ≤ 22 := by decide
  intro field hfield
  have hname : field.1 ∈ fieldNames := by
    rw [← map_fst_writtenFields stats]
    exact List.mem_map_of_mem hfield
  have hleft := hnames field.1 hname
  have hright := hvalues field hfield
  simp only [fieldLine, String.toList_append, List.length_append, String.toList_singleton,
    List.length_singleton]
  omega

/-- The text of the statistics is short. -/
theorem formatStats_fits {stats : StoreStats} (h : WordSized stats) :
    (Frame.bulk (formatStats stats)).Fits .unlimited := by
  obtain ⟨hrest, hcounters⟩ := List.forall_mem_append.mp (length_writtenFields h)
  obtain ⟨hkeyspace, hmemory⟩ := List.forall_mem_append.mp hrest
  have hlines : ∀ line ∈ statLines stats, line.toList.length ≤ 43 := by
    simp only [statLines, List.cons_append, List.forall_mem_cons, List.forall_mem_append,
      List.forall_mem_map]
    exact ⟨by decide, ⟨hkeyspace, by decide, by decide, hmemory⟩, by decide, by decide, hcounters⟩
  have htext := length_writeLines_le hlines
  have hbytes := length_utf8_le (writeLines (statLines stats))
  have hcount : (statLines stats).length = 18 := rfl
  intro sub hsub
  rw [List.mem_singleton.mp hsub, formatStats_eq]
  refine ⟨?_, rfl⟩
  omega

/-! ### The two commands -/

/-- The frames that `fetch_snapshot` writes. -/
def snapshotFrames (keyLimit : Nat) : List Frame :=
  [requestFrame ["AERUGO.STATS"], requestFrame ["AERUGO.INSPECT", toString keyLimit]]

/-- A reply that the decoder understands is what `command` returns. -/
theorem command_reply {heap : Allocator} {frame : Frame} (hread : frame.Readable)
    (hfits : frame.Fits heap) (args : List String) (rest written : Bytes) :
    (RespClient.mk (writeFrame frame ++ rest) written).command heap args =
      (.ok frame, ⟨rest, written ++ writeFrame (requestFrame args)⟩) := by
  rw [RespClient.command, readFrame_writeFrame hread hfits]
  cases frame with
  | error text => exact absurd (Frame.self_mem_subframes _) (hread.1 text)
  | simple | integer | bulk | null | array => rfl

theorem fetchSnapshot_replies {stats : StoreStats} {rows : List KeyInspection}
    (hstats : WordSized stats) (hrows : ∀ row ∈ rows, Measured row)
    (hfits : (rowsFrame rows).Fits .unlimited) (keyLimit : Nat) :
    fetchSnapshot .unlimited keyLimit
        (.connect ([.bulk (formatStats stats), rowsFrame rows].flatMap writeFrame)) =
      (.ok ⟨.of stats, rows.map KeyRow.of⟩, ⟨[], (snapshotFrames keyLimit).flatMap writeFrame⟩) := by
  have hbulk : (Frame.bulk (formatStats stats)).Readable := Concurrent.readable_bulk _
  have hparsed : parseSnapshot (.bulk (formatStats stats)) (rowsFrame rows) =
      .ok ⟨.of stats, rows.map KeyRow.of⟩ := by
    rw [parseSnapshot, parseStats_formatStats hstats, parseKeys_rowsFrame hrows]
    rfl
  simp only [List.flatMap_cons, List.flatMap_nil]
  rw [fetchSnapshot, RespClient.connect, command_reply hbulk (formatStats_fits hstats)]
  simp only
  rw [command_reply (rowsFrame_readable rows) hfits]
  simp only [hparsed]
  simp only [Except.mapError, snapshotFrames, List.flatMap_cons, List.flatMap_nil,
    List.nil_append, List.append_nil]

theorem requestFrame_eq (name : String) (args : List String) :
    requestFrame (name :: args) = commandFrame name (args.map utf8) := by
  simp only [requestFrame, commandFrame, Commands.bulk, List.map_cons, List.map_map]
  rfl

theorem handleRequest_stats {request : Request} (h : request.frame = requestFrame ["AERUGO.STATS"])
    (state : ServerState) :
    (handleRequest request state).1 =
        .bulk (formatStats (state.store.stats request.env.clock.now).1) ∧
      (handleRequest request state).2.store = (state.store.stats request.env.clock.now).2 := by
  have hcommand : Command.fromFrame request.frame = .ok .aerugoStats := by
    rw [h]
    decide +kernel
  rw [handleRequest_eq, handleFrame, hcommand]
  cases state.aof <;> exact ⟨rfl, rfl⟩

theorem fromFrame_inspect {request : Request} {keyLimit : Nat} (hlimit : keyLimit < 2 ^ 64)
    (h : request.frame = requestFrame ["AERUGO.INSPECT", toString keyLimit]) :
    Command.fromFrame request.frame = .ok (.aerugoInspect keyLimit) := by
  have hparse : Commands.parseUsize (utf8 (toString keyLimit)) = .ok keyLimit := by
    rw [Commands.parseUsize, Commands.bytesToString_utf8]
    simp only [bind, Except.bind, parseUnsigned_toString hlimit, orInvalidInteger]
  have hname : toAsciiUppercase "AERUGO.INSPECT" = "AERUGO.INSPECT" := by decide
  rw [h, requestFrame_eq, fromFrame_commandFrame]
  simp only [List.map_cons, List.map_nil, hname, parseCommand, hparse, bind, Except.bind]
  rfl

theorem inspect_plain {request : Request} {keyLimit : Nat} (hlimit : keyLimit < 2 ^ 64)
    (h : request.frame = requestFrame ["AERUGO.INSPECT", toString keyLimit]) :
    Request.Plain request := by
  intro command hcommand
  rw [fromFrame_inspect hlimit h] at hcommand
  cases hcommand
  rfl

theorem handleRequest_inspect {request : Request} {keyLimit : Nat} (hlimit : keyLimit < 2 ^ 64)
    (h : request.frame = requestFrame ["AERUGO.INSPECT", toString keyLimit]) (state : ServerState) :
    (handleRequest request state).1 =
      rowsFrame (state.store.inspectKeys request.env.order request.env.clock.now keyLimit).1 := by
  rw [handleRequest_eq, handleFrame, fromFrame_inspect hlimit h]
  cases state.aof <;> rfl

/-- At one reading of the clock the statistics leave the rows as they are. -/
theorem inspectKeys_stats (store : MemoryStore) (order : KeyOrder) (now : SystemTime)
    (limit : Nat) :
    ((store.stats now).2.inspectKeys order now limit).1 =
      (store.inspectKeys order now limit).1 := by
  rw [MemoryStore.inspectKeys_eq, MemoryStore.inspectKeys_eq, MemoryStore.sortedRows,
    MemoryStore.sortedRows, MemoryStore.stats_entries, retainUnexpired_later (Int.le_refl now)]

end AerugoCache.Dashboard

namespace AerugoCache.Concurrent

open AerugoCache.ByteText AerugoCache.Protocol AerugoCache.Storage AerugoCache.Commands
  AerugoCache.Server AerugoCache.Client AerugoCache.Dashboard AerugoCache.StepSystem

/-! ### The dashboard among the clients -/

/-- What a connection reads of frames that were written is a beginning of them. -/
theorem Reads.frames {heap : Allocator} {rounds : Nat → Round} {frames : List Frame}
    (hread : ∀ frame ∈ frames, frame.Readable) (hfits : ∀ frame ∈ frames, frame.Fits heap)
    {round : Nat} {requests : List Request} {ending : ConnectionEnd}
    (h : Reads heap rounds round (frames.flatMap writeFrame) requests ending) :
    requests.map Request.frame <+: frames := by
  induction frames generalizing round requests with
  | nil =>
    cases requests with
    | nil => exact List.prefix_rfl
    | cons request requests =>
      obtain ⟨-, -, rest, hframe, -⟩ := h
      rw [List.flatMap_nil, readFrame_nil] at hframe
      cases hframe
  | cons frame frames ih =>
    cases requests with
    | nil => exact List.nil_prefix
    | cons request requests =>
      obtain ⟨-, -, rest, hframe, hrest⟩ := h
      rw [List.flatMap_cons, readFrame_writeFrame (hread frame List.mem_cons_self)
        (hfits frame List.mem_cons_self)] at hframe
      simp only [Except.ok.injEq, Prod.mk.injEq, Option.some.injEq] at hframe
      obtain ⟨rfl, rfl⟩ := hframe
      rw [List.map_cons, List.prefix_cons_inj]
      split at hrest
      · exact ih (fun f hf => hread f (List.mem_cons_of_mem _ hf))
          (fun f hf => hfits f (List.mem_cons_of_mem _ hf)) hrest
      · rw [hrest.1]
        exact List.nil_prefix

section

variable {Id : Type} [Fintype Id] [DecidableEq Id]

omit [Fintype Id] in
/-- Two requests in a row: the second meets what the first has left. -/
theorem met_in_a_row {id : Id} {before after : List (Deed Id)} {first second : Request}
    {server firstMet secondMet : ServerState}
    (h : own id (met (before ++ .request id first :: .request id second :: after) server) =
      [(first, firstMet), (second, secondMet)]) :
    secondMet = (handleRequest first firstMet).2 := by
  rw [met_append, own_append] at h
  have hrow : own id (met (.request id first :: .request id second :: after)
      (performAll before server)) =
      (first, performAll before server) ::
        (second, (handleRequest first (performAll before server)).2) ::
          own id (met after (handleRequest second
            (handleRequest first (performAll before server)).2).2) := by
    simp [met, own]
  rw [hrow] at h
  have hlength := congrArg List.length h
  simp only [List.length_append, List.length_cons, List.length_nil] at hlength
  rw [List.eq_nil_of_length_eq_zero (show (own id (met before server)).length = 0 by omega),
    List.nil_append] at h
  simp only [List.cons.injEq, Prod.mk.injEq, true_and] at h
  rw [← h.1, ← h.2.1]

/-- The replies to two requests, the second of which is no report. -/
theorem answers_pair {total : StoreCounters} {stats inspect : Request}
    {first second : ServerState} {replies : List Frame}
    (h : List.Forall₂ (fun entry => Answers total entry.1 entry.2)
      ([(stats, first), (inspect, second)].take 2) replies)
    (hplain : Request.Plain inspect) :
    ∃ counters,
      (handleRequest stats (withCounters first counters)).2.store.counters.Le total ∧
        replies = [(handleRequest stats (withCounters first counters)).1,
          (handleRequest inspect second).1] := by
  cases h with
  | cons hfirst hrest =>
    cases hrest with
    | cons hsecond hnil =>
      cases hnil
      obtain ⟨-, counters, hle, rfl⟩ := hfirst
      rw [hsecond.plain hplain]
      exact ⟨counters, hle, rfl⟩

theorem snapshotFrames_readable {keyLimit : Nat} {frame : Frame}
    (h : frame ∈ snapshotFrames keyLimit) : frame.Readable := by
  rcases List.mem_pair.mp h with rfl | rfl
  · exact commandFrame_readable _ []
  · rw [requestFrame_eq]
    exact commandFrame_readable _ _

/-- The requests of the dashboard are the two that it wrote, each in its round. -/
theorem Reads.snapshot {heap : Allocator} {rounds : Nat → Round} {keyLimit : Nat}
    (hheap : ∀ frame ∈ snapshotFrames keyLimit, frame.Fits heap) {stats inspect : Request}
    {ending : ConnectionEnd}
    (h : Reads heap rounds 0 ((snapshotFrames keyLimit).flatMap writeFrame) [stats, inspect]
      ending) :
    (stats.frame = requestFrame ["AERUGO.STATS"] ∧ stats.env = (rounds 0).env) ∧
      inspect.frame = requestFrame ["AERUGO.INSPECT", toString keyLimit] ∧
      inspect.env = (rounds 1).env := by
  have hsame := (h.frames (fun _ => snapshotFrames_readable) hheap).eq_of_length rfl
  rw [snapshotFrames, List.map_cons, List.map_cons, List.map_nil, List.cons.injEq,
    List.cons.injEq] at hsame
  exact ⟨⟨hsame.1, (h.rounds (show [stats, inspect][0]? = some stats from rfl)).1⟩, hsame.2.1,
    (h.rounds (show [stats, inspect][1]? = some inspect from rfl)).1⟩

/-- **What the dashboard shows.**  The dashboard writes its two requests on a connection of
    its own, while any other clients send any bytes, and these arrive, are served and are
    swept in any order.  Once it has been sent two replies, both its requests are in the
    history, and it shows what the store was when they came: the rows as the second one met
    it, and the statistics as the first one did, but that the counters may be others, none of
    them ahead of what all requests and sweeps have counted.  If one came right after the
    other, at one reading of the clock, the rows are also those of the first store. -/
theorem dashboard_snapshot {heap : Allocator} {rounds : Id → Nat → Round} {server : ServerState}
    {streams : Id → Bytes} {requests : Id → List Request} {endings : Id → ConnectionEnd}
    (hreads : ∀ id, Reads heap (rounds id) 0 (streams id) (requests id) (endings id))
    {id : Id} {keyLimit : Nat} (hlimit : keyLimit < 2 ^ 64)
    (hheap : ∀ frame ∈ snapshotFrames keyLimit, frame.Fits heap)
    (hstream : streams id = (snapshotFrames keyLimit).flatMap writeFrame)
    {events : List (HostEvent Id SocketAction)} {host : Host Id SocketTask}
    (hrun : run (Host.step fun id => socketRules heap (rounds id)) events
      (.accepted server streams) = some host)
    (hround : (host.connections id).round = 2) :
    let history := Host.history (fun id => socketRules heap (rounds id)) events
      (Host.accepted server streams)
    let total := (performAll history server).store.counters
    let clock := fun round => (rounds id round).env.clock.now
    ∃ (stats inspect : Request) (first second : ServerState),
      requests id = [stats, inspect] ∧
      own id (met history server) = [(stats, first), (inspect, second)] ∧
      (Sized (first.store.withCounters total) → Sized second.store →
        ∃ counters, ((first.store.withCounters counters).stats (clock 0)).2.counters.Le total ∧
          fetchSnapshot .unlimited keyLimit (.connect (host.connections id).written) =
            (.ok ⟨.of ((first.store.withCounters counters).stats (clock 0)).1,
              (second.store.inspectKeys (rounds id 1).env.order (clock 1)
                keyLimit).1.map KeyRow.of⟩,
            ⟨[], streams id⟩)) ∧
      ∀ before after, history = before ++ .request id stats :: .request id inspect :: after →
        clock 1 = clock 0 → ∀ order,
          (second.store.inspectKeys order (clock 1) keyLimit).1 =
            (first.store.inspectKeys order (clock 0) keyLimit).1 := by
  intro history total clock
  obtain ⟨abstract, hfollows, haccounts⟩ := Host.accounted hreads hrun
  have hsocket := hfollows.sockets id
  have htwo : (abstract.connections id).replies.length = 2 := hsocket.round.symm.trans hround
  -- the two replies are those to the two requests that it wrote
  have hpair := hreads id
  rw [hstream] at hpair
  have hshort : (requests id).length ≤ 2 := by
    have hle := (hpair.frames (fun _ => snapshotFrames_readable) hheap).length_le
    rwa [List.length_map] at hle
  obtain ⟨hreplies, hlength⟩ : List.Forall₂ (fun entry => Answers total entry.1 entry.2)
      ((own id (met history server)).take _) _ ∧ (own id (met history server)).length = _ :=
    (haccounts.told id).replied
  rw [htwo] at hreplies hlength
  have horder : (own id (met history server)).map Prod.fst ++ _ = requests id :=
    haccounts.order id
  have hcount := congrArg List.length horder
  rw [List.length_append, List.length_map] at hcount
  obtain ⟨⟨stats, first⟩, ⟨inspect, second⟩, hown⟩ : ∃ firstEntry secondEntry,
      own id (met history server) = [firstEntry, secondEntry] :=
    List.length_eq_two.mp (by omega)
  have hnone : (abstract.connections id).requests = [] :=
    List.eq_nil_of_length_eq_zero (by omega)
  rw [hown, hnone, List.append_nil] at horder
  rw [← horder] at hpair
  obtain ⟨⟨hstats, henv⟩, hinspect, henv'⟩ := hpair.snapshot hheap
  refine ⟨stats, inspect, first, second, horder.symm, hown, fun hfirst hsecond => ?_, ?_⟩
  · have hphase : (abstract.connections id).phase = .reading := by
      by_contra hbusy
      rw [hown, if_neg hbusy] at hlength
      cases hlength
    obtain ⟨hsent, hwritten⟩ := hsocket.written abstract.server.aof
    rw [hphase, Phase.reply, Option.toList_none, List.append_nil] at hwritten
    have hall : (host.connections id).written =
        (abstract.connections id).replies.flatMap writeFrame :=
      hwritten.eq_of_length (Nat.le_antisymm hwritten.length_le hsent.length_le)
    rw [hown] at hreplies
    generalize (abstract.connections id).replies = replies at hreplies hall
    obtain ⟨counters, hle, hreplied⟩ :=
      answers_pair hreplies (inspect_plain hlimit hinspect)
    have hreport := handleRequest_stats hstats (withCounters first counters)
    rw [henv] at hreport
    rw [hreport.2] at hle
    refine ⟨counters, hle, ?_⟩
    rw [hall, hreplied, hreport.1, handleRequest_inspect hlimit hinspect, henv', hstream]
    exact fetchSnapshot_replies ((hfirst.shown _ hle).stats _)
      (fun row hrow => (hsecond.rows hrow).1) (hsecond.rowsFrame_fits _ _ _) keyLimit
  · intro before after hrow hclock order
    have hmeets := met_in_a_row (hrow ▸ hown)
    have hreport := (handleRequest_stats hstats first).2
    rw [henv, ← hmeets] at hreport
    rw [hreport, hclock]
    exact inspectKeys_stats first.store order (clock 0) keyLimit

end

/-- The dashboard, and the client whose key expires. -/
def dashboardStreams : Bool → Bytes
  | true => lapseStreams true
  | false => (snapshotFrames 5).flatMap writeFrame

def dashboardRequests : Bool → List Request
  | true => lapseRequests true
  | false => [clientRequest "AERUGO.STATS" [] (.at 20000000000 0),
      clientRequest "AERUGO.INSPECT" [utf8 "5"] (.at 20000000000 0)]

theorem dashboardRequests_read (id : Bool) :
    Reads .unlimited (lapseRounds id) 0 (dashboardStreams id) (dashboardRequests id) .closed := by
  cases id with
  | true => exact lapseRequests_read true
  | false =>
    refine ⟨rfl, rfl, _, rfl, rfl, rfl, _, rfl, ?_⟩
    exact Or.inl ⟨_, rfl, rfl⟩

/-- The key is swept before the dashboard asks, and counted when it has read the counters. -/
def dashboardEvents : List (HostEvent Bool SocketAction) := [
  .client true (.arrive 100), .client true .read, .client true (.turn .append),
  .client true (.reply 0), .client true .read, .client true (.turn .append),
  .client false (.arrive 50), .cleanup 20000000000, .client false .read,
  .client false (.turn .report), .record, .client false (.turn .append),
  .client false (.reply 0), .client false (.arrive 50), .client false .read,
  .client true (.reply 0), .client false (.turn .append), .client false (.reply 0)]

theorem dashboard_snapshot_lapse :
    ∃ host, run (Host.step fun id => socketRules .unlimited (lapseRounds id)) dashboardEvents
        (.accepted (.initial .default) dashboardStreams) = some host ∧
      ∃ (stats inspect : Request) (first second : ServerState) (counters : StoreCounters),
        dashboardRequests false = [stats, inspect] ∧
        own false (met (Host.history (fun id => socketRules .unlimited (lapseRounds id))
          dashboardEvents (Host.accepted (.initial .default) dashboardStreams))
            (.initial .default)) = [(stats, first), (inspect, second)] ∧
        ((first.store.withCounters counters).stats 20000000000).2.counters.Le ⟨1, 0, 0⟩ ∧
        fetchSnapshot .unlimited 5 (.connect (host.connections false).written) =
          (.ok ⟨.of ((first.store.withCounters counters).stats 20000000000).1,
            (second.store.inspectKeys .ascending 20000000000 5).1.map KeyRow.of⟩,
          ⟨[], dashboardStreams false⟩) := by
  have hfinished : (run (Host.step fun id => socketRules .unlimited (lapseRounds id))
      dashboardEvents (.accepted (.initial .default) dashboardStreams)).map (fun host =>
        (host.connections false).round) = some 2 := by decide +kernel
  obtain ⟨host, hrun, hround⟩ := Option.map_eq_some_iff.mp hfinished
  have hheap : ∀ frame ∈ snapshotFrames 5, frame.Fits .unlimited := by decide +kernel
  have htotal : (performAll (Host.history (fun id => socketRules .unlimited (lapseRounds id))
      dashboardEvents (Host.accepted (.initial .default) dashboardStreams))
        (.initial .default)).store.counters = ⟨1, 0, 0⟩ := by decide +kernel
  have hsized : ∀ entry ∈ own false (met (Host.history
      (fun id => socketRules .unlimited (lapseRounds id)) dashboardEvents
        (Host.accepted (.initial .default) dashboardStreams)) (.initial .default)),
      Sized (entry.2.store.withCounters ⟨1, 0, 0⟩) ∧ Sized entry.2.store := by decide +kernel
  obtain ⟨stats, inspect, first, second, hrequests, hown, hshown, -⟩ :=
    dashboard_snapshot dashboardRequests_read (by decide) hheap rfl hrun hround
  rw [hown] at hsized
  rw [htotal] at hshown
  obtain ⟨counters, hle, hfetched⟩ :=
    hshown (hsized _ List.mem_cons_self).1 (hsized (inspect, second) (by simp)).2
  exact ⟨host, hrun, stats, inspect, first, second, counters, hrequests, hown, hle, hfetched⟩

end AerugoCache.Concurrent
