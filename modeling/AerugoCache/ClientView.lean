import AerugoCache.ClientErrors
import AerugoCache.DashboardCodec
import AerugoCache.ReplyWire
import AerugoCache.SocketTasks

/-!
# What the clients see

A client decodes the bytes it gets with the decoder of the server.  A reply arrives as
itself, except an error, which the decoder takes for an inline request.  So whatever part
of its replies has arrived, a client has read a beginning of the replies that its own
requests have in the one order of all requests: none is lost, doubled, reordered or
another client's.
-/

namespace AerugoCache.Concurrent

open AerugoCache.ByteText AerugoCache.ByteReader AerugoCache.Protocol AerugoCache.RespReply
  AerugoCache.Storage AerugoCache.Commands AerugoCache.Persistence AerugoCache.Server
  AerugoCache.Client AerugoCache.Dashboard AerugoCache.StepSystem

/-! ### One reply -/

/-- What `read_frame` makes of a reply. -/
def arrival : Frame → Frame
  | .error text => parseInlineCommand (ascii '-' :: utf8 text)
  | frame => frame

/-- A frame that arrives as one frame: one that the decoder understands, or an error of
    one line. -/
def Deliverable (frame : Frame) : Prop :=
  frame.Readable ∨ ∃ text, frame = .error text ∧ OneLine (utf8 text)

theorem readFrame_deliverable {heap : Allocator} {frame : Frame} (h : Deliverable frame)
    (hfits : frame.Fits heap) (rest : Bytes) :
    readFrame heap (writeFrame frame ++ rest) = .ok (some (arrival frame), rest) := by
  rcases h with hread | ⟨text, rfl, -, hline⟩
  · rw [readFrame_writeFrame hread hfits]
    cases frame with
    | error text => exact absurd (Frame.self_mem_subframes _) (hread.1 text)
    | simple | integer | bulk | null | array => rfl
  · have hnewline : '\n' ∉ text.toList := fun hmem => hline ((mem_utf8_ascii (by decide)).mpr hmem)
    rw [writeFrame_error, readFrame, readFrameFuel_headerLine heap _ (by decide) hnewline]
    rfl

theorem headerLine_ends (kind : Char) (text : String) :
    headerLine kind text = ascii kind :: (utf8 text ++ [ascii '\r']) ++ [ascii '\n'] := by
  simp [headerLine, crlf]

theorem writeFrame_ends (frame : Frame) : ∃ text, writeFrame frame = text ++ [ascii '\n'] := by
  induction frame using Frame.induction with
  | simple value => exact ⟨_, (writeFrame_simple value).trans (headerLine_ends _ _)⟩
  | error value => exact ⟨_, (writeFrame_error value).trans (headerLine_ends _ _)⟩
  | integer value => exact ⟨_, (writeFrame_integer value).trans (headerLine_ends _ _)⟩
  | bulk value =>
    refine ⟨headerLine '$' (toString value.length) ++ (value ++ [ascii '\r']), ?_⟩
    simp [writeFrame_bulk, crlf]
  | null => exact ⟨_, writeFrame_null.trans (headerLine_ends _ _)⟩
  | array items ih =>
    rw [writeFrame_array]
    rcases List.eq_nil_or_concat items with rfl | ⟨others, item, rfl⟩
    · exact ⟨_, (List.append_nil _).trans (headerLine_ends _ _)⟩
    · obtain ⟨text, htext⟩ := ih item (by simp)
      refine ⟨headerLine '*' (toString (others ++ [item]).length) ++
        (others.flatMap writeFrame ++ text), ?_⟩
      simp [htext]

/-- A reply is there once all of it has arrived, and not before. -/
theorem pollFrame_deliverable {heap : Allocator} {frame : Frame} (h : Deliverable frame)
    (hfits : frame.Fits heap) (rest : Bytes) :
    pollFrame heap false (writeFrame frame ++ rest) = some (.ok (some (arrival frame), rest)) := by
  obtain ⟨text, htext⟩ := writeFrame_ends frame
  refine pollFrame_some_iff.mpr ⟨readFrame_deliverable h hfits rest, text, ?_⟩
  rw [htext, List.append_assoc, List.singleton_append]

theorem pollFrame_partial {heap : Allocator} {frame : Frame} (h : Deliverable frame)
    (hfits : frame.Fits heap) {piece : Bytes} (hpiece : piece <+: writeFrame frame)
    (hshort : piece.length < (writeFrame frame).length) : pollFrame heap false piece = none := by
  obtain ⟨missing, hwhole⟩ := hpiece
  rcases hpoll : pollFrame heap false piece with _ | result
  · rfl
  · have hlater := readFrame_of_pollFrame hpoll missing
    have hread := readFrame_deliverable h hfits []
    rw [List.append_nil, ← hwhole, hlater] at hread
    rcases result with error | ⟨found, rest⟩
    · cases hread
    · simp only [followedBy, Except.map, Except.ok.injEq, Prod.mk.injEq] at hread
      obtain ⟨-, hnil⟩ := hread
      rw [(List.append_eq_nil_iff.mp hnil).2, List.append_nil] at hwhole
      rw [hwhole] at hshort
      exact absurd hshort (Nat.lt_irrefl _)

/-! ### A stream of replies -/

/-- The frames that a reader has got from the bytes that have arrived. -/
def pollFrames (heap : Allocator) : Nat → Bytes → List Frame
  | 0, _ => []
  | fuel + 1, buffer =>
      match pollFrame heap false buffer with
      | some (.ok (some frame, rest)) => frame :: pollFrames heap fuel rest
      | _ => []

/-- Every frame takes a byte, so the bytes that have arrived bound the frames. -/
def received (heap : Allocator) (buffer : Bytes) : List Frame :=
  pollFrames heap buffer.length buffer

theorem pollFrames_nil (heap : Allocator) (fuel : Nat) : pollFrames heap fuel [] = [] := by
  cases fuel with
  | zero => rfl
  | succ fuel => rfl

/-- A beginning of two pieces ends in the first or goes into the second. -/
theorem prefix_append_cases {arrived first second : Bytes} (h : arrived <+: first ++ second) :
    (arrived <+: first ∧ arrived.length < first.length) ∨
      ∃ rest, arrived = first ++ rest ∧ rest <+: second := by
  obtain ⟨missing, hwhole⟩ := h
  rcases List.append_eq_append_iff.mp hwhole with ⟨cut, rfl, hsecond⟩ | ⟨rest, rfl, rfl⟩
  · cases cut with
    | nil => exact Or.inr ⟨[], by simp, List.nil_prefix⟩
    | cons byte cut => exact Or.inl ⟨List.prefix_append _ _, by simp⟩
  · exact Or.inr ⟨rest, rfl, List.prefix_append _ _⟩

/-- From a beginning of the bytes of some replies a reader gets a beginning of them, all
    that have arrived whole. -/
theorem pollFrames_deliverable {heap : Allocator} {replies : List Frame}
    (h : ∀ reply ∈ replies, Deliverable reply) (hfits : ∀ reply ∈ replies, reply.Fits heap)
    {arrived : Bytes} (harrived : arrived <+: replies.flatMap writeFrame) {fuel : Nat}
    (hfuel : arrived.length ≤ fuel) :
    ∃ count, pollFrames heap fuel arrived = (replies.map arrival).take count ∧
      ∀ whole ≤ replies.length, (replies.take whole).flatMap writeFrame <+: arrived →
        whole ≤ count := by
  induction replies generalizing arrived fuel with
  | nil =>
    obtain rfl := List.prefix_nil.mp harrived
    exact ⟨0, pollFrames_nil heap fuel, fun whole hwhole _ => hwhole⟩
  | cons reply replies ih =>
    have hreply := h reply List.mem_cons_self
    have hfit := hfits reply List.mem_cons_self
    rw [List.flatMap_cons] at harrived
    rcases prefix_append_cases harrived with ⟨hpiece, hshort⟩ | ⟨rest, rfl, hrest⟩
    · refine ⟨0, ?_, ?_⟩
      · cases fuel with
        | zero => rfl
        | succ fuel =>
          rw [pollFrames, pollFrame_partial hreply hfit hpiece hshort]
          rfl
      · intro whole _ hwhole
        cases whole with
        | zero => exact Nat.le_refl 0
        | succ whole =>
          have hlength := hwhole.length_le
          rw [List.take_succ_cons, List.flatMap_cons, List.length_append] at hlength
          omega
    · obtain ⟨text, htext⟩ := writeFrame_ends reply
      have hlength : (writeFrame reply).length = text.length + 1 := by
        rw [htext, List.length_append, List.length_singleton]
      rw [List.length_append] at hfuel
      obtain ⟨fuel, rfl⟩ : ∃ n, fuel = n + 1 := ⟨fuel - 1, by omega⟩
      have hfuel' : rest.length ≤ fuel := by omega
      obtain ⟨count, hcount, hall⟩ := ih (fun r hr => h r (List.mem_cons_of_mem _ hr))
        (fun r hr => hfits r (List.mem_cons_of_mem _ hr)) hrest hfuel'
      refine ⟨count + 1, ?_, ?_⟩
      · rw [pollFrames, pollFrame_deliverable hreply hfit rest]
        simp only [hcount, List.map_cons, List.take_succ_cons]
      · intro whole hle hwhole
        cases whole with
        | zero => exact Nat.zero_le _
        | succ whole =>
          rw [List.take_succ_cons, List.flatMap_cons, List.prefix_append_right_inj] at hwhole
          exact Nat.succ_le_succ (hall whole (Nat.le_of_succ_le_succ hle) hwhole)

/-! ### The replies of the server -/

theorem readable_leaf {frame : Frame} (hleaf : frame.subframes = [frame])
    (herror : ∀ text, frame ≠ .error text) (hsimple : ∀ text, frame = .simple text →
      '\n' ∉ text.toList) : frame.Readable := by
  constructor
  · intro text hmem
    rw [hleaf, List.mem_singleton] at hmem
    exact herror text hmem.symm
  · intro text hmem
    rw [hleaf, List.mem_singleton] at hmem
    exact hsimple text hmem.symm

theorem readable_bulkOrNull (value : Option Bytes) : (bulkOrNull value).Readable := by
  cases value with
  | none => exact readable_leaf rfl nofun nofun
  | some value => exact readable_leaf rfl nofun nofun

theorem readable_ok (text : String) (h : '\n' ∉ text.toList) : (Frame.simple text).Readable :=
  readable_leaf rfl nofun fun _ heq => Frame.simple.inj heq ▸ h

theorem readable_integer (value : Int64) : (Frame.integer value).Readable :=
  readable_leaf rfl nofun nofun

theorem readable_bulk (value : Bytes) : (Frame.bulk value).Readable :=
  readable_leaf rfl nofun nofun

/-- The decoder understands every reply that is not an error. -/
theorem execute_readable {command : Command} {env : Env} {store : MemoryStore} {response : Frame}
    (h : (command.execute env store).1 = .ok response) : response.Readable := by
  cases command with
  | ping value =>
    cases value with
    | none =>
      cases Except.ok.inj h
      exact readable_ok _ (by decide)
    | some value =>
      cases Except.ok.inj h
      exact readable_bulk value
  | echo value =>
    cases Except.ok.inj h
    exact readable_bulk value
  | set key value =>
    obtain ⟨value, rfl⟩ := reply_eq_ok h
    exact readable_ok _ (by decide)
  | get | lpop | rpop =>
    obtain ⟨value, rfl⟩ := reply_eq_ok h
    exact readable_bulkOrNull value
  | lpush | rpush =>
    obtain ⟨value, rfl⟩ := reply_eq_ok h
    exact readable_integer _
  | lrange key start stop =>
    obtain ⟨values, rfl⟩ := reply_eq_ok h
    exact bulks_readable values
  | info | aerugoStats =>
    cases Except.ok.inj h
    exact readable_bulk _
  | aerugoInspect limit =>
    cases Except.ok.inj h
    exact rowsFrame_readable _
  | _ =>
    cases Except.ok.inj h
    exact readable_integer _

theorem deliverable_errorFrame {error : CommandError} (h : LineSafe (Command.errorFrame error)) :
    Deliverable (Command.errorFrame error) := by
  obtain ⟨text, htext⟩ := exists_errorFrame error
  rw [htext] at h ⊢
  exact Or.inr ⟨text, rfl, lineSafe_error.mp h⟩

/-- Every reply arrives as one frame, unless the request is a command whose name holds a
    line break. -/
theorem handleRequest_deliverable {request : Request} (h : ¬ NameBreaksLine request.frame)
    (state : ServerState) : Deliverable (handleRequest request state).1 := by
  rcases handleRequest_response request state with
    ⟨command, -, hreply | hreply⟩ | ⟨error, herror, hreply⟩
  · have hsafe := lineSafe_execute command request.env state.store
    rw [hreply]
    rcases hresult : (command.execute request.env state.store).1 with error | response
    · rw [hresult] at hsafe
      exact deliverable_errorFrame hsafe
    · exact Or.inl (execute_readable hresult)
  · rw [hreply]
    exact Or.inr ⟨_, rfl, by decide⟩
  · rw [hreply]
    apply deliverable_errorFrame
    rw [lineSafe_errorFrame]
    rcases fromFrame_error herror with hline | ⟨name, args, hframe, rfl⟩
    · exact hline
    · rw [oneLine_unknown, oneLine_toAsciiUppercase]
      by_contra hbreak
      exact h ⟨name, args, hframe, hbreak⟩

/-- So does a reply whose report shows other counters. -/
theorem Answers.deliverable {total : StoreCounters} {request : Request} {state : ServerState}
    {reply : Frame} (h : Answers total request state reply)
    (hname : ¬ NameBreaksLine request.frame) : Deliverable reply := by
  obtain ⟨-, counters, -, rfl⟩ := h
  exact handleRequest_deliverable hname _

/-! ### From the bytes of the clients to what they read -/

/-- What is written to a client is a beginning of the bytes of its replies, the one that is
    ready included, and holds those that were sent. -/
theorem SocketTask.Follows.written {heap : Allocator} {rounds : Nat → Round}
    {ending : ConnectionEnd} {socket : SocketTask} {client : ClientTask}
    (h : socket.Follows heap rounds ending client) (logging : Option Bytes) :
    client.replies.flatMap writeFrame <+: socket.written ∧
      socket.written <+:
        (client.replies ++ (client.phase.reply logging).toList).flatMap writeFrame := by
  have hserves := h.serves
  rw [List.flatMap_append]
  rw [SocketTask.Serves] at hserves
  split at hserves
  · rw [hserves.2.1]
    exact ⟨List.prefix_rfl, List.prefix_append _ _⟩
  · obtain ⟨-, -, response, cut, hphase, hwritten⟩ := hserves
    rw [hwritten, hphase, Phase.reply, Option.toList_some, List.flatMap_singleton]
    exact ⟨List.prefix_append _ _, (List.prefix_append_right_inj _).mpr (List.take_prefix _ _)⟩
  · rw [hserves.2.2.2]
    exact ⟨List.prefix_rfl, List.prefix_append _ _⟩

theorem exists_of_forall₂ {α β : Type} {R : α → β → Prop} {values : List α} {others : List β}
    (h : List.Forall₂ R values others) {other : β} (hmem : other ∈ others) :
    ∃ value ∈ values, R value other := by
  induction h with
  | nil => cases hmem
  | cons hfirst hrest ih =>
    rcases List.mem_cons.mp hmem with rfl | hmem
    · exact ⟨_, List.mem_cons_self, hfirst⟩
    · obtain ⟨value, hvalue, hrelated⟩ := ih hmem
      exact ⟨value, List.mem_cons_of_mem _ hvalue, hrelated⟩

section

variable {Id : Type} [Fintype Id] [DecidableEq Id]

/-- **From bytes to bytes.**  The clients' streams fix their requests.  In every state that
    the server can reach, the requests and the sweeps in the order in which they take the
    entries are a history, and the entries are what one client leaves that sends the requests
    in this order, with the sweeps in between; no counter is ahead of that client's.  The
    history holds every client's own first requests in their order, and what is done later
    comes after.  The bytes written to a client are those of the replies that its requests
    get in the history, as many as were sent and perhaps a part of one more; only the report
    of `INFO` or `AERUGO.STATS` may show counters that lag.  What the client has decoded of
    the bytes that have arrived is a beginning of these replies, and all that were sent once
    all bytes have arrived.  Names with a line break, and replies too large for a frame, are
    left out of what is decoded. -/
theorem network_delivers (heap : Allocator) (rounds : Id → Nat → Round) (server : ServerState)
    (streams : Id → Bytes) (hlength : ∀ id, (streams id).length < 2 ^ 63) :
    (∃ (requests : Id → List Request) (endings : Id → ConnectionEnd), ∀ id,
        Reads heap (rounds id) 0 (streams id) (requests id) (endings id)) ∧
      ∀ (requests : Id → List Request) (endings : Id → ConnectionEnd),
        (∀ id, Reads heap (rounds id) 0 (streams id) (requests id) (endings id)) →
        ∀ events host,
          run (Host.step fun id => socketRules heap (rounds id)) events
            (.accepted server streams) = some host →
          let history := fun events =>
            Host.history (fun id => socketRules heap (rounds id)) events
              (Host.accepted server streams)
          let last := performAll (history events) server
          host.server.store.entries = last.store.entries ∧
            host.server.store.counters.Le last.store.counters ∧
            (∀ before after, events = before ++ after → history before <+: history events) ∧
            ∀ id,
              let entries := own id (met (history events) server)
              let socket := host.connections id
              entries.map Prod.fst <+: requests id ∧
                entries.length ≤ socket.round + 1 ∧
                ∃ replies, List.Forall₂ (fun entry => Answers last.store.counters entry.1 entry.2)
                    (entries.take replies.length) replies ∧
                  socket.round ≤ replies.length ∧
                  (replies.take socket.round).flatMap writeFrame <+: socket.written ∧
                  socket.written <+: replies.flatMap writeFrame ∧
                  ((∀ request ∈ requests id, ¬ NameBreaksLine request.frame) →
                    (∀ entry ∈ entries, ∀ reply,
                      Answers last.store.counters entry.1 entry.2 reply →
                        reply.Fits .unlimited) →
                    ∀ arrived, arrived <+: socket.written →
                    ∃ count, received .unlimited arrived = (replies.map arrival).take count ∧
                      (arrived = socket.written → socket.round ≤ count)) := by
  choose requests endings hreads using fun id => exists_reads heap (rounds id) 0 (hlength id)
  refine ⟨⟨requests, endings, hreads⟩, ?_⟩
  clear hreads requests endings
  intro requests endings hreads events host hrun history last
  obtain ⟨abstract, hfollows, haccounts⟩ := Host.accounted hreads hrun
  refine ⟨?_, ?_, ?_, fun id => ?_⟩
  · rw [hfollows.server]
    exact haccounts.entries
  · have hcounters : _ = last.store.counters := haccounts.counters
    rw [hfollows.server, ← hcounters]
    exact (StoreCounters.Le.refl _).add _
  · rintro before after rfl
    exact Host.history_begins _ _ _ _
  · intro entries socket
    have hsocket := hfollows.sockets id
    have hround : socket.round = (abstract.connections id).replies.length := hsocket.round
    have htold := haccounts.told id
    obtain ⟨hsent, hwritten⟩ := hsocket.written abstract.server.aof
    have hready := htold.ready
    refine ⟨⟨_, haccounts.order id⟩, ?_, _, hready, ?_, ?_, hwritten, ?_⟩
    · rw [hround]
      have hcount : entries.length = _ := htold.replied.2
      rw [hcount]
      split <;> omega
    · rw [hround, List.length_append]
      exact Nat.le_add_right _ _
    · rw [hround, List.take_left]
      exact hsent
    · intro hnames hfits arrived harrived
      have hanswered : ∀ reply ∈ (abstract.connections id).replies ++
          ((abstract.connections id).phase.reply abstract.server.aof).toList,
          ∃ entry ∈ entries, Answers last.store.counters entry.1 entry.2 reply := by
        intro reply hreply
        obtain ⟨entry, hentry, hanswers⟩ := exists_of_forall₂ hready hreply
        exact ⟨entry, List.mem_of_mem_take hentry, hanswers⟩
      have hdeliverable : ∀ reply ∈ (abstract.connections id).replies ++
          ((abstract.connections id).phase.reply abstract.server.aof).toList,
          Deliverable reply := by
        intro reply hreply
        obtain ⟨entry, hentry, hanswers⟩ := hanswered reply hreply
        refine hanswers.deliverable (hnames entry.1 ?_)
        rw [← haccounts.order id]
        exact List.mem_append_left _ (List.mem_map_of_mem hentry)
      obtain ⟨count, hcount, hall⟩ := pollFrames_deliverable hdeliverable
        (fun reply hreply => by
          obtain ⟨entry, hentry, hanswers⟩ := hanswered reply hreply
          exact hfits entry hentry reply hanswers) (harrived.trans hwritten) (Nat.le_refl _)
      refine ⟨count, hcount, ?_⟩
      rintro rfl
      rw [hround]
      apply hall _ (List.length_append ▸ Nat.le_add_right _ _)
      rwa [List.take_left]

end

/-- A client that has read a reply to every request, none of them for the counters, has read
    those of the server. -/
theorem read_all {total : StoreCounters} {entries : List (Request × ServerState)}
    {replies : List Frame}
    (hreplies : List.Forall₂ (fun entry => Answers total entry.1 entry.2)
      (entries.take replies.length) replies)
    (hplain : ∀ entry ∈ entries, Request.Plain entry.1) {count : Nat}
    (hanswered : entries.length ≤ replies.length) (hcount : entries.length ≤ count) :
    (replies.map arrival).take count =
      entries.map fun entry => arrival (handleRequest entry.1 entry.2).1 := by
  rw [List.take_of_length_le hanswered] at hreplies
  rw [List.take_of_length_le (by rw [List.length_map, ← hreplies.length_eq]; exact hcount),
    answers_plain hreplies hplain, List.map_map]
  rfl

/-- The client that asks for the key that was swept reads that it is gone. -/
theorem network_delivers_lapse :
    ∃ host, run (Host.step fun id => socketRules .unlimited (lapseRounds id)) lapseEvents
        (.accepted (.initial .default) lapseStreams) = some host ∧
      let history := Host.history (fun id => socketRules .unlimited (lapseRounds id)) lapseEvents
        (Host.accepted (.initial .default) lapseStreams)
      host.server.store.entries = (performAll history (.initial .default)).store.entries ∧
        (∀ id, (own id (met history (.initial .default))).map Prod.fst <+: lapseRequests id) ∧
        (host.connections false).written = writeFrame .null ∧
        received .unlimited (host.connections false).written =
          (own false (met history (.initial .default))).map
            fun entry => arrival (handleRequest entry.1 entry.2).1 := by
  have hfinished : (run (Host.step fun id => socketRules .unlimited (lapseRounds id)) lapseEvents
      (.accepted (.initial .default) lapseStreams)).map (fun host =>
        ((host.connections false).round, (host.connections false).written)) =
      some (1, writeFrame .null) := by decide +kernel
  obtain ⟨host, hrun, hdone⟩ := Option.map_eq_some_iff.mp hfinished
  obtain ⟨hround, hwritten⟩ := Prod.mk.inj hdone
  obtain ⟨-, hall⟩ := network_delivers .unlimited lapseRounds (.initial .default) lapseStreams
    lapseStreams_length
  obtain ⟨hentries, -, -, hclients⟩ := hall lapseRequests _ lapseRequests_read lapseEvents host hrun
  dsimp only at hentries
  refine ⟨host, hrun, hentries, fun id => (hclients id).1, hwritten, ?_⟩
  have hfits : ∀ entry ∈ own false (met (Host.history
      (fun id => socketRules .unlimited (lapseRounds id)) lapseEvents
      (Host.accepted (.initial .default) lapseStreams)) (.initial .default)),
      (handleRequest entry.1 entry.2).1.Fits .unlimited := by decide +kernel
  have hnames : ∀ request ∈ lapseRequests false, ¬ NameBreaksLine request.frame := by
    rintro request hrequest ⟨name, args, hframe, hbreak⟩
    have hknown : ∀ request ∈ lapseRequests false,
        Command.fromFrame request.frame = .ok (.get "k") := by decide +kernel
    have hcommand := hknown request hrequest
    rw [hframe, fromFrame_breakingName hbreak] at hcommand
    cases hcommand
  have hplain : ∀ request ∈ lapseRequests false, Request.Plain request := by decide +kernel
  obtain ⟨horder, -, replies, hreplies, hsent, -, -, hdecoded⟩ := hclients false
  rw [hround] at hsent
  have hshort := horder.length_le
  rw [List.length_map] at hshort
  have hone : (lapseRequests false).length = 1 := rfl
  rw [hone] at hshort
  have hasked : ∀ entry ∈ own false (met (Host.history
      (fun id => socketRules .unlimited (lapseRounds id)) lapseEvents
      (Host.accepted (.initial .default) lapseStreams)) (.initial .default)),
      Request.Plain entry.1 :=
    fun entry hmem => hplain entry.1 (horder.subset (List.mem_map_of_mem hmem))
  obtain ⟨count, hcount, hlast⟩ := hdecoded hnames (fun entry hmem reply hanswers => by
    rw [hanswers.plain (hasked entry hmem)]
    exact hfits entry hmem) _ List.prefix_rfl
  have hread := hlast rfl
  rw [hround] at hread
  rw [hcount]
  exact read_all hreplies hasked (hshort.trans hsent) (hshort.trans hread)

end AerugoCache.Concurrent
