import AerugoCache.LogScan

/-!
# A log cut anywhere

A record is an array of one bulk or more.  The decoder accepts a line that the end of
the stream cuts off, but no beginning of a record decodes: a cut header announces
items or bytes that are not there, and a cut line or payload is no number or too
short.  So a scan of a cut log reads the records that lie before the cut and stops
with an error unless the cut is between two records.
-/

namespace AerugoCache.Protocol

open AerugoCache.ByteText AerugoCache.ByteReader

/-- `piece` is a beginning of `whole`, and not all of it. -/
def StrictPrefix (piece whole : Bytes) : Prop := piece <+: whole ∧ piece ≠ whole

theorem StrictPrefix.append {piece first second : Bytes}
    (h : StrictPrefix piece (first ++ second)) :
    StrictPrefix piece first ∨ ∃ rest, piece = first ++ rest ∧ StrictPrefix rest second := by
  obtain ⟨⟨missing, hwhole⟩, hne⟩ := h
  rcases List.append_eq_append_iff.mp hwhole with ⟨cut, rfl, hsecond⟩ | ⟨rest, rfl, rfl⟩
  · by_cases hcut : cut = []
    · subst hcut
      refine Or.inr ⟨[], by simp, List.nil_prefix, ?_⟩
      rintro rfl
      simp at hne
    · refine Or.inl ⟨List.prefix_append _ _, ?_⟩
      intro heq
      exact hcut (List.self_eq_append_right.mp heq)
  · refine Or.inr ⟨rest, rfl, List.prefix_append _ _, ?_⟩
    intro heq
    apply hne
    rw [← heq]

/-- An error that `read_frame` returns. -/
def Fails {α : Type} (result : Except ReadError α) : Prop :=
  ∃ error, result = .error error ∧ error.IsIo

theorem Fails.map {α β : Type} {result : Except ReadError α} (h : Fails result) (f : α → β) :
    Fails (result.map f) := by
  obtain ⟨error, rfl, hio⟩ := h
  exact ⟨error, rfl, hio⟩

theorem Fails.bind {α β : Type} {result : Except ReadError α} (h : Fails result)
    (f : α → Except ReadError β) : Fails (result >>= f) := by
  obtain ⟨error, rfl, hio⟩ := h
  exact ⟨error, rfl, hio⟩

/-! ### Cut numbers -/

/-- What is left of the number of a header line: nothing, a smaller number, or the
    number with half of the line ending. -/
theorem StrictPrefix.number {piece : Bytes} {n : Nat}
    (h : StrictPrefix piece (utf8 (toString n) ++ crlf)) :
    piece = [] ∨ (∃ m : Nat, piece = utf8 (toString m) ∧ m ≤ n ∧ (0 < n → 0 < m)) ∨
      piece = utf8 (toString n ++ "\r") := by
  rcases h.append with hdigits | ⟨rest, rfl, hrest⟩
  · by_cases hne : piece = []
    · exact Or.inl hne
    · exact Or.inr (Or.inl (exists_toString_of_beginning hdigits.1 hne))
  · have hending : rest = [] ∨ rest = [ascii '\r'] := by
      obtain ⟨hbegin, hne⟩ := hrest
      simp only [crlf, List.prefix_cons_iff, List.prefix_nil] at hbegin hne
      rcases hbegin with rfl | ⟨rest, rfl, rfl | ⟨rest, rfl, rfl⟩⟩
      · exact Or.inl rfl
      · exact Or.inr rfl
      · exact absurd rfl hne
    rcases hending with rfl | rfl
    · exact Or.inr (Or.inl ⟨n, List.append_nil _, Nat.le_refl n, fun h => h⟩)
    · refine Or.inr (Or.inr ?_)
      rw [utf8_append]
      rfl

theorem return_mem (n : Nat) : '\r' ∈ (toString n ++ "\r").toList := by
  simp

theorem parseUsize_torn {piece : Bytes} {n : Nat} (hn : n < 2 ^ 64)
    (h : StrictPrefix piece (utf8 (toString n) ++ crlf)) :
    Fails (parseUsize piece) ∨ ∃ m, parseUsize piece = .ok m ∧ m ≤ n ∧ (0 < n → 0 < m) := by
  rcases h.number with rfl | ⟨m, rfl, hle, hpos⟩ | rfl
  · exact Or.inl ⟨_, rfl, trivial⟩
  · exact Or.inr ⟨m, parseUsize_toString (Nat.lt_of_le_of_lt hle hn), hle, hpos⟩
  · refine Or.inl ⟨.invalidData "invalid integer", ?_, trivial⟩
    rw [parseUsize, bytesToString_utf8]
    simp only [bind, Except.bind, parseUnsigned_eq_none (return_mem n) (by decide) (by decide)]

theorem parseI64_torn {piece : Bytes} {n : Nat} (hn : n < 2 ^ 63)
    (h : StrictPrefix piece (utf8 (toString n) ++ crlf)) :
    Fails (parseI64 piece) ∨ ∃ m : Nat, parseI64 piece = .ok (Int64.ofInt m) ∧ m ≤ n := by
  rcases h.number with rfl | ⟨m, rfl, hle, -⟩ | rfl
  · exact Or.inl ⟨_, rfl, trivial⟩
  · exact Or.inr ⟨m, parseI64_toString (v := m) (by omega) (by omega), hle⟩
  · refine Or.inl ⟨.invalidData "invalid integer", ?_, trivial⟩
    rw [parseI64, bytesToString_utf8]
    simp only [bind, Except.bind,
      parseSigned_eq_none (return_mem n) (by decide) (by decide) (by decide)]

/-! ### Cut headers -/

theorem newline_notMem_count (n : Nat) : '\n' ∉ (toString n).toList :=
  newline_notMem_toString n

theorem StrictPrefix.newline_notMem {piece : Bytes} {n : Nat}
    (h : StrictPrefix piece (utf8 (toString n) ++ crlf)) : ascii '\n' ∉ piece := by
  rcases h.number with rfl | ⟨m, rfl, -⟩ | rfl
  · simp
  · exact ascii_notMem_utf8 (by decide) (newline_notMem_count m)
  · apply ascii_notMem_utf8 (by decide)
    rw [String.toList_append, List.mem_append, not_or]
    exact ⟨newline_notMem_count n, by decide⟩

/-- A line without an end is read to the end of the stream and not trimmed. -/
theorem readFrameFuel_cut (heap : Allocator) (fuel : Nat) {kind : Char} {text : Bytes}
    (hkind : ascii kind ≠ ascii '\n') (htext : ascii '\n' ∉ text) :
    readFrameFuel heap (fuel + 1) (ascii kind :: text) =
      (readLine heap (readFrameFuel heap fuel) (ascii kind :: text) []).map
        fun (frame, rest) => (some frame, rest) := by
  have hline : ascii '\n' ∉ ascii kind :: text := by
    simp [hkind.symm, htext]
  have htrim : trimCrlf (ascii kind :: text) = ascii kind :: text := by
    rw [trimCrlf, stripSuffix_of_notMem (by decide) hline,
      stripSuffix_of_notMem (by decide) hline]
    rfl
  have hne : (ascii kind :: text).isEmpty = false := rfl
  simp only [readFrameFuel, readUntil_of_notMem hline, htrim, hne, Bool.false_eq_true, if_false]

theorem StrictPrefix.headerLine {piece : Bytes} {kind : Char} {n : Nat}
    (h : StrictPrefix piece (headerLine kind (toString n))) (hne : piece ≠ []) :
    ∃ text, piece = ascii kind :: text ∧ StrictPrefix text (utf8 (toString n) ++ crlf) := by
  have hcons : Protocol.headerLine kind (toString n) =
      [ascii kind] ++ (utf8 (toString n) ++ crlf) := rfl
  rw [hcons] at h
  rcases h.append with hkind | ⟨text, rfl, htext⟩
  · obtain ⟨hbegin, hshort⟩ := hkind
    rcases List.prefix_cons_iff.mp hbegin with rfl | ⟨rest, rfl, hrest⟩
    · exact absurd rfl hne
    · rw [List.prefix_nil.mp hrest] at hshort
      exact absurd rfl hshort
  · exact ⟨text, rfl, htext⟩

/-! ### Cut frames -/

variable {heap : Allocator}

theorem readBulk_torn (hheap : heap.Downward) {value piece : Bytes}
    (hheld : (Frame.bulk value).Held heap)
    (h : StrictPrefix piece (utf8 (toString value.length) ++ crlf)) :
    Fails (readBulk heap piece []) := by
  obtain ⟨hlength, hgrant⟩ := hheld
  rcases parseI64_torn hlength h with hfails | ⟨m, hparse, hle⟩
  · exact hfails.bind _
  · refine ⟨.unexpectedEof "early eof", ?_, trivial⟩
    have hint : (Int64.ofInt (m : Int)).toInt = m :=
      Int64.toInt_ofInt_of_le (by omega) (by omega)
    have hminus : ¬ ((m : Int) = -1) := by omega
    have hneg : ¬ ((m : Int) < 0) := by omega
    have hgrant' : heap.bytes (m + 2) = true := hheap.bytes (by omega) hgrant
    have hexact : readExact (m + 2) [] = none := by simp [readExact]
    simp only [readBulk, hparse, bind, Except.bind, hint, hminus, hneg, if_false,
      Int.toNat_natCast, hgrant', Bool.not_true, Bool.false_eq_true, pure, Except.pure, hexact]
    rfl

/-- A payload that is cut off. -/
theorem readBulk_short {value piece : Bytes} (hheld : (Frame.bulk value).Held heap)
    (h : StrictPrefix piece (value ++ crlf)) :
    Fails (readBulk heap (utf8 (toString value.length)) piece) := by
  obtain ⟨hlength, hgrant⟩ := hheld
  refine ⟨.unexpectedEof "early eof", ?_, trivial⟩
  have hparse : parseI64 (utf8 (toString value.length)) = .ok (Int64.ofInt value.length) :=
    parseI64_toString (v := value.length) (by omega) (by omega)
  have hint : (Int64.ofInt (value.length : Int)).toInt = value.length :=
    Int64.toInt_ofInt_of_le (by omega) (by omega)
  have hminus : ¬ ((value.length : Int) = -1) := by omega
  have hneg : ¬ ((value.length : Int) < 0) := by omega
  have hexact : readExact (value.length + 2) piece = none := by
    have hle := h.1.length_le
    have hne : piece.length ≠ (value ++ crlf).length := fun heq => h.2 (h.1.eq_of_length heq)
    simp only [List.length_append, crlf, List.length_cons, List.length_nil] at hle hne
    rw [readExact, if_neg (by omega)]
  simp only [readBulk, hparse, bind, Except.bind, hint, hminus, hneg, if_false,
    Int.toNat_natCast, hgrant, Bool.not_true, Bool.false_eq_true, pure, Except.pure, hexact]
  rfl

theorem readFrameFuel_bulk_torn (hheap : heap.Downward) (fuel : Nat) {value piece : Bytes}
    (hheld : (Frame.bulk value).Held heap)
    (h : StrictPrefix piece (writeFrame (.bulk value))) (hne : piece ≠ []) :
    Fails (readFrameFuel heap (fuel + 1) piece) := by
  rw [writeFrame_bulk] at h
  rcases h.append with hheader | ⟨payload, rfl, hpayload⟩
  · obtain ⟨text, rfl, htext⟩ := hheader.headerLine hne
    rw [readFrameFuel_cut heap fuel (by decide) htext.newline_notMem]
    exact (readBulk_torn hheap hheld htext).map _
  · rw [readFrameFuel_headerLine heap fuel (by decide) (newline_notMem_count value.length)]
    exact (readBulk_short hheld hpayload).map _

/-- The items of an array end before the last one does. -/
theorem readItems_torn (hheap : heap.Downward) (fuel : Nat) {args : List Bytes}
    (hheld : ∀ arg ∈ args, (Frame.bulk arg).Held heap) {piece : Bytes}
    (hfuel : piece.length ≤ fuel)
    (h : StrictPrefix piece ((args.map Frame.bulk).flatMap writeFrame)) :
    Fails (readItems (readFrameFuel heap (fuel + 1)) args.length piece) := by
  induction args generalizing piece with
  | nil =>
    obtain ⟨hbegin, hne⟩ := h
    exact absurd (List.prefix_nil.mp hbegin) hne
  | cons arg args ih =>
    have hfirst := hheld arg List.mem_cons_self
    rw [List.map_cons, List.flatMap_cons] at h
    rw [List.length_cons, readItems]
    rcases h.append with hcut | ⟨rest, rfl, hrest⟩
    · by_cases hne : piece = []
      · subst hne
        exact ⟨_, rfl, trivial⟩
      · obtain ⟨error, herror, hio⟩ := readFrameFuel_bulk_torn hheap fuel hfirst hcut hne
        rw [herror]
        exact ⟨error, rfl, hio⟩
    · have hread : readFrameFuel heap (fuel + 1) (writeFrame (.bulk arg) ++ rest) =
          .ok (some (.bulk arg), rest) := by
        apply readFrameFuel_writeFrame
        · simp [Frame.Readable, Frame.subframes]
        · intro sub hsub
          rw [show sub = .bulk arg by simpa [Frame.subframes] using hsub]
          exact hfirst
        · simp only [List.length_append] at hfuel
          omega
      simp only [List.length_append] at hfuel
      obtain ⟨error, herror, hio⟩ :=
        ih (fun a ha => hheld a (List.mem_cons_of_mem _ ha)) (by omega) hrest
      simp only [hread, herror]
      exact ⟨error, rfl, hio⟩

/-- **No beginning of a record decodes.** -/
theorem readFrame_torn (hheap : heap.Downward) {args : List Bytes} (hargs : args ≠ [])
    (hfits : (bulks args).Fits heap) {piece : Bytes}
    (h : StrictPrefix piece (writeFrame (bulks args))) (hne : piece ≠ []) :
    Fails (readFrame heap piece) := by
  obtain ⟨hlength, hgrant⟩ : (args.map Frame.bulk).length < 2 ^ 64 ∧
      heap.frames (args.map Frame.bulk).length = true := hfits.held
  have hpositive : 0 < (args.map Frame.bulk).length := by
    simpa [List.length_pos_iff] using hargs
  rw [bulks, writeFrame_array] at h
  rw [readFrame]
  rcases h.append with hheader | ⟨items, rfl, hitems⟩
  · obtain ⟨text, rfl, htext⟩ := hheader.headerLine hne
    rw [readFrameFuel_cut heap _ (by decide) htext.newline_notMem]
    apply Fails.map
    change Fails (readArray heap _ text [])
    rcases parseUsize_torn hlength htext with hfails | ⟨m, hparse, hle, hpos⟩
    · exact hfails.bind _
    · obtain ⟨m, rfl⟩ := Nat.exists_eq_succ_of_ne_zero (Nat.ne_of_gt (hpos hpositive))
      refine ⟨.unexpectedEof "unexpected EOF while reading RESP array", ?_, trivial⟩
      simp only [readArray, hparse, bind, Except.bind, hheap.frames hle hgrant, Bool.not_true,
        Bool.false_eq_true, if_false, pure, Except.pure]
      rfl
  · have hheld : ∀ arg ∈ args, (Frame.bulk arg).Held heap := fun arg harg =>
      (hfits.item (List.mem_map_of_mem harg)).held
    obtain ⟨fuel, heq, hle⟩ : ∃ fuel,
        (headerLine '*' (toString (args.map Frame.bulk).length) ++ items).length = fuel + 1 ∧
          items.length ≤ fuel := by
      refine ⟨(utf8 (toString (args.map Frame.bulk).length) ++ crlf ++ items).length, rfl, ?_⟩
      simp only [List.length_append]
      omega
    obtain ⟨error, herror, hio⟩ := readItems_torn hheap fuel hheld hle hitems
    rw [heq, readFrameFuel_headerLine heap _ (by decide) (newline_notMem_count _)]
    apply Fails.map
    change Fails (readArray heap _ (utf8 (toString (args.map Frame.bulk).length)) items)
    refine ⟨error, ?_, hio⟩
    rw [List.length_map] at *
    simp only [readArray, parseUsize_toString hlength, bind, Except.bind, hgrant, Bool.not_true,
      Bool.false_eq_true, if_false, herror]

end AerugoCache.Protocol

namespace AerugoCache.Persistence

open AerugoCache.ByteText AerugoCache.Protocol AerugoCache.Storage AerugoCache.Commands

/-! ### Cut logs -/

/-- The frames that are complete after `cut` bytes of their encodings. -/
def framesBefore : List Frame → Nat → List Frame
  | [], _ => []
  | frame :: frames, cut =>
      if (writeFrame frame).length ≤ cut then
        frame :: framesBefore frames (cut - (writeFrame frame).length)
      else []

/-- The cut is where one of the frames ends, or before the first. -/
def OnBoundary (frames : List Frame) (cut : Nat) : Prop :=
  ((framesBefore frames cut).flatMap writeFrame).length = cut

instance (frames : List Frame) (cut : Nat) : Decidable (OnBoundary frames cut) :=
  inferInstanceAs (Decidable (_ = cut))

theorem framesBefore_subset (frames : List Frame) (cut : Nat) :
    ∀ frame ∈ framesBefore frames cut, frame ∈ frames := by
  intro frame hframe
  induction frames generalizing cut with
  | nil => exact hframe
  | cons first frames ih =>
    rw [framesBefore] at hframe
    split at hframe
    · rcases List.mem_cons.mp hframe with rfl | hrest
      · exact List.mem_cons_self
      · exact List.mem_cons_of_mem _ (ih _ hrest)
    · cases hframe

/-- What a cut leaves: the complete frames, and a beginning of the next one. -/
theorem take_flatMap_writeFrame (frames : List Frame) {cut : Nat}
    (hcut : cut ≤ (frames.flatMap writeFrame).length) :
    ∃ piece, (frames.flatMap writeFrame).take cut =
        (framesBefore frames cut).flatMap writeFrame ++ piece ∧
      (OnBoundary frames cut → piece = []) ∧
      (¬ OnBoundary frames cut →
        piece ≠ [] ∧ ∃ frame ∈ frames, StrictPrefix piece (writeFrame frame)) := by
  induction frames generalizing cut with
  | nil =>
    obtain rfl : cut = 0 := by simpa using hcut
    refine ⟨[], rfl, fun _ => rfl, ?_⟩
    intro hnot
    exact absurd rfl hnot
  | cons frame frames ih =>
    rw [List.flatMap_cons, List.length_append] at hcut
    rw [List.flatMap_cons]
    by_cases hwhole : (writeFrame frame).length ≤ cut
    · obtain ⟨piece, htake, hon, hoff⟩ := @ih (cut - (writeFrame frame).length) (by omega)
      have hboundary : OnBoundary (frame :: frames) cut ↔
          OnBoundary frames (cut - (writeFrame frame).length) := by
        simp only [OnBoundary, framesBefore, hwhole, if_true, List.flatMap_cons,
          List.length_append]
        omega
      refine ⟨piece, ?_, fun h => hon (hboundary.mp h), ?_⟩
      · rw [List.take_append, List.take_of_length_le hwhole, htake, framesBefore, if_pos hwhole,
          List.flatMap_cons, List.append_assoc]
      · intro hnot
        obtain ⟨hne, other, hother, hpiece⟩ := hoff fun h => hnot (hboundary.mpr h)
        exact ⟨hne, other, List.mem_cons_of_mem _ hother, hpiece⟩
    · have hnone : framesBefore (frame :: frames) cut = [] := by
        rw [framesBefore, if_neg hwhole]
      have htake : (writeFrame frame ++ frames.flatMap writeFrame).take cut =
          (writeFrame frame).take cut :=
        List.take_append_of_le_length (by omega)
      have hlength : ((writeFrame frame).take cut).length = cut := by
        rw [List.length_take]
        omega
      refine ⟨(writeFrame frame).take cut, by rw [htake, hnone]; rfl, ?_, ?_⟩
      · intro hon
        rw [OnBoundary, hnone] at hon
        obtain rfl : 0 = cut := hon
        rfl
      · intro hnot
        constructor
        · intro hnil
          rw [hnil] at hlength
          apply hnot
          rw [OnBoundary, hnone]
          exact hlength
        · refine ⟨frame, List.mem_cons_self, List.take_prefix _ _, ?_⟩
          intro heq
          rw [heq] at hlength
          omega

/-- Every command is logged as such a frame. -/
theorem toAofFrame_bulks {command : Command} {clock : Clock} {frame : Frame}
    (h : command.toAofFrame clock = some frame) : ∃ args, args ≠ [] ∧ frame = bulks args := by
  cases command with
  | set key value => exact ⟨[utf8 "SET", utf8 key, value], by simp, (Option.some.inj h).symm⟩
  | del keys =>
    refine ⟨utf8 "DEL" :: keys.map utf8, by simp, ?_⟩
    rw [← Option.some.inj h, bulks, List.map_cons, List.map_map]
    rfl
  | expire key seconds =>
    exact ⟨[utf8 "EXPIREAT", utf8 key, utf8 (toString (expirationDeadline clock seconds))],
      by simp, (Option.some.inj h).symm⟩
  | expireAt key unixSeconds =>
    exact ⟨[utf8 "EXPIREAT", utf8 key, utf8 (toString unixSeconds)], by simp,
      (Option.some.inj h).symm⟩
  | persist key => exact ⟨[utf8 "PERSIST", utf8 key], by simp, (Option.some.inj h).symm⟩
  | lpush key values =>
    exact ⟨utf8 "LPUSH" :: utf8 key :: values, by simp, (Option.some.inj h).symm⟩
  | rpush key values =>
    exact ⟨utf8 "RPUSH" :: utf8 key :: values, by simp, (Option.some.inj h).symm⟩
  | lpop key => exact ⟨[utf8 "LPOP", utf8 key], by simp, (Option.some.inj h).symm⟩
  | rpop key => exact ⟨[utf8 "RPOP", utf8 key], by simp, (Option.some.inj h).symm⟩
  | ping | echo | get | «exists» | ttl | lrange | dbSize | info | aerugoStats | aerugoInspect =>
    cases h

theorem scanLog_cut {heap : Allocator} (hheap : heap.Downward) {records : List (List Bytes)}
    (hargs : ∀ args ∈ records, args ≠ []) (hfits : ∀ args ∈ records, (bulks args).Fits heap)
    {cut : Nat} (hcut : cut ≤ ((records.map bulks).flatMap writeFrame).length) :
    (scanLog heap (((records.map bulks).flatMap writeFrame).take cut)).1 =
        framesBefore (records.map bulks) cut ∧
      (OnBoundary (records.map bulks) cut →
        (scanLog heap (((records.map bulks).flatMap writeFrame).take cut)).2 = .ok ()) ∧
      (¬ OnBoundary (records.map bulks) cut →
        Fails (scanLog heap (((records.map bulks).flatMap writeFrame).take cut)).2) := by
  have hmem : ∀ frame ∈ framesBefore (records.map bulks) cut, frame ∈ records.map bulks :=
    framesBefore_subset _ _
  obtain ⟨piece, htake, hon, hoff⟩ := take_flatMap_writeFrame (records.map bulks) hcut
  have hread : ∀ frame ∈ framesBefore (records.map bulks) cut, frame.Readable := by
    intro frame hframe
    obtain ⟨args, -, rfl⟩ := List.mem_map.mp (hmem frame hframe)
    exact bulks_readable args
  have hheld : ∀ frame ∈ framesBefore (records.map bulks) cut, frame.Fits heap := by
    intro frame hframe
    obtain ⟨args, hmem, rfl⟩ := List.mem_map.mp (hmem frame hframe)
    exact hfits args hmem
  obtain ⟨fuel, hscan⟩ := scanLog_written hread hheld piece
  rw [htake, hscan]
  by_cases hboundary : OnBoundary (records.map bulks) cut
  · rw [hon hboundary, scan, readFrame_nil]
    simp [hboundary]
  · obtain ⟨hne, frame, hframe, hpiece⟩ := hoff hboundary
    obtain ⟨args, hmem, rfl⟩ := List.mem_map.mp hframe
    obtain ⟨error, herror, hio⟩ := readFrame_torn hheap (hargs args hmem) (hfits args hmem)
      hpiece hne
    rw [scan, herror]
    simp only [List.append_nil, true_and]
    exact ⟨fun h => absurd h hboundary, fun _ => ⟨error, rfl, hio⟩⟩

/-- **A torn log.**  However the log of the records is cut, `replay` executes exactly
    the records that lie before the cut, in order, and ends with `Ok` if the cut is
    between two records and with an error otherwise. -/
theorem replay_torn {heap : Allocator} (hheap : heap.Downward) {records : List (List Bytes)}
    (hargs : ∀ args ∈ records, args ≠ []) (hfits : ∀ args ∈ records, (bulks args).Fits heap)
    {cut : Nat} (hcut : cut ≤ ((records.map bulks).flatMap writeFrame).length)
    (envs : Nat → Env) (store : MemoryStore) :
    let log := ((records.map bulks).flatMap writeFrame).take cut
    let (count, after) := replayFrames envs (framesBefore (records.map bulks) cut) 0 0 store
    (replay heap envs (some log) store).2 = after ∧
      (OnBoundary (records.map bulks) cut → (replay heap envs (some log) store).1 = .ok count) ∧
      (¬ OnBoundary (records.map bulks) cut → Fails (replay heap envs (some log) store).1) ∧
      ∀ args ∈ records, ∀ piece, piece ≠ [] → StrictPrefix piece (writeFrame (bulks args)) →
        Fails (readFrame heap piece) := by
  intro log
  obtain ⟨hframes, hon, hoff⟩ := scanLog_cut hheap hargs hfits hcut
  rw [replay_scan, hframes]
  refine ⟨rfl, ?_, ?_, ?_⟩
  · intro hboundary
    rw [hon hboundary]
    rfl
  · intro hboundary
    exact (hoff hboundary).map _
  · intro args hmem piece hne hpiece
    exact readFrame_torn hheap (hargs args hmem) (hfits args hmem) hpiece hne

/-- Two records, cut after the first and in the payload of the second, on a machine that
    grants small buffers only. -/
theorem replay_torn_payload :
    let heap : Allocator := ⟨fun len => decide (len ≤ 8), fun len => decide (len ≤ 8)⟩
    let records := [[utf8 "DEL", utf8 "k"], [utf8 "RPUSH", utf8 "events", utf8 "one"]]
    let log := ((records.map bulks).flatMap writeFrame).take 50
    let store : MemoryStore := .withConfig .default
    (replay heap (fun _ => .at 5 0) (some log) store).2 =
        (replayFrames (fun _ => .at 5 0) [bulks [utf8 "DEL", utf8 "k"]] 0 0 store).2 ∧
      Fails (replay heap (fun _ => .at 5 0) (some log) store).1 := by
  intro heap records log store
  have hheap : heap.Downward :=
    ⟨fun hle hn => decide_eq_true (Nat.le_trans hle (of_decide_eq_true hn)),
      fun hle hn => decide_eq_true (Nat.le_trans hle (of_decide_eq_true hn))⟩
  have hfits : ∀ args ∈ records, (bulks args).Fits heap := by
    simp [records, heap, bulks, Frame.Fits, Frame.Held, Frame.subframes, subframesOf]
    decide
  have hbefore : framesBefore (records.map bulks) 50 = [bulks [utf8 "DEL", utf8 "k"]] := rfl
  have hargs : ∀ args ∈ records, args ≠ [] := by decide
  have hcut : 50 ≤ ((records.map bulks).flatMap writeFrame).length := by decide
  have htorn := replay_torn hheap hargs hfits hcut (fun _ => .at 5 0) store
  rw [hbefore] at htorn
  exact ⟨htorn.1, htorn.2.2.1 (by decide)⟩

end AerugoCache.Persistence
