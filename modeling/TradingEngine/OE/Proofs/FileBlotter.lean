/-
What is read back from an order log.

# Records

The reader finds in a record what the writer put there (`told_append`), and
goes on with the next one; so a log of whole records is read back as it was
written, with whatever the reader makes of the bytes behind them
(`toldFrom_append`).

# Ends

The beginning of a record stops the reader: either its header is not there,
or the header claims more than there is. Bytes that a writer reserved and
never wrote are zero, which reads as records of no type. Neither adds
anything to what was written before.
-/
import TradingEngine.Core.Proofs.AsyncMappedFile
import TradingEngine.OE.FileBlotter
import TradingEngine.OE.Proofs.FileBlotterReader

namespace TradingEngine.OE

open Lib

variable {ι : Type} {esi : EsiCodec ι} {header : FileHeader}

-- ================================================================== header

theorem MessageType.ofByte_toByte (t : MessageType) : ofByte t.toByte = t := by
  cases t <;> rfl

theorem MessageHeader.encode_eq (h : MessageHeader) :
    codec.encode h = leBytes 2 h.length
      ++ (h.type :: h.subtype :: Timestamp.codec.encode h.timestamp) := by
  have hbyte (b : UInt8) : byteCodec.encode b = [b] := by
    show [UInt8.ofNat b.toNat] = [b]
    rw [UInt8.ofNat_toNat]
  show leBytes 2 h.length ++ (byteCodec.encode h.type
    ++ (byteCodec.encode h.subtype ++ Timestamp.codec.encode h.timestamp)) = _
  rw [hbyte, hbyte]
  rfl

/-- A record, with what comes behind it, as the reader takes it apart. -/
theorem LogEntry.bytes_append (e : LogEntry ι) (rest : Bytes) :
    e.bytes esi header ++ rest
      = leBytes 2 (e.body esi header).length
        ++ (e.type.toByte :: 0 :: (Timestamp.codec.encode e.timestamp
          ++ (e.body esi header ++ rest))) := by
  unfold bytes
  rw [MessageHeader.encode_eq, List.append_assoc, List.append_assoc,
    List.cons_append, List.cons_append]

theorem recordLength_append (e : LogEntry ι) (rest : Bytes) :
    recordLength (e.bytes esi header ++ rest)
      = (e.body esi header).length := by
  have hbody := e.length_body_le esi header
  rw [e.bytes_append]
  unfold recordLength
  rw [le16_append (by rw [length_leBytes]; decide),
    le16_eq_leNat (by rw [length_leBytes]; decide)]
  have hall : bytesAt (leBytes 2 (e.body esi header).length) 0 2
      = leBytes 2 (e.body esi header).length :=
    List.take_of_length_le (by rw [List.drop_zero, length_leBytes])
  rw [hall]
  apply leNat_leBytes_of_lt
  omega

theorem recordType_append (e : LogEntry ι) (rest : Bytes) :
    recordType (e.bytes esi header ++ rest) = e.type := by
  rw [e.bytes_append]
  show MessageType.ofByte e.type.toByte = e.type
  exact e.type.ofByte_toByte

theorem complete_append (e : LogEntry ι) (rest : Bytes) :
    Complete (sizesOf esi) (e.bytes esi header ++ rest) := by
  unfold Complete
  rw [recordLength_append, List.length_append, e.length_bytes]
  omega

-- ================================================================== bodies

theorem read_struct {α : Type} {c : Codec α} {a : α} (h : c.Holds a)
    (f : α → LogEntry ι) (rest : Bytes) :
    some (f (c.read (c.encode a ++ rest) 0)) = some (f a) := by
  rw [c.read_zero_encode h]

/-- The struct of a record is read as it was written. -/
theorem LogEntry.read_body {e : LogEntry ι} (h : e.Fits esi)
    (rest : Bytes) :
    LogEntry.read esi e.type e.timestamp (e.body esi header ++ rest)
      = some e := by
  cases e with
  | message m =>
      obtain ⟨type, ts, body⟩ := m
      obtain ⟨htyped, -, hfits⟩ := h
      cases body with
      | fileHeader => cases htyped; rfl
      | fileTrailer => cases htyped; rfl
      | orderLocalReject b =>
          cases htyped
          exact read_struct hfits (fun b => message ⟨_, ts, .orderLocalReject b⟩) rest
      | orderSent b =>
          cases htyped
          exact read_struct hfits (fun b => message ⟨_, ts, .orderSent b⟩) rest
      | orderAck b =>
          cases htyped
          exact read_struct hfits (fun b => message ⟨_, ts, .orderAck b⟩) rest
      | orderFill b =>
          rcases htyped with htyped | htyped <;> cases htyped <;>
          exact read_struct hfits (fun b => message ⟨_, ts, .orderFill b⟩) rest
      | orderCxlReq b =>
          cases htyped
          exact read_struct hfits (fun b => message ⟨_, ts, .orderCxlReq b⟩) rest
      | orderCxl b =>
          cases htyped
          exact read_struct hfits (fun b => message ⟨_, ts, .orderCxl b⟩) rest
      | orderReject b =>
          cases htyped
          exact read_struct hfits (fun b => message ⟨_, ts, .orderReject b⟩) rest
      | orderCxlReject b =>
          cases htyped
          exact read_struct hfits (fun b => message ⟨_, ts, .orderCxlReject b⟩) rest
      | orderDestroy b =>
          cases htyped
          exact read_struct hfits (fun b => message ⟨_, ts, .orderDestroy b⟩) rest
      | newSession b =>
          cases htyped
          exact read_struct hfits (fun b => message ⟨_, ts, .newSession b⟩) rest
  | position ts b =>
      exact read_struct h.2 (position ts) rest
  | newAccount ts b =>
      exact read_struct h.2 (newAccount ts) rest

theorem LogEntry.Fits.timestamp {e : LogEntry ι} (h : e.Fits esi) :
    e.timestamp.Fits := by
  cases e with
  | message m => exact h.2.1
  | position ts b => exact h.1
  | newAccount ts b => exact h.1

/-- The listeners are told what was written. -/
theorem told_append {e : LogEntry ι} (h : e.Fits esi) (rest : Bytes) :
    told esi (e.bytes esi header ++ rest) = some e := by
  have hts : Timestamp.codec.read (e.bytes esi header ++ rest) 4
      = e.timestamp := by
    have hfour : (leBytes 2 (e.body esi header).length
        ++ [e.type.toByte, 0]).length = 4 := by
      rw [List.length_append, length_leBytes]
      rfl
    have hread := Timestamp.codec.read_encode h.timestamp.1
      (leBytes 2 (e.body esi header).length ++ [e.type.toByte, 0])
      (e.body esi header ++ rest)
    rw [hfour, List.append_assoc, List.append_assoc] at hread
    rw [e.bytes_append]
    exact hread
  have hdrop : (e.bytes esi header ++ rest).drop (sizesOf esi).header
      = e.body esi header ++ rest := by
    have hlength : (MessageHeader.codec.encode ⟨(e.body esi header).length,
        e.type.toByte, 0, e.timestamp⟩).length = (sizesOf esi).header := by
      rw [Codec.length_encode]
      rfl
    unfold LogEntry.bytes
    rw [List.append_assoc]
    exact List.drop_left' hlength
  have hcomplete : Complete (sizesOf esi) (e.bytes esi header ++ rest) :=
    complete_append e rest
  unfold Complete at hcomplete
  unfold told
  dsimp only
  rw [if_pos hcomplete, hts, h.timestamp.2, hdrop, recordType_append]
  exact LogEntry.read_body h rest

-- ==================================================================== loop

/-- What a replay tells from an offset on. -/
def toldFrom (esi : EsiCodec ι) (log : Bytes) (turns off : Nat) :
    List (LogEntry ι) :=
  ((⟨log, some off⟩ : FileBlotterReader).replay (sizesOf esi)
    turns).2.filterMap fun call => told esi (log.drop call.offset)

theorem toldFrom_end {log : Bytes} {off : Nat} (h : log.length ≤ off)
    (turns : Nat) : toldFrom esi log turns off = [] := by
  have hend : (⟨log, some off⟩ : FileBlotterReader).atEnd = true :=
    decide_eq_true h
  unfold toldFrom
  rw [FileBlotterReader.replay_atEnd hend]
  rfl

/-- A complete record, and then the rest. -/
theorem toldFrom_complete {log : Bytes} {off : Nat}
    (h : Complete (sizesOf esi) (log.drop off)) (turns : Nat) :
    toldFrom esi log (turns + 1) off
      = (told esi (log.drop off)).toList
        ++ toldFrom esi log turns (off + ((sizesOf esi).header
          + recordLength (log.drop off))) := by
  have hpos := header_pos (sizesOf esi)
  obtain ⟨hret, -⟩ := decode_complete h
  unfold toldFrom
  rw [FileBlotterReader.replay_succ log h.lt_length, hret, if_pos (by omega),
    Int.toNat_natCast, List.filterMap_cons]
  dsimp only
  cases told esi (log.drop off) with
  | none => rfl
  | some e => rfl

/-- Less than a record is the end of the replay. -/
theorem toldFrom_incomplete {log : Bytes} {off : Nat}
    (h : ¬ Complete (sizesOf esi) (log.drop off)) (turns : Nat) :
    toldFrom esi log turns off = [] := by
  by_cases hoff : off < log.length
  · cases turns with
    | zero => rfl
    | succ turns =>
        obtain ⟨hret, -⟩ := decode_incomplete h
        have hnone : told esi (log.drop off) = none := if_neg h
        unfold toldFrom
        rw [FileBlotterReader.replay_succ log hoff, if_neg hret,
          FileBlotterReader.replay_atEnd rfl, List.filterMap_cons]
        dsimp only
        rw [hnone]
        rfl
  · exact toldFrom_end (Nat.le_of_not_lt hoff) turns

/-- Whole records are told as they were written, and then comes what the
reader makes of the bytes behind them. -/
theorem toldFrom_append {log tail : Bytes} {es : List (LogEntry ι)}
    (h : ∀ e ∈ es, e.Fits esi) {off turns : Nat}
    (hlog : log.drop off = logBytes esi header es ++ tail)
    (hturns : log.length ≤ off + turns) :
    ∃ off' turns', log.drop off' = tail ∧ log.length ≤ off' + turns'
      ∧ toldFrom esi log turns off = es ++ toldFrom esi log turns' off' := by
  induction es generalizing off turns with
  | nil => exact ⟨off, turns, hlog, hturns, rfl⟩
  | cons e es ih =>
      have hrecord : log.drop off
          = e.bytes esi header ++ (logBytes esi header es ++ tail) := by
        rw [hlog]
        unfold logBytes
        rw [List.flatMap_cons, List.append_assoc]
      have hcomplete : Complete (sizesOf esi) (log.drop off) := by
        rw [hrecord]
        exact complete_append e _
      have hlt := hcomplete.lt_length
      obtain ⟨k, rfl⟩ : ∃ k, turns = k + 1 := ⟨turns - 1, by omega⟩
      have hnext : log.drop (off + ((sizesOf esi).header
          + recordLength (log.drop off))) = logBytes esi header es ++ tail := by
        rw [← List.drop_drop, hrecord, recordLength_append, ← e.length_bytes,
          List.drop_left]
      have hpos := header_pos (sizesOf esi)
      obtain ⟨off', turns', hoff', hle', htold⟩ :=
        @ih (fun e he => h e (List.mem_cons_of_mem _ he)) _ k hnext
          (by omega)
      refine ⟨off', turns', hoff', hle', ?_⟩
      rw [toldFrom_complete hcomplete, htold, hrecord,
        told_append (h e List.mem_cons_self)]
      rfl

-- ==================================================================== ends

/-- Bytes that were reserved and never written say nothing. -/
theorem toldFrom_zeros {log : Bytes} {n : Nat} (turns off : Nat)
    (h : log.drop off = List.replicate n 0) :
    toldFrom esi log turns off = [] := by
  induction turns generalizing off n with
  | zero => rfl
  | succ turns ih =>
      by_cases hcomplete : Complete (sizesOf esi) (log.drop off)
      · have hnone : told esi (log.drop off) = none := by
          have htype : recordType (log.drop off) = .unknown := by
            rw [h]
            unfold recordType byteAt
            rw [List.getD_eq_getElem?_getD, List.getElem?_replicate]
            split <;> rfl
          unfold told
          dsimp only
          rw [htype]
          split <;> rfl
        rw [toldFrom_complete hcomplete, hnone]
        refine ih (n := n - ((sizesOf esi).header
          + recordLength (log.drop off))) _ ?_
        rw [← List.drop_drop, h, List.drop_replicate]
      · exact toldFrom_incomplete hcomplete _

/-- The beginning of a record is not one. -/
theorem not_complete_of_prefix {e : LogEntry ι} {bs : Bytes}
    (h : bs <+: e.bytes esi header)
    (hlt : bs.length < (e.bytes esi header).length) :
    ¬ Complete (sizesOf esi) bs := by
  intro hcomplete
  unfold Complete at hcomplete
  obtain ⟨cs, hcs⟩ := h
  have htwo : 1 < bs.length := by
    have hheader : (sizesOf esi).header = 20 := rfl
    omega
  have hlength : recordLength bs = (e.body esi header).length := by
    have hall : recordLength (e.bytes esi header ++ [])
        = (e.body esi header).length := recordLength_append e []
    rw [List.append_nil, ← hcs] at hall
    rw [← hall]
    exact (le16_append htwo cs).symm
  rw [hlength, ← e.length_bytes] at hcomplete
  omega

/-- The beginning of a log: whole records, and less than the next one. -/
theorem logBytes_prefix {bs : Bytes} {es : List (LogEntry ι)}
    (h : bs <+: logBytes esi header es) :
    ∃ k tail, bs = logBytes esi header (es.take k) ++ tail
      ∧ (tail = [] ∧ k = es.length ∨ ∃ e, es[k]? = some e
        ∧ tail <+: e.bytes esi header
        ∧ tail.length < (e.bytes esi header).length) := by
  induction es generalizing bs with
  | nil =>
      refine ⟨0, [], ?_, .inl ⟨rfl, rfl⟩⟩
      exact List.prefix_nil.mp h
  | cons e es ih =>
      have hcons : logBytes esi header (e :: es)
          = e.bytes esi header ++ logBytes esi header es :=
        List.flatMap_cons
      rw [hcons] at h
      by_cases hlt : bs.length < (e.bytes esi header).length
      · refine ⟨0, bs, rfl, .inr ⟨e, rfl, ?_, hlt⟩⟩
        exact List.prefix_of_prefix_length_le h (List.prefix_append _ _)
          (Nat.le_of_lt hlt)
      · obtain ⟨rest, rfl⟩ : e.bytes esi header <+: bs :=
          List.prefix_of_prefix_length_le (List.prefix_append _ _) h
            (Nat.le_of_not_lt hlt)
        obtain ⟨k, tail, hrest, hend⟩ :=
          ih ((List.prefix_append_right_inj _).mp h)
        refine ⟨k + 1, tail, ?_, ?_⟩
        · rw [List.take_succ_cons, hrest]
          unfold logBytes
          rw [List.flatMap_cons, List.append_assoc]
        · rcases hend with ⟨htail, hk⟩ | ⟨e', he', hprefix⟩
          · exact .inl ⟨htail, congrArg (· + 1) hk⟩
          · exact .inr ⟨e', he', hprefix⟩

/-- What a crash leaves of a log: some first bytes of it, or some first
records, with zeros where others were reserved. -/
def Remains (esi : EsiCodec ι) (header : FileHeader)
    (es : List (LogEntry ι)) (bs : Bytes) : Prop :=
  bs <+: logBytes esi header es
    ∨ ∃ k n, bs = logBytes esi header (es.take k) ++ List.replicate n 0

theorem replayed_append {tail : Bytes} {es : List (LogEntry ι)}
    (h : ∀ e ∈ es, e.Fits esi)
    (htail : ∀ {log : Bytes} (turns off : Nat), log.drop off = tail →
      toldFrom esi log turns off = []) :
    replayed esi (logBytes esi header es ++ tail) = es := by
  obtain ⟨off, turns, hoff, -, htold⟩ :=
    @toldFrom_append _ _ _ (logBytes esi header es ++ tail) tail es h 0 _ rfl
      (Nat.le_of_eq (Nat.zero_add _).symm)
  show toldFrom esi _ _ 0 = es
  rw [htold, htail turns off hoff, List.append_nil]

theorem replayed_remains (esi : EsiCodec ι) (header : FileHeader)
    {es : List (LogEntry ι)} (hfits : ∀ e ∈ es, e.Fits esi) {bs : Bytes}
    (hbs : Remains esi header es bs) :
    ∃ k, replayed esi bs = es.take k
      ∧ logBytes esi header (es.take k) <+: bs
      ∧ (bs <+: logBytes esi header es → k < es.length →
        bs.length < (logBytes esi header (es.take (k + 1))).length) := by
  have hfits' : ∀ k, ∀ e ∈ es.take k, e.Fits esi :=
    fun k e he => hfits e (List.mem_of_mem_take he)
  have hcut : ∀ {bs}, bs <+: logBytes esi header es →
      ∃ k, replayed esi bs = es.take k
        ∧ logBytes esi header (es.take k) <+: bs
        ∧ (k < es.length →
          bs.length < (logBytes esi header (es.take (k + 1))).length) := by
    intro bs hbs
    obtain ⟨k, tail, rfl, hend⟩ := logBytes_prefix hbs
    refine ⟨k, ?_, List.prefix_append _ _, fun hk => ?_⟩
    · refine replayed_append (hfits' k) fun turns off hoff => ?_
      rcases hend with ⟨rfl, -⟩ | ⟨e, -, hprefix, hlt⟩
      · exact toldFrom_end (List.drop_eq_nil_iff.mp hoff) turns
      · apply toldFrom_incomplete
        rw [hoff]
        exact not_complete_of_prefix hprefix hlt
    · rcases hend with ⟨-, rfl⟩ | ⟨e, he, -, hlt⟩
      · exact absurd hk (Nat.lt_irrefl _)
      · obtain ⟨hk, rfl⟩ := List.getElem?_eq_some_iff.mp he
        unfold logBytes
        rw [List.take_succ_eq_append_getElem hk, List.flatMap_append,
          List.length_append, List.length_append, List.flatMap_singleton]
        omega
  rcases hbs with hbs | ⟨k, n, rfl⟩
  · obtain ⟨k, hread, hprefix, hnext⟩ := hcut hbs
    exact ⟨k, hread, hprefix, fun _ => hnext⟩
  · by_cases hbs : logBytes esi header (es.take k) ++ List.replicate n 0
        <+: logBytes esi header es
    · obtain ⟨k', hread, hprefix, hnext⟩ := hcut hbs
      exact ⟨k', hread, hprefix, fun _ => hnext⟩
    · exact ⟨k, replayed_append (hfits' k) toldFrom_zeros,
        List.prefix_append _ _, fun h => absurd h hbs⟩

-- ================================================================= threads

section Threads

open TradingEngine.Core (SharedFile)

variable {ω : Type} [DecidableEq ω]

/-- What a thread writes stays with its call. -/
theorem bufs_finish (s : SharedFile ω) (w : ω) :
    (s.finish w).calls.map (fun c => c.buf.bytes)
      = s.calls.map fun c => c.buf.bytes := by
  obtain ⟨-, h⟩ | ⟨c, -, -, h⟩ := s.finish_cases w
  · rw [h]
  · rw [h, List.map_map]
    refine List.map_congr_left fun c' _ => ?_
    rw [Function.comp_apply]
    split <;> rfl

theorem bufs_settle (s : SharedFile ω) :
    s.settle.calls.map (fun c => c.buf.bytes)
      = s.calls.map fun c => c.buf.bytes := by
  have hall : ∀ (ws : List ω) (s : SharedFile ω),
      (ws.foldl SharedFile.finish s).calls.map (fun c => c.buf.bytes)
        = s.calls.map fun c => c.buf.bytes := by
    intro ws
    induction ws with
    | nil => exact fun _ => rfl
    | cons w ws ih =>
        intro s
        rw [List.foldl_cons, ih, bufs_finish]
  exact hall _ s

/-- The calls are those of the records that are entered. -/
theorem bufs_run (turns : List (LogTurn ω ι)) (s : SharedFile ω) :
    (Lib.run SharedFile.step s (turns.map (LogTurn.op esi header))).calls.map
        (fun c => c.buf.bytes)
      = s.calls.map (fun c => c.buf.bytes)
        ++ (LogTurn.entered esi header s turns).map
          (LogEntry.bytes esi header) := by
  induction turns generalizing s with
  | nil => exact (List.append_nil _).symm
  | cons turn turns ih =>
      rw [List.map_cons, run_cons, ih, LogTurn.entered, List.map_append,
        ← List.append_assoc]
      refine congrArg (· ++ _) ?_
      cases turn with
      | leave w => exact (bufs_finish s w).trans (List.append_nil _).symm
      | enter w e =>
          show ((if s.busy w then s else s.reserve w (e.chunk esi header)).calls
            ).map _ = _ ++ List.map _ (if s.busy w then [] else [e])
          split
          · exact (List.append_nil _).symm
          · exact List.map_append

theorem LogTurn.mem_of_mem_entered {turns : List (LogTurn ω ι)}
    {s : SharedFile ω} {e : LogEntry ι}
    (h : e ∈ LogTurn.entered esi header s turns) :
    ∃ w, LogTurn.enter w e ∈ turns := by
  induction turns generalizing s with
  | nil => cases h
  | cons turn turns ih =>
      rcases List.mem_append.mp h with hhere | hlater
      · cases turn with
        | leave w => cases hhere
        | enter w e' =>
            change e ∈ if s.busy w = true then [] else [e'] at hhere
            split at hhere
            · cases hhere
            · rw [List.mem_singleton.mp hhere]
              exact ⟨w, List.mem_cons_self⟩
      · obtain ⟨w, hw⟩ := ih hlater
        exact ⟨w, List.mem_cons_of_mem turn hw⟩

/-- Once every thread is out, the file holds what was written, in the order
of the reservations. -/
theorem contents_settle {s : SharedFile ω} (h : SharedFile.Good 0 s) :
    contents s.settle.file = s.calls.flatMap fun c => c.buf.bytes := by
  have hsettle := h.tracked.settle
  have hfit := h.tracked.forall_fit_settle.mpr h.fits
  have hpieces : s.calls.flatMap (fun c => c.buf.bytes)
      = s.settle.calls.flatMap fun c => c.buf.bytes := by
    rw [List.flatMap_def, List.flatMap_def, bufs_settle]
  unfold contents
  rw [hpieces, List.range_eq_range', ← hsettle.tiles.map_range'
    (fun c => c.buf.bytes) (fun _ _ => rfl), Nat.sub_zero]
  · rfl
  · intro c hc i hi
    have hdone := (hsettle.outcome c hc (h.tracked.returned_settle hc)).mpr
      (hfit c hc)
    refine (hsettle.holds c hc hdone i hi).trans ?_
    exact List.getD_eq_getElem _ _ hi

end Threads

-- ================================================================= results

/-- A file header of some version. -/
def demoHeader : FileHeader := ⟨0x4F4C4649, 3, List.replicate 40 48⟩

/-- An order is destroyed. -/
def demoDestroy (localID : Nat) : LogEntry Nat :=
  .message ⟨.orderDestroy, ⟨1, 0⟩,
    .orderDestroy ⟨⟨1, localID, stringToSessionName [66]⟩⟩⟩

theorem sessionName_holds (n : SessionName) : SessionName.codec.Holds n := by
  obtain ⟨arr, hlength⟩ := n
  refine ⟨hlength, ?_⟩
  show (⟨(arr ++ List.replicate 8 0).take 8, _⟩ : SessionName) = ⟨arr, _⟩
  congr 1
  rw [← hlength, List.take_left]

theorem demoTimestamp_fits : ∀ sec ∈ [(0 : Int), 1],
    Timestamp.Fits ⟨sec, 0⟩ := by
  have hint : ∀ z ∈ [(0 : Int), 1], (Codec.int 8).Holds z := by
    intro z hz
    show -((256 ^ 8 : Nat) : Int) ≤ 2 * z ∧ 2 * z < ((256 ^ 8 : Nat) : Int)
    revert z
    decide
  intro sec hsec
  refine ⟨⟨⟨hint sec hsec, hint 0 (by decide)⟩, rfl⟩, ?_⟩
  show Timestamp.make sec 0 = ⟨sec, 0⟩
  revert sec
  decide

theorem demoDestroy_fits {localID : Nat} (h : localID < 4294967296) :
    (demoDestroy localID).Fits .u32 := by
  have hindex : 1 < 256 ^ 2 := by decide
  refine ⟨rfl, demoTimestamp_fits 1 (by decide), ?_, rfl⟩
  exact ⟨⟨hindex, h, sessionName_holds _⟩, rfl⟩

/-- Whatever the order of their steps: once the threads are out of `write`,
a replay of the file tells the records in the order of their reservations,
each as it was written. -/
theorem shared_log_read_back {ω : Type} [DecidableEq ω] (esi : EsiCodec ι)
    (header : FileHeader) (file : Core.AsyncMappedFile)
    (hnew : file.counter = 0) (turns : List (LogTurn ω ι))
    (hfits : ∀ w e, LogTurn.enter w e ∈ turns → e.Fits esi)
    (hroom : Lib.Admits Core.SharedFile.step Core.SharedFile.Fits
      (.start file) (turns.map (LogTurn.op esi header))) :
    let s := Lib.run Core.SharedFile.step (.start file)
      (turns.map (LogTurn.op esi header))
    replayed esi (contents s.settle.file)
      = LogTurn.entered esi header (.start file) turns := by
  intro s
  have hstart : Core.SharedFile.Good 0 (.start file : Core.SharedFile ω) := by
    have hle : file.counter ≤ file.capacity := by
      rw [hnew]
      exact UInt64.zero_le
    have hgood := Core.SharedFile.good_start (ι := ω) hle
    rw [hnew] at hgood
    exact hgood
  have hgood : Core.SharedFile.Good 0 s :=
    Lib.run_invariant (fun s op => Core.SharedFile.good_step) hstart hroom
  have hbytes : contents s.settle.file
      = logBytes esi header (LogTurn.entered esi header (.start file) turns)
        ++ [] := by
    rw [contents_settle hgood, List.append_nil, List.flatMap_def, bufs_run]
    exact List.flatMap_def.symm
  rw [hbytes]
  refine replayed_append (fun e he => ?_) fun turns off hoff =>
    toldFrom_end (List.drop_eq_nil_iff.mp hoff) turns
  obtain ⟨w, he⟩ := LogTurn.mem_of_mem_entered he
  exact hfits w e he

/-- Two threads are in `write` at once; the first to reserve is the last to
write. -/
theorem shared_log_read_back_demo :
    let turns : List (LogTurn Nat Nat) :=
      [.enter 0 (demoDestroy 1), .enter 1 (demoDestroy 2), .leave 1, .leave 0]
    let file := Core.AsyncMappedFile.openWritable (fun _ => 0) 0
    replayed .u32 (contents (Lib.run Core.SharedFile.step (.start file)
        (turns.map (LogTurn.op .u32 demoHeader))).settle.file)
      = LogTurn.entered .u32 demoHeader (.start file) turns := by
  intro turns file
  refine shared_log_read_back .u32 demoHeader file rfl turns
    (fun w e he => ?_)
    ⟨.inr (by decide +kernel), .inr (by decide +kernel), trivial, trivial,
      trivial⟩
  simp only [turns, List.mem_cons, LogTurn.enter.injEq, List.not_mem_nil,
    reduceCtorEq, or_false] at he
  rcases he with ⟨-, rfl⟩ | ⟨-, rfl⟩
  · exact demoDestroy_fits (by decide)
  · exact demoDestroy_fits (by decide)

end TradingEngine.OE
