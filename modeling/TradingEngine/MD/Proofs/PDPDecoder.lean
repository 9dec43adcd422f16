/-
Packet sequencing in the OpenBook decoder.

# What a call does

Without resets, `on_recv` is `GapDetector.arrive` on the sequence number of
the packet, if it returns: the messages in it do not touch the expected
number, and below the largest one it does not wrap around
(`detector_onRecv`). What is known of a gap detector is then true of what
the listener is told (`Sequenced`).

# Whether it returns

The messages of a packet are only looked at if its number is not below the
expected one. They are handled, each and to the end, exactly if they all
fit what can be read behind the pointer (`exists_onRecv`,
`fits_of_onRecv`). A packet that arrives behind higher numbers is dropped
whatever is in it, so a channel goes through a stream exactly if the packets
that come behind lower ones only are of that kind (`packets_sequenced_iff`).
One that is not is the last of the channel: the loop over the price points
of an undersized update writes on until the process is gone.
-/
import TradingEngine.MD.Proofs.PDPBounds
import TradingEngine.Lib.Gaps
import Mathlib.Algebra.Order.BigOperators.Group.List
import Mathlib.Algebra.Order.Group.Nat

namespace TradingEngine.MD.PDP

open Lib (GapDetector toNat_add_one)

namespace Decoder

-- ============================================================ what was told

/-- The sequence numbers of the packets processed. -/
def processed (d : Decoder) : List Nat :=
  d.notified.filterMap fun n =>
    match n.2 with
    | .startOfPkt seqnum _ => some seqnum.toNat
    | _ => none

/-- The gaps reported, from the expected number to the received one. -/
def gaps (d : Decoder) : List (Nat × Nat) :=
  d.notified.filterMap fun n =>
    match n.2 with
    | .gap _ expected received _ => some (expected.toNat, received.toNat)
    | _ => none

/-- A packet in what can be read from its pointer on, that is no runt and
no reset, and not the last there can be. -/
structure Plain (p : Packet) : Prop where
  header : messageHeaderSize ≤ p.buf.length
  there : p.len ≤ p.buf.length
  whole : msgSize p.buf + 2 ≤ p.len
  seqnum : (msgSeqNum p.buf).toNat < 4294967295
  noReset : msgType p.buf ≠ some .sequenceNumberReset

instance (p : Packet) : Decidable (Plain p) :=
  decidable_of_iff (messageHeaderSize ≤ p.buf.length
      ∧ p.len ≤ p.buf.length ∧ msgSize p.buf + 2 ≤ p.len
      ∧ (msgSeqNum p.buf).toNat < 4294967295
      ∧ msgType p.buf ≠ some .sequenceNumberReset)
    ⟨fun ⟨a, b, c, d, e⟩ => ⟨a, b, c, d, e⟩,
      fun ⟨a, b, c, d, e⟩ => ⟨a, b, c, d, e⟩⟩

/-- Every message of the packet fits what can be read: an update claims its
own layout at least, and what is converted is there. -/
def Packet.Fits (p : Packet) : Prop :=
  ∀ idx, MessageAt (msgType p.buf) p.buf p.len messageHeaderSize idx →
    PDP.Fits (msgType p.buf) p.buf p.buf.length idx

/-- A packet that is all header has no message. -/
theorem Packet.fits_of_header {p : Packet} (h : p.len ≤ messageHeaderSize) :
    p.Fits := by
  intro idx hidx
  rcases hidx.2.cases_head with rfl | ⟨next, hnext, -⟩
  · exact absurd hidx.1 (Nat.not_lt_of_le h)
  · exact absurd hnext.1 (Nat.not_lt_of_le h)

-- ================================================================= messages

section Messages

variable {points turns start len : Nat} {d d' : Decoder} {seqnum : UInt32}
  {type : Option MsgType} {buf : Bytes} {ts : Timestamp}

theorem handleMessage_of_fits {idx : Nat}
    (hheader : messageHeaderSize ≤ buf.length) (hturns : 65536 ≤ turns)
    (h : PDP.Fits type buf buf.length idx) :
    d.handleMessage turns seqnum type buf idx ts
      = some (d.dispatchMessage seqnum type buf idx ts) := by
  have hsettles : (messageTouches turns type buf idx).settles buf.length
      = true :=
    Lib.Touches.settles_iff.mpr ⟨ended_messageTouches h.1 hturns,
      within_messageTouches h hheader turns⟩
  unfold handleMessage
  rw [if_pos hsettles]

theorem fits_of_handleMessage {idx : Nat} {r : Nat × Decoder}
    (hidx : idx < buf.length)
    (h : d.handleMessage turns seqnum type buf idx ts = some r) :
    PDP.Fits type buf buf.length idx
      ∧ r = d.dispatchMessage seqnum type buf idx ts := by
  unfold handleMessage at h
  split at h
  case isTrue hsettles =>
    obtain ⟨hended, hwithin⟩ := Lib.Touches.settles_iff.mp hsettles
    exact ⟨fits_of_messageTouches hidx hended hwithin,
      (Option.some.inj h).symm⟩
  case isFalse => cases h

/-- The messages are handled if they all fit. -/
theorem exists_handleMessages (hheader : messageHeaderSize ≤ buf.length)
    (h : ∀ idx, MessageAt type buf len start idx →
      PDP.Fits type buf buf.length idx)
    (hpoints : 65536 ≤ points) (hturns : len - start < turns) :
    ∃ d', handleMessages points seqnum type buf len ts turns d start
      = some d' := by
  induction turns generalizing d start with
  | zero => exact absurd hturns (Nat.not_lt_zero _)
  | succ turns ih =>
      unfold handleMessages
      by_cases hstart : start < len
      · have hfits := h start (messageAt_start hstart)
        rw [if_pos hstart]
        dsimp only
        rw [handleMessage_of_fits hheader hpoints hfits]
        simp only [Option.bind_eq_bind, Option.bind_some]
        rw [dispatchMessage_fst]
        by_cases hsize : messageSize type buf start = 0
        · rw [if_pos hsize]
          exact ⟨_, rfl⟩
        · rw [if_neg hsize]
          exact ih (fun idx hidx => h idx (hidx.behind hstart hsize))
            (by omega)
      · rw [if_neg hstart]
        exact ⟨_, rfl⟩

/-- Otherwise they are not. -/
theorem fits_of_handleMessages (hlen : len ≤ buf.length)
    (h : handleMessages points seqnum type buf len ts turns d start
      = some d') {idx : Nat} (hidx : MessageAt type buf len start idx) :
    PDP.Fits type buf buf.length idx := by
  induction turns generalizing d start with
  | zero => cases h
  | succ turns ih =>
      have hstart : start < len := by
        rcases hidx.2.cases_head with rfl | ⟨next, hnext, -⟩
        · exact hidx.1
        · exact hnext.1
      unfold handleMessages at h
      rw [if_pos hstart] at h
      obtain ⟨r, hr, hrest⟩ := Option.bind_eq_some_iff.mp h
      obtain ⟨hfits, rfl⟩ := fits_of_handleMessage
        (Nat.lt_of_lt_of_le hstart hlen) hr
      rcases hidx.cases with rfl | ⟨hsize, hbehind⟩
      · exact hfits
      · rw [dispatchMessage_fst, if_neg hsize] at hrest
        exact ih hrest hbehind

end Messages

-- =================================================================== packets

/-- The decoder when it comes to the messages of a packet. -/
def opened (d : Decoder) (p : Packet) : Decoder where
  channel :=
    { d.channel with
      expectSeqnum := msgSeqNum p.buf + 1
      timestamp := p.ts
      pktCount := d.channel.pktCount + 1 }
  notified := d.notified
    ++ (if msgSeqNum p.buf > d.channel.expectSeqnum then
        [(p.ts, .gap (d.channel.index % 256) d.channel.expectSeqnum
          (msgSeqNum p.buf) d.channel.timestamp)]
      else [])
    ++ [(p.ts, .startOfPkt (msgSeqNum p.buf) d.channel.index)]

section Packets

variable {turns : Nat} {d d' : Decoder} {p : Packet}

/-- A packet that is new: opened, its messages, and closed. -/
theorem onRecv_new (hwhole : msgSize p.buf + 2 ≤ p.len)
    (hnew : ¬msgSeqNum p.buf < d.channel.expectSeqnum) :
    d.onRecv turns p
      = (handleMessages turns (msgSeqNum p.buf) (msgType p.buf) p.buf p.len
          p.ts turns (d.opened p) messageHeaderSize).map fun d =>
        d.notify p.ts (.endOfPkt (msgSeqNum p.buf) d.channel.index) := by
  unfold onRecv opened notify PDPMsgStream.incrementSeqnum
  dsimp only
  rw [if_neg (Nat.not_lt_of_le hwhole), if_neg hnew]
  by_cases hgap : msgSeqNum p.buf > d.channel.expectSeqnum
  · rw [if_pos hgap, if_pos hgap]
    exact Option.map_eq_bind.symm
  · have heq : d.channel.expectSeqnum = msgSeqNum p.buf :=
      UInt32.le_antisymm (UInt32.not_lt.mp hnew) (UInt32.not_lt.mp hgap)
    rw [if_neg hgap, if_neg hgap, heq, List.append_nil]
    exact Option.map_eq_bind.symm

theorem onRecv_runt (hrunt : msgSize p.buf + 2 > p.len) :
    d.onRecv turns p = some d := by
  unfold onRecv
  dsimp only
  rw [if_pos hrunt]

theorem onRecv_stale (hwhole : msgSize p.buf + 2 ≤ p.len)
    (hstale : msgSeqNum p.buf < d.channel.expectSeqnum) :
    d.onRecv turns p = some { d with channel := { d.channel with
      pktCount := d.channel.pktCount + 1 } } := by
  unfold onRecv
  dsimp only
  rw [if_neg (Nat.not_lt_of_le hwhole), if_pos hstale]

/-- A call returns if the packet is stale or its messages fit. -/
theorem exists_onRecv (hp : Plain p)
    (hfits : ¬msgSeqNum p.buf < d.channel.expectSeqnum → p.Fits)
    (hturns : 65536 + p.len ≤ turns) :
    ∃ d', d.onRecv turns p = some d' := by
  by_cases hstale : msgSeqNum p.buf < d.channel.expectSeqnum
  · exact ⟨_, onRecv_stale hp.whole hstale⟩
  · obtain ⟨d', hd'⟩ : ∃ d', handleMessages turns (msgSeqNum p.buf)
        (msgType p.buf) p.buf p.len p.ts turns (d.opened p) messageHeaderSize
        = some d' :=
      exists_handleMessages hp.header (hfits hstale) (by omega) (by omega)
    rw [onRecv_new hp.whole hstale, hd']
    exact ⟨_, rfl⟩

/-- In no number of turns does it return otherwise. -/
theorem fits_of_onRecv (hp : Plain p) (h : d.onRecv turns p = some d')
    (hnew : ¬msgSeqNum p.buf < d.channel.expectSeqnum) : p.Fits := by
  rw [onRecv_new hp.whole hnew] at h
  obtain ⟨d₁, hd₁, -⟩ := Option.map_eq_some_iff.mp h
  intro idx hidx
  exact fits_of_handleMessages hp.there hd₁ hidx

end Packets

-- ================================================================== detector

/-- The decoder's channel and what was told, as a gap detector. -/
def detector (d : Decoder) : GapDetector where
  next := d.channel.expectSeqnum.toNat
  taken := d.processed
  gaps := d.gaps

/-- Notifications that are neither of a packet's beginning nor of a gap. -/
theorem detector_notify {d : Decoder} {ts : Timestamp} {n : Notification}
    (hstart : ∀ seqnum index, n ≠ .startOfPkt seqnum index)
    (hgap : ∀ unit expected received lastTs,
      n ≠ .gap unit expected received lastTs) :
    (d.notify ts n).detector = d.detector := by
  unfold detector processed gaps notify
  rw [List.filterMap_append, List.filterMap_append]
  cases n with
  | startOfPkt seqnum index => exact absurd rfl (hstart seqnum index)
  | gap unit expected received lastTs =>
      exact absurd rfl (hgap unit expected received lastTs)
  | _ => simp

/-- The messages of a packet that is no reset. -/
theorem detector_dispatchMessage {d : Decoder} {type : Option MsgType}
    (h : type ≠ some .sequenceNumberReset) (seqnum : UInt32) (buf : Bytes)
    (idx : Nat) (ts : Timestamp) :
    (d.dispatchMessage seqnum type buf idx ts).2.detector = d.detector := by
  unfold dispatchMessage
  split
  case h_6 => exact absurd rfl h
  case h_12 => rfl
  all_goals exact detector_notify (by rintro _ _ ⟨⟩) (by rintro _ _ _ _ ⟨⟩)

/-- A packet arrives. -/
theorem detector_onRecv {turns : Nat} {p : Packet} (hp : Plain p)
    {d d' : Decoder} (h : d.onRecv turns p = some d') :
    d'.detector = d.detector.arrive (msgSeqNum p.buf).toNat := by
  have hnext := toNat_add_one hp.seqnum
  unfold GapDetector.arrive
  by_cases hlow : msgSeqNum p.buf < d.channel.expectSeqnum
  · have hlow' : (msgSeqNum p.buf).toNat < d.detector.next :=
      UInt32.lt_iff_toNat_lt.mp hlow
    rw [onRecv_stale hp.whole hlow] at h
    rw [if_pos hlow', ← Option.some.inj h]
    rfl
  · have hlow' : ¬(msgSeqNum p.buf).toNat < d.detector.next :=
      fun h => hlow (UInt32.lt_iff_toNat_lt.mpr h)
    rw [onRecv_new hp.whole hlow] at h
    obtain ⟨d₁, hd₁, rfl⟩ := Option.map_eq_some_iff.mp h
    have hsame : d₁.detector = (d.opened p).detector :=
      handleMessages_induction (I := fun x =>
          x.detector = (d.opened p).detector)
        (fun _ _ hx => hx)
        (fun x idx hx =>
          (detector_dispatchMessage hp.noReset ..).trans hx) hd₁ rfl
    rw [if_neg hlow',
      detector_notify (by rintro _ _ ⟨⟩) (by rintro _ _ _ _ ⟨⟩), hsame]
    by_cases hgap : msgSeqNum p.buf > d.channel.expectSeqnum
    · have hgap' : d.detector.next < (msgSeqNum p.buf).toNat :=
        UInt32.lt_iff_toNat_lt.mp hgap
      rw [if_pos hgap']
      unfold detector processed gaps opened
      simp [hnext, hgap]
    · have hgap' : ¬(msgSeqNum p.buf).toNat > d.detector.next :=
        fun h => hgap (UInt32.lt_iff_toNat_lt.mpr h)
      rw [if_neg hgap']
      unfold detector processed gaps opened
      simp [hnext, hgap]

-- ===================================================================== runs

section Runs

variable {turns : Nat} {ps : List Packet} {d d' : Decoder}

/-- The calls for packets, one after another. -/
theorem detector_run (hps : ∀ p ∈ ps, Plain p)
    (h : ps.foldlM (onRecv turns) d = some d') :
    d'.detector = Lib.run GapDetector.arrive d.detector
      (ps.map fun p => (msgSeqNum p.buf).toNat) := by
  induction ps generalizing d with
  | nil =>
      obtain rfl := Option.some.inj h
      rfl
  | cons p ps ih =>
      rw [List.foldlM_cons] at h
      obtain ⟨d₁, hd₁, hrest⟩ := Option.bind_eq_some_iff.mp h
      rw [ih (fun q hq => hps q (List.mem_cons_of_mem p hq)) hrest,
        detector_onRecv (hps p List.mem_cons_self) hd₁]
      rfl

/-- The calls for a packet and those before it. -/
theorem foldlM_concat (turns : Nat) (d : Decoder) (ps : List Packet)
    (p : Packet) :
    (ps ++ [p]).foldlM (onRecv turns) d
      = (ps.foldlM (onRecv turns) d).bind fun d => d.onRecv turns p := by
  rw [List.foldlM_append]
  refine congrArg (Option.bind _) (funext fun d => ?_)
  exact Option.bind_fun_some (d.onRecv turns p)

/-- A packet that comes to a channel is new if its number is not below the
first expected and above those before it. -/
theorem new_iff {channel : PDPMsgStream} (hps : ∀ p ∈ ps, Plain p)
    (h : ps.foldlM (onRecv turns) ⟨channel, []⟩ = some d) (p : Packet) :
    ¬msgSeqNum p.buf < d.channel.expectSeqnum
      ↔ channel.expectSeqnum ≤ msgSeqNum p.buf
        ∧ ∀ q ∈ ps, msgSeqNum q.buf < msgSeqNum p.buf := by
  have hnext : d.channel.expectSeqnum.toNat
      = (Lib.run GapDetector.arrive ⟨channel.expectSeqnum.toNat, [], []⟩
        (ps.map fun p => (msgSeqNum p.buf).toNat)).next :=
    congrArg GapDetector.next (detector_run hps h)
  rw [UInt32.lt_iff_toNat_lt, Nat.not_lt, hnext,
    GapDetector.next_run_le_iff, UInt32.le_iff_toNat_le]
  simp only [List.mem_map, forall_exists_index, and_imp,
    forall_apply_eq_imp_iff₂, UInt32.lt_iff_toNat_lt]

end Runs

/-- The packets that come behind lower ones only have messages that fit. -/
def NewFit (first : UInt32) (ps : List Packet) : Prop :=
  ∀ pre p post, ps = pre ++ p :: post → first ≤ msgSeqNum p.buf →
    (∀ q ∈ pre, msgSeqNum q.buf < msgSeqNum p.buf) → p.Fits

/-- Then every call returns. -/
theorem exists_run {channel : PDPMsgStream} {turns : Nat}
    {ps : List Packet} (hps : ∀ p ∈ ps, Plain p)
    (hturns : ∀ p ∈ ps, 65536 + p.len ≤ turns)
    (h : NewFit channel.expectSeqnum ps) :
    ∃ d, ps.foldlM (onRecv turns) ⟨channel, []⟩ = some d := by
  induction ps using List.reverseRecOn with
  | nil => exact ⟨_, rfl⟩
  | append_singleton ps p ih =>
      have hbefore : ∀ q ∈ ps, Plain q :=
        fun q hq => hps q (List.mem_append_left _ hq)
      have hlast : p ∈ ps ++ [p] :=
        List.mem_append_right _ List.mem_cons_self
      obtain ⟨d, hd⟩ := ih hbefore
        (fun q hq => hturns q (List.mem_append_left _ hq))
        (fun pre q post heq => h pre q (post ++ [p]) (by simp [heq]))
      obtain ⟨d', hd'⟩ := exists_onRecv (hps p hlast) (fun hnew => by
          obtain ⟨hfirst, hall⟩ := (new_iff hbefore hd p).mp hnew
          exact h ps p [] rfl hfirst hall) (hturns p hlast)
      rw [foldlM_concat, hd]
      exact ⟨d', hd'⟩

/-- In no number of turns do they otherwise. -/
theorem newFit_of_run {channel : PDPMsgStream} {turns : Nat}
    {ps : List Packet} (hps : ∀ p ∈ ps, Plain p) {d : Decoder}
    (h : ps.foldlM (onRecv turns) ⟨channel, []⟩ = some d) :
    NewFit channel.expectSeqnum ps := by
  rintro pre p post rfl hfirst hall
  rw [List.foldlM_append] at h
  obtain ⟨before, hbefore, hrest⟩ := Option.bind_eq_some_iff.mp h
  rw [List.foldlM_cons] at hrest
  obtain ⟨after, hafter, -⟩ := Option.bind_eq_some_iff.mp hrest
  have hpre : ∀ q ∈ pre, Plain q :=
    fun q hq => hps q (List.mem_append_left _ hq)
  have hp : Plain p := hps p
    (List.mem_append_right _ List.mem_cons_self)
  exact fits_of_onRecv hp hafter
    ((new_iff hpre hbefore p).mpr ⟨hfirst, hall⟩)

-- =============================================================== sequencing

/-- What the listener of a channel was told of packets: those processed go
up; a packet that is not below the expected number is processed; and the
gaps reported are what lies between the number first expected and the last
processed and was never processed, each number in at most one gap. -/
structure Sequenced (channel : PDPMsgStream) (turns : Nat)
    (ps : List Packet) (d : Decoder) : Prop where
  increasing : d.processed.Pairwise (· < ·)
  complete : ∀ pre p, pre ++ [p] <+: ps →
    ∀ before ∈ pre.foldlM (onRecv turns) ⟨channel, []⟩,
      before.channel.expectSeqnum ≤ msgSeqNum p.buf →
      ∃ after ∈ before.onRecv turns p,
        after.processed = before.processed ++ [(msgSeqNum p.buf).toNat]
  gaps : ∀ n, (∃ g ∈ d.gaps, g.1 ≤ n ∧ n < g.2)
    ↔ channel.expectSeqnum.toNat ≤ n
      ∧ (∃ last, d.processed.getLast? = some last ∧ n ≤ last)
      ∧ n ∉ d.processed
  once : ∀ n, d.gaps.countP (fun g => g.1 ≤ n && n < g.2) ≤ 1

theorem sequenced_of_run {channel : PDPMsgStream} {turns : Nat}
    {ps : List Packet} (hps : ∀ p ∈ ps, Plain p) {d : Decoder}
    (h : ps.foldlM (onRecv turns) ⟨channel, []⟩ = some d) :
    Sequenced channel turns ps d := by
  have hacc := GapDetector.accounted_run channel.expectSeqnum.toNat
    (ps.map fun p => (msgSeqNum p.buf).toNat)
  have hfresh : (⟨channel, []⟩ : Decoder).detector
      = ⟨channel.expectSeqnum.toNat, [], []⟩ := rfl
  have hrun := detector_run hps h
  rw [hfresh] at hrun
  rw [← hrun] at hacc
  refine ⟨hacc.increasing, ?_, fun n => ?_, fun n => ?_⟩
  · rintro pre p ⟨post, rfl⟩ before hbefore hnot
    have hp : Plain p := hps p (by simp)
    rw [List.append_assoc, List.foldlM_append, hbefore] at h
    obtain ⟨after, hafter, -⟩ := Option.bind_eq_some_iff.mp
      (show (before.onRecv turns p).bind _ = some d from h)
    have harrive := detector_onRecv hp hafter
    have hnot' : before.detector.next ≤ (msgSeqNum p.buf).toNat :=
      UInt32.le_iff_toNat_le.mp hnot
    unfold GapDetector.arrive at harrive
    rw [if_neg (Nat.not_lt_of_le hnot')] at harrive
    exact ⟨after, hafter, congrArg GapDetector.taken harrive⟩
  · have hcount := hacc.gaps n
    constructor
    · rintro ⟨g, hg, hge, hlt⟩
      have hpos : 0 < d.detector.gaps.countP (GapDetector.inGap n) := by
        refine List.countP_pos_iff.mpr ⟨g, hg, ?_⟩
        unfold GapDetector.inGap
        rw [decide_eq_true hge, decide_eq_true hlt]
        rfl
      rw [hcount] at hpos
      split at hpos
      case isTrue hmissing =>
        obtain ⟨hfirst, hnext, hnever⟩ := hmissing
        exact ⟨hfirst, hacc.last n hfirst hnext, hnever⟩
      case isFalse => exact absurd hpos (Nat.lt_irrefl 0)
    · rintro ⟨hfirst, ⟨last, hlast, hle⟩, hnever⟩
      have hbelow := (hacc.taken last (List.mem_of_getLast? hlast)).2
      have hmissing : GapDetector.Missing channel.expectSeqnum.toNat n
          d.detector := ⟨hfirst, by omega, hnever⟩
      rw [if_pos hmissing] at hcount
      obtain ⟨g, hg, hin⟩ := List.countP_pos_iff.mp
        (hcount ▸ Nat.one_pos)
      unfold GapDetector.inGap at hin
      rw [Bool.and_eq_true, decide_eq_true_iff, decide_eq_true_iff] at hin
      exact ⟨g, hg, hin⟩
  · refine Nat.le_trans (Nat.le_of_eq (hacc.gaps n)) ?_
    split <;> omega

/-- A channel that gets whole packets without resets, in any order, goes
through all of them, and the listener is told of them in sequence, exactly
if the packets that come behind lower ones only have messages that fit. -/
theorem packets_sequenced_iff (channel : PDPMsgStream) {ps : List Packet}
    (hps : ∀ p ∈ ps, Plain p) :
    (∃ turns, ∃ d ∈ ps.foldlM (onRecv turns) ⟨channel, []⟩,
        Sequenced channel turns ps d)
      ↔ NewFit channel.expectSeqnum ps := by
  constructor
  · rintro ⟨turns, d, hd, -⟩
    exact newFit_of_run hps hd
  · intro hfits
    have hturns : ∀ p ∈ ps,
        65536 + p.len ≤ 65536 + (ps.map Packet.len).sum :=
      fun p hp => Nat.add_le_add_left
        (List.le_sum_of_mem (List.mem_map_of_mem hp)) _
    obtain ⟨d, hd⟩ := exists_run hps hturns hfits
    exact ⟨_, d, hd, sequenced_of_run hps hd⟩

/-- Heartbeats with the numbers 5, 9, 7, 9 and 12, when 4 is expected. -/
theorem packets_sequenced_iff_demo :
    let channel : PDPMsgStream := ⟨0, 4, 0, 0, 0⟩
    let packet : UInt8 → Packet := fun n =>
      ⟨0, [0, 14, 0, 2, 0, 0, 0, n, 0, 0, 0, 0, 115, 1, 1, 0], 16⟩
    let ps := [packet 5, packet 9, packet 7, packet 9, packet 12]
    ∃ turns, ∃ d ∈ ps.foldlM (onRecv turns) ⟨channel, []⟩,
      Sequenced channel turns ps d := by
  intro channel packet ps
  refine (packets_sequenced_iff channel (by decide)).mpr ?_
  intro pre p post hps _ _
  have hlen : ∀ q ∈ ps, q.len ≤ messageHeaderSize := by decide
  exact Packet.fits_of_header (hlen p (by rw [hps]; simp))

/-- A full update that claims four bytes, and a heartbeat after it: the
call for the first does not return, and the channel gets no further. -/
theorem undersized_update_ends_channel :
    ¬ ∀ (channel : PDPMsgStream) (ps : List Packet),
      (∀ p ∈ ps, Plain p) →
      ∃ turns, ∃ d ∈ ps.foldlM (onRecv turns) ⟨channel, []⟩,
        Sequenced channel turns ps d := by
  intro h
  let update : Packet :=
    ⟨0, [0, 18, 0, 230, 0, 0, 0, 1, 0, 0, 0, 0, 115, 1, 1, 0,
      0, 4, 0, 0], 20⟩
  let heartbeat : Packet :=
    ⟨0, [0, 14, 0, 2, 0, 0, 0, 2, 0, 0, 0, 0, 115, 1, 1, 0], 16⟩
  obtain ⟨turns, d, hd, -⟩ := h ⟨0, 1, 0, 0, 0⟩ [update, heartbeat]
    (by decide)
  have hfits := newFit_of_run (by decide) hd [] update [heartbeat] rfl
    (by decide) (by simp) messageHeaderSize (messageAt_start (by decide))
  exact absurd (hfits.1.1 (by decide)) (by decide)

end Decoder

end TradingEngine.MD.PDP
