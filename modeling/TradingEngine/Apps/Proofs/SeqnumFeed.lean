/-
A sequence log of a feed accounts for the numbers of its channels.

# Calls

A packet that is processed is one gap record, if it leaves a gap, and one
record of its number: the listener begins to count at the number of the
packet, and ends there (`calls_onRecv`). The loop at the end of a packet
(`onEndOfPkt`) compares numbers of 64 bits, so it comes to an end for every
number of a packet, which has 32 (`onEndOfPkt_eq`).

# Channels

The channels share one listener, and with it `m_seqnum`; but the start of a
packet sets that before anything reads it, so what one channel has left there
does not reach another. The records of a channel are then what its gap
detector takes and reports, whatever comes in between for the other channels
(`detector_run`), and the detector's account of its numbers is the log's
(`countP_accounts`).

# Ends

The decoder may not end on a packet (`Decoder.onRecv`). A feed goes through
its input if every packet is `Orderly`: runts are dropped before anything in
them is read, and the messages of any other fit what can be read behind them.
A packet on which the decoder does not end is the last of the feed, and
nothing is said of a log behind it. The file has room for all that is
recorded, and is then read back as it was written (`feed_log_read_back`).
-/
import TradingEngine.Apps.SeqnumFeed
import TradingEngine.Apps.Proofs.SeqnumCap
import TradingEngine.MD.Proofs.PDPDecoder

namespace TradingEngine.Apps.SeqnumCap

open MD.PDP (Decoder Notification PDPMsgStream msgSize msgSeqNum msgType)
open MD.PDP.Decoder (Packet)
open Lib (GapDetector)

-- ================================================================== listener

/-- The loop calls for the numbers from `m_seqnum` on, in their order, and
comes to an end in so many turns, but for the largest number there is. -/
theorem onEndOfPkt_eq {ts : OE.Timestamp} {seqnum : UInt64}
    {index : UInt32} (h : seqnum.toNat < 18446744073709551615) :
    ∀ {turns : Nat} {mSeqnum : UInt64},
      seqnum.toNat + 1 - mSeqnum.toNat ≤ turns →
      (onEndOfPkt ts seqnum index turns mSeqnum).2
        = (List.range' mSeqnum.toNat
          (seqnum.toNat + 1 - mSeqnum.toNat)).map
            fun n => .onSeqnum ts (UInt64.ofNat n) index := by
  intro turns
  induction turns with
  | zero =>
      intro mSeqnum hturns
      rw [Nat.le_zero.mp hturns]
      rfl
  | succ turns ih =>
      intro mSeqnum hturns
      unfold onEndOfPkt
      by_cases hle : mSeqnum ≤ seqnum
      · have hle' := UInt64.le_iff_toNat_le.mp hle
        have hsucc : (mSeqnum + 1).toNat = mSeqnum.toNat + 1 := by
          rw [UInt64.toNat_add]
          exact Nat.mod_eq_of_lt (by
            have hone : (1 : UInt64).toNat = 1 := rfl
            omega)
        have hcount : seqnum.toNat + 1 - mSeqnum.toNat
            = (seqnum.toNat + 1 - (mSeqnum + 1).toNat) + 1 := by omega
        rw [if_pos hle]
        dsimp only
        rw [ih (by omega), hcount, List.range'_succ, List.map_cons, hsucc,
          UInt64.ofNat_toNat]
      · have hlt : seqnum.toNat < mSeqnum.toNat :=
          Nat.lt_of_not_le fun hle' => hle (UInt64.le_iff_toNat_le.mpr hle')
        have hnone : seqnum.toNat + 1 - mSeqnum.toNat = 0 := by omega
        rw [if_neg hle, hnone]
        rfl

/-- From its own number the loop makes one turn. -/
theorem onEndOfPkt_self (ts : OE.Timestamp) (seqnum : UInt32)
    (index : UInt32) (turns : Nat) :
    (onEndOfPkt ts seqnum.toUInt64 index (turns + 1) seqnum.toUInt64).2
      = [.onSeqnum ts seqnum.toUInt64 index] := by
  have hnat : seqnum.toUInt64.toNat = seqnum.toNat := rfl
  have hlt := seqnum.toNat_lt
  have hone : seqnum.toUInt64.toNat + 1 - seqnum.toUInt64.toNat = 1 := by
    omega
  rw [onEndOfPkt_eq (by omega) (by omega), hone, List.range'_one,
    List.map_singleton, UInt64.ofNat_toNat]

-- ============================================================ notifications

/-- The calls for notifications, one after another. -/
def calls (mSeqnum : UInt64) :
    List (MD.PDP.Timestamp × Notification) → UInt64 × List Event
  | [] => (mSeqnum, [])
  | n :: ns =>
      let r := onRawMsg mSeqnum n.1 n.2
      ((calls r.1 ns).1, r.2 ++ (calls r.1 ns).2)

/-- The calls of the listener, message by message. -/
theorem calls_cons (mSeqnum : UInt64) (n : MD.PDP.Timestamp × Notification)
    (ns : List (MD.PDP.Timestamp × Notification)) :
    calls mSeqnum (n :: ns)
      = ((calls (onRawMsg mSeqnum n.1 n.2).1 ns).1,
        (onRawMsg mSeqnum n.1 n.2).2
          ++ (calls (onRawMsg mSeqnum n.1 n.2).1 ns).2) := rfl

/-- Over two packets. -/
theorem calls_append (mSeqnum : UInt64)
    (ns ns' : List (MD.PDP.Timestamp × Notification)) :
    calls mSeqnum (ns ++ ns')
      = ((calls (calls mSeqnum ns).1 ns').1,
        (calls mSeqnum ns).2 ++ (calls (calls mSeqnum ns).1 ns').2) := by
  induction ns generalizing mSeqnum with
  | nil => rfl
  | cons n ns ih =>
      rw [List.cons_append, calls_cons, ih, calls_cons, List.append_assoc]

/-- The listener makes no call, and its number stays. -/
def Quiet (n : Notification) : Prop :=
  ∀ mSeqnum t, onRawMsg mSeqnum t n = (mSeqnum, [])

/-- Most messages are not for the listener. -/
theorem calls_of_quiet {ns : List (MD.PDP.Timestamp × Notification)}
    (h : ∀ n ∈ ns, Quiet n.2) (mSeqnum : UInt64) :
    calls mSeqnum ns = (mSeqnum, []) := by
  induction ns with
  | nil => rfl
  | cons n ns ih =>
      rw [calls_cons, h n List.mem_cons_self]
      exact ih fun n' hn' => h n' (List.mem_cons_of_mem n hn')

/-- The messages of a packet are nothing to the listener. -/
theorem notified_handleMessages {points turns start len : Nat}
    {d d' : Decoder} {seqnum : UInt32} {type : Option MD.PDP.MsgType}
    {buf : MD.PDP.Bytes} {ts : MD.PDP.Timestamp}
    (h : Decoder.handleMessages points seqnum type buf len ts turns d start
      = some d') :
    ∃ ns, d'.notified = d.notified ++ ns ∧ ∀ n ∈ ns, Quiet n.2 := by
  have hone (x : Decoder) (idx : Nat) :
      ∃ ns, (x.dispatchMessage seqnum type buf idx ts).2.notified
          = x.notified ++ ns
        ∧ ∀ n ∈ ns, Quiet n.2 := by
    unfold Decoder.dispatchMessage
    split
    case h_12 => exact ⟨[], (List.append_nil _).symm, by simp⟩
    all_goals
      refine ⟨[(ts, _)], rfl, fun n hn => ?_⟩
      rw [List.mem_singleton.mp hn]
      exact fun _ _ => rfl
  refine Decoder.handleMessages_induction
    (I := fun x => ∃ ns, x.notified = d.notified ++ ns
      ∧ ∀ n ∈ ns, Quiet n.2) (fun _ _ hx => hx) ?_ h
    ⟨[], (List.append_nil _).symm, by simp⟩
  rintro x idx ⟨ns, hns, hquiet⟩
  obtain ⟨ns', hns', hquiet'⟩ := hone x idx
  rw [hns, List.append_assoc] at hns'
  refine ⟨ns ++ ns', hns', fun n hn => ?_⟩
  rcases List.mem_append.mp hn with hn | hn
  · exact hquiet n hn
  · exact hquiet' n hn

/-- A packet is a call for its number, after those for what comes before. -/
theorem calls_packet {before ns : List (MD.PDP.Timestamp × Notification)}
    (h : ∀ n ∈ ns, Quiet n.2) (mSeqnum : UInt64) (t : MD.PDP.Timestamp)
    (seqnum : UInt32) (index : Nat) :
    (calls mSeqnum (before ++ [(t, .startOfPkt seqnum index)] ++ ns
        ++ [(t, .endOfPkt seqnum index)])).2
      = (calls mSeqnum before).2
        ++ [.onSeqnum (stamp t) seqnum.toUInt64 (UInt32.ofNat index)] := by
  simp only [calls_append, calls_of_quiet h, calls, onRawMsg,
    onEndOfPkt_self, List.append_nil]

/-- What is recorded of a packet on a channel. -/
def eventsOf (u : PDPMsgStream) (p : Packet) : List Event :=
  if msgSize p.buf + 2 > p.len ∨ msgSeqNum p.buf < u.expectSeqnum then []
  else
    (if msgSeqNum p.buf > u.expectSeqnum then
      [.onGap (stamp p.ts) 0 0 (UInt8.ofNat (u.index % 256))
        u.expectSeqnum.toUInt64 (msgSeqNum p.buf).toUInt64
        (stamp u.timestamp)]
    else [])
      ++ [.onSeqnum (stamp p.ts) (msgSeqNum p.buf).toUInt64
        (UInt32.ofNat u.index)]

/-- The calls that `on_recv` brings about. -/
theorem calls_onRecv {turns : Nat} {u : PDPMsgStream} {p : Packet}
    {d : Decoder} (h : Decoder.onRecv turns ⟨u, []⟩ p = some d)
    (mSeqnum : UInt64) :
    (calls mSeqnum d.notified).2 = eventsOf u p := by
  unfold eventsOf
  by_cases hrunt : msgSize p.buf + 2 > p.len
  · rw [Decoder.onRecv_runt hrunt] at h
    rw [if_pos (.inl hrunt), ← Option.some.inj h]
    rfl
  have hwhole : msgSize p.buf + 2 ≤ p.len := Nat.le_of_not_lt hrunt
  by_cases hlow : msgSeqNum p.buf < u.expectSeqnum
  · rw [Decoder.onRecv_stale hwhole hlow] at h
    rw [if_pos (.inr hlow), ← Option.some.inj h]
    rfl
  rw [if_neg (not_or.mpr ⟨hrunt, hlow⟩)]
  have hindex := index_onRecv h
  rw [Decoder.onRecv_new hwhole hlow] at h
  obtain ⟨d₁, hd₁, rfl⟩ := Option.map_eq_some_iff.mp h
  obtain ⟨ns, hns, hquiet⟩ := notified_handleMessages hd₁
  have hindex₁ : d₁.channel.index = u.index := hindex
  unfold Decoder.notify
  dsimp only
  rw [hns, hindex₁]
  unfold Decoder.opened
  dsimp only
  rw [calls_packet hquiet]
  by_cases hgap : msgSeqNum p.buf > u.expectSeqnum
  · rw [if_pos hgap, if_pos hgap]
    rfl
  · rw [if_neg hgap, if_neg hgap]
    rfl

-- ===================================================================== steps

/-- A channel has been silent for its timeout. -/
def UnitState.late (u : UnitState) (t : MD.PDP.Timestamp) : Bool :=
  ((stamp t).sub (stamp u.timestamp)).ge u.dataTimeout

/-- What is recorded of a timer. -/
def timeoutOf (u : UnitState) (t : MD.PDP.Timestamp) : List Event :=
  if u.late t = u.inDataTimeout then []
  else [.onTimeout (stamp t) (u.late t) (UInt8.ofNat u.index)
    (stamp u.timestamp)]

namespace Feed

/-- The channel of an input. -/
def Input.channel : Input → Fin maxChannels
  | .packet i _ => i
  | .timer i _ => i

/-- The channel after it. -/
def Input.leaves (turns : Nat) (u : UnitState) : Input → Option UnitState
  | .packet _ p =>
      (Decoder.onRecv turns ⟨u.toPDPMsgStream, []⟩ p).map fun d =>
        { u with toPDPMsgStream := d.channel }
  | .timer _ t => some { u with inDataTimeout := u.late t }

/-- What is recorded of it. -/
def Input.events (u : UnitState) : Input → List Event
  | .packet _ p => eventsOf u.toPDPMsgStream p
  | .timer _ t => timeoutOf u t

/-- Notifications go to the log as the listener's calls. -/
theorem run_notify (ns : List (MD.PDP.Timestamp × Notification))
    (f : Feed) :
    Lib.run (fun f n => f.notify n.1 n.2) f ns
      = { f with
          mSeqnum := (calls f.mSeqnum ns).1
          log := Lib.run SeqnumLog.step f.log (calls f.mSeqnum ns).2 } := by
  induction ns generalizing f with
  | nil => rfl
  | cons n ns ih =>
      rw [Lib.run_cons, ih, calls_cons, Lib.run_append]
      rfl

/-- An input changes its channel, and the log by what is recorded of it. -/
theorem step_eq {turns : Nat} {f f' : Feed} {x : Input}
    (h : f.step turns x = some f') :
    f'.log = Lib.run SeqnumLog.step f.log (x.events (f.streams x.channel))
      ∧ ∃ u, x.leaves turns (f.streams x.channel) = some u
        ∧ f'.streams = Function.update f.streams x.channel u := by
  cases x with
  | packet i p =>
      unfold step onRecv at h
      dsimp only at h
      split at h
      case h_1 => cases h
      case h_2 d hd =>
        rw [run_notify] at h
        unfold setStream at h
        dsimp only at h
        rw [calls_onRecv hd] at h
        rw [← Option.some.inj h]
        refine ⟨rfl, { f.streams i with toPDPMsgStream := d.channel }, ?_,
          rfl⟩
        unfold Input.leaves
        dsimp only [Input.channel]
        rw [hd]
        rfl
  | timer i t =>
      have hsame : Function.update f.streams i
          { f.streams i with inDataTimeout := (f.streams i).inDataTimeout }
          = f.streams := Function.update_eq_self i f.streams
      rw [← Option.some.inj h]
      suffices hboth : (f.onTimer i t).log = Lib.run SeqnumLog.step f.log
            (timeoutOf (f.streams i) t)
          ∧ (f.onTimer i t).streams = Function.update f.streams i
            { f.streams i with
              inDataTimeout := (f.streams i).late t } from
        ⟨hboth.1, _, rfl, hboth.2⟩
      unfold onTimer timeoutOf
      dsimp only
      change (if (f.streams i).late t = true then _ else _ : Feed).log = _
        ∧ (if (f.streams i).late t = true then _ else _ : Feed).streams = _
      cases hlate : (f.streams i).late t <;>
        cases htimeout : (f.streams i).inDataTimeout
      · rw [htimeout] at hsame
        exact ⟨rfl, hsame.symm⟩
      · exact ⟨rfl, rfl⟩
      · exact ⟨rfl, rfl⟩
      · rw [htimeout] at hsame
        exact ⟨rfl, hsame.symm⟩

-- ======================================================================= log

/-- What is recorded of inputs, one after another. -/
def events (turns : Nat) (f : Feed) : List Input → List Event
  | [] => []
  | x :: xs =>
      x.events (f.streams x.channel)
        ++ (f.step turns x).elim [] fun f' => events turns f' xs

/-- The records of a packet and of those behind it. -/
theorem events_cons {turns : Nat} {f f' : Feed} {x : Input}
    (h : f.step turns x = some f') (xs : List Input) :
    f.events turns (x :: xs)
      = x.events (f.streams x.channel) ++ f'.events turns xs := by
  rw [events, h]
  rfl

/-- The log of a feed is the log of its records. -/
theorem log_run {turns : Nat} {f f' : Feed} {xs : List Input}
    (h : xs.foldlM (step turns) f = some f') :
    f'.log = Lib.run SeqnumLog.step f.log (f.events turns xs) := by
  induction xs generalizing f with
  | nil =>
      rw [← Option.some.inj h]
      rfl
  | cons x xs ih =>
      rw [List.foldlM_cons] at h
      obtain ⟨f₁, hf₁, hrest⟩ := Option.bind_eq_some_iff.mp h
      rw [ih hrest, (step_eq hf₁).1, events_cons hf₁, Lib.run_append]

/-- `sizeof` of a `GapEvent` and a `SeqnumEvent`: no input is recorded in
more. -/
def recordedMost : Nat := 93

/-- The bytes of events. -/
def bytesOf (es : List Event) : Nat := (es.map fun e => e.size.toNat).sum

/-- A packet is recorded in a few bytes. -/
theorem bytesOf_events_le (u : UnitState) (x : Input) :
    bytesOf (x.events u) ≤ recordedMost := by
  cases x with
  | packet i p =>
      unfold Input.events eventsOf
      dsimp only
      split
      · exact Nat.zero_le _
      split
      · exact Nat.le_refl 93
      · show 33 ≤ 93
        omega
  | timer i t =>
      unfold Input.events timeoutOf
      dsimp only
      split
      · exact Nat.zero_le _
      · show 39 ≤ 93
        omega

/-- And a feed in as many times that. -/
theorem bytesOf_events_run_le (turns : Nat) (f : Feed) (xs : List Input) :
    bytesOf (f.events turns xs) ≤ recordedMost * xs.length := by
  induction xs generalizing f with
  | nil => exact Nat.zero_le _
  | cons x xs ih =>
      have hx := bytesOf_events_le (f.streams x.channel) x
      have hxs : bytesOf ((f.step turns x).elim [] fun f' =>
          f'.events turns xs) ≤ recordedMost * xs.length := by
        cases f.step turns x with
        | none => exact Nat.zero_le _
        | some f' => exact ih f'
      rw [events]
      unfold bytesOf at *
      rw [List.map_append, List.sum_append, List.length_cons, Nat.mul_succ]
      omega

end Feed

/-- With room for them all, events are written, behind those before. -/
theorem Good.run {log : SeqnumLog} (h : Good log) (es : List Event)
    (hroom : log.file.counter.toNat + Feed.bytesOf es
      < log.file.capacity.toNat) :
    Good (Lib.run SeqnumLog.step log es)
      ∧ (Lib.run SeqnumLog.step log es).written = log.written ++ es := by
  induction es generalizing log with
  | nil => exact ⟨h, (List.append_nil _).symm⟩
  | cons e es ih =>
      have hsum : Feed.bytesOf (e :: es)
          = e.size.toNat + Feed.bytesOf es := List.sum_cons
      have hfits : Fits log e := by
        unfold Fits
        omega
      obtain ⟨hcounter, hcapacity, hrest⟩ := h.step_cases e
      rw [if_pos hfits] at hrest
      obtain ⟨hgood, hwritten⟩ := ih (h.step hfits) (by
        rw [hcounter, hcapacity]
        omega)
      refine ⟨hgood, ?_⟩
      rw [Lib.run_cons, hwritten, hrest.1, List.append_assoc]
      rfl

/-- A log with an event in it is read back. -/
theorem Good.exact {log : SeqnumLog} (h : Good log)
    (hsome : log.written ≠ []) : Exact log.file log.written := by
  have hwhole : fileHeaderSize < log.file.counter.toNat := by
    cases hwritten : log.written with
    | nil => exact absurd hwritten hsome
    | cons e es =>
        have hlaid := h.laid
        rw [hwritten] at hlaid
        have hle := hlaid.2.le
        have hsize := e.size_bounds.1
        unfold eventHeaderSize at hsize
        omega
  unfold Exact
  rw [begin_whole hwhole]
  exact ⟨_, exact_of_laid hwhole h.laid⟩

-- =================================================================== records

namespace Event

/-- The number that an event records for a channel. -/
def seqnumOf (i : Fin maxChannels) : Event → Option Nat
  | onSeqnum _ seqnum index =>
      if index.toNat = i.val then some seqnum.toNat else none
  | _ => none

/-- The gap that it records, up to the number received. -/
def gapOf (i : Fin maxChannels) : Event → Option (Nat × Nat)
  | onGap _ _ _ unit expected received _ =>
      if unit.toNat = i.val then some (expected.toNat, received.toNat)
      else none
  | _ => none

/-- The timeout that it records: begun, or over. -/
def timeoutOf (i : Fin maxChannels) : Event → Option Bool
  | onTimeout _ started unit _ =>
      if unit.toNat = i.val then some started else none
  | _ => none

/-- It records a number of a channel, as received or as missing. -/
def accounts (i : Fin maxChannels) (n : Nat) (e : Event) : Bool :=
  e.seqnumOf i == some n || (e.gapOf i).any (GapDetector.inGap n)

end Event

/-- Of some events, those that record a number: what is received, and what
is in a gap. -/
theorem countP_accounts (i : Fin maxChannels) (n : Nat) (es : List Event) :
    es.countP (Event.accounts i n)
      = (es.filterMap (Event.seqnumOf i)).count n
        + (es.filterMap (Event.gapOf i)).countP (GapDetector.inGap n) := by
  have hone (e : Event) : (if e.accounts i n then 1 else 0)
      = (if e.seqnumOf i == some n then 1 else 0)
        + if ((e.gapOf i).map (GapDetector.inGap n)).getD false then 1
          else 0 := by
    unfold Event.accounts
    cases e with
    | onSeqnum ts seqnum index => simp [Event.gapOf]
    | onGap ts addr port unit expected received lastTs =>
        cases (Event.onGap ts addr port unit expected received lastTs).gapOf
          i <;> simp [Event.seqnumOf]
    | onTimeout ts started unit lastTs => rfl
  rw [List.count_filterMap, List.countP_filterMap]
  induction es with
  | nil => rfl
  | cons e es ih =>
      rw [List.countP_cons, List.countP_cons, List.countP_cons, ih, hone]
      omega

namespace Feed

-- ================================================================== channels

/-- Packets that are not cut off are neither resets nor the last there can
be, and their messages fit. -/
def Input.Orderly : Input → Prop
  | .packet _ p => msgSize p.buf + 2 ≤ p.len → Decoder.Plain p ∧ p.Fits
  | .timer .. => True

/-- A packet that is all header. -/
theorem Input.orderly_of_header {p : Packet} (hp : Decoder.Plain p)
    (hlen : p.len ≤ MD.PDP.messageHeaderSize) (i : Fin maxChannels) :
    (Input.packet i p).Orderly :=
  fun _ => ⟨hp, Packet.fits_of_header hlen⟩

/-- Turns that are enough for the loops of an input. -/
def Input.turns : Input → Nat
  | .packet _ p => 65536 + p.len
  | .timer .. => 0

/-- The number that comes in on a channel. -/
def Input.arrival (i : Fin maxChannels) : Input → Option Nat
  | .packet j p =>
      if j = i ∧ msgSize p.buf + 2 ≤ p.len then
        some (msgSeqNum p.buf).toNat
      else none
  | .timer .. => none

/-- A channel, with numbers and gaps recorded of it. -/
def detector (u : UnitState) (taken : List Nat) (gaps : List (Nat × Nat)) :
    GapDetector where
  next := u.expectSeqnum.toNat
  taken
  gaps

/-- An index is stored as it is. -/
theorem toNat_index (i : Fin maxChannels) :
    (UInt32.ofNat i.val).toNat = i.val
      ∧ (UInt8.ofNat (i.val % 256)).toNat = i.val := by
  have hlt : i.val < 256 := i.isLt
  refine ⟨UInt32.toNat_ofNat_of_lt' (Nat.lt_trans hlt (by decide)), ?_⟩
  rw [Nat.mod_eq_of_lt hlt]
  exact UInt8.toNat_ofNat_of_lt' hlt

/-- What a channel's packet records, for any channel. -/
theorem records_eventsOf {u : PDPMsgStream} {j : Fin maxChannels}
    (hu : u.index = j.val) (p : Packet) (i : Fin maxChannels) :
    (eventsOf u p).filterMap (Event.seqnumOf i)
        = (if (msgSize p.buf + 2 > p.len ∨ msgSeqNum p.buf < u.expectSeqnum)
            ∨ j ≠ i then []
          else [(msgSeqNum p.buf).toNat])
      ∧ (eventsOf u p).filterMap (Event.gapOf i)
        = (if (msgSize p.buf + 2 > p.len ∨ msgSeqNum p.buf < u.expectSeqnum)
            ∨ j ≠ i ∨ ¬msgSeqNum p.buf > u.expectSeqnum then []
          else [(u.expectSeqnum.toNat, (msgSeqNum p.buf).toNat)])
      ∧ (eventsOf u p).filterMap (Event.timeoutOf i) = [] := by
  obtain ⟨hindex, hunit⟩ := toNat_index j
  unfold eventsOf
  rw [hu]
  by_cases hdrop : msgSize p.buf + 2 > p.len
      ∨ msgSeqNum p.buf < u.expectSeqnum
  · rw [if_pos hdrop, if_pos (.inl hdrop), if_pos (.inl hdrop)]
    exact ⟨rfl, rfl, rfl⟩
  rw [if_neg hdrop]
  by_cases hgap : msgSeqNum p.buf > u.expectSeqnum <;>
    by_cases hj : j = i
  · subst hj
    simp [hdrop, hgap, List.filterMap_cons, Event.seqnumOf, Event.gapOf,
      Event.timeoutOf, hindex, hunit]
  · have hval : j.val ≠ i.val := fun h => hj (Fin.ext h)
    simp [hdrop, hgap, Event.seqnumOf, Event.gapOf, Event.timeoutOf, hindex,
      hunit, hj, hval]
  · subst hj
    simp [hdrop, hgap, Event.seqnumOf, Event.gapOf, Event.timeoutOf, hindex]
  · have hval : j.val ≠ i.val := fun h => hj (Fin.ext h)
    simp [hdrop, hgap, Event.seqnumOf, Event.gapOf, Event.timeoutOf, hindex,
      hj, hval]

/-- What a channel's timer records, for any channel. -/
theorem records_timeoutOf {u : UnitState} {j : Fin maxChannels}
    (hu : u.index = j.val) (t : MD.PDP.Timestamp) (i : Fin maxChannels) :
    (timeoutOf u t).filterMap (Event.seqnumOf i) = []
      ∧ (timeoutOf u t).filterMap (Event.gapOf i) = []
      ∧ (timeoutOf u t).filterMap (Event.timeoutOf i)
        = if u.late t = u.inDataTimeout ∨ j ≠ i then [] else [u.late t] := by
  unfold timeoutOf
  rw [hu]
  by_cases hsame : u.late t = u.inDataTimeout
  · rw [if_pos hsame, if_pos (.inl hsame)]
    exact ⟨rfl, rfl, rfl⟩
  · by_cases hj : j = i
    · subst hj
      simp [hsame, Event.seqnumOf, Event.gapOf, Event.timeoutOf]
    · have hval : j.val ≠ i.val := fun h => hj (Fin.ext h)
      simp [hsame, Event.seqnumOf, Event.gapOf, Event.timeoutOf, hj, hval]

/-- Records of a channel are of its inputs. -/
theorem records_of_ne {u : UnitState} {x : Input}
    (hu : u.index = x.channel.val) {i : Fin maxChannels}
    (hne : x.channel ≠ i) :
    (x.events u).filterMap (Event.seqnumOf i) = []
      ∧ (x.events u).filterMap (Event.gapOf i) = []
      ∧ (x.events u).filterMap (Event.timeoutOf i) = [] := by
  cases x with
  | packet j p =>
      obtain ⟨hseq, hgap, htimeout⟩ := records_eventsOf hu p i
      rw [if_pos (.inr hne)] at hseq
      rw [if_pos (.inr (.inl hne))] at hgap
      exact ⟨hseq, hgap, htimeout⟩
  | timer j t =>
      obtain ⟨hseq, hgap, htimeout⟩ := records_timeoutOf hu t i
      rw [if_pos (.inr hne)] at htimeout
      exact ⟨hseq, hgap, htimeout⟩

/-- An input of a channel is an arrival at its detector. -/
theorem detector_events {turns : Nat} {u u' : UnitState} {x : Input}
    (hx : x.Orderly) (hleaves : x.leaves turns u = some u')
    {i : Fin maxChannels} (hu : u.index = i.val) (hi : x.channel = i)
    (taken : List Nat) (gaps : List (Nat × Nat)) :
    detector u'
        (taken ++ (x.events u).filterMap (Event.seqnumOf i))
        (gaps ++ (x.events u).filterMap (Event.gapOf i))
      = Lib.run GapDetector.arrive (detector u taken gaps)
        (x.arrival i).toList := by
  cases x with
  | timer j t =>
      obtain ⟨hseq, hgap, -⟩ := records_timeoutOf hu t i
      rw [← Option.some.inj hleaves]
      change detector _ (taken ++ (timeoutOf u t).filterMap _)
        (gaps ++ (timeoutOf u t).filterMap _) = detector u taken gaps
      rw [hseq, hgap, List.append_nil, List.append_nil]
      rfl
  | packet j p =>
      obtain ⟨hseq, hgap, -⟩ := records_eventsOf hu p i
      obtain ⟨d, hd, rfl⟩ := Option.map_eq_some_iff.mp hleaves
      change detector _ (taken ++ (eventsOf u.toPDPMsgStream p).filterMap _)
        (gaps ++ (eventsOf u.toPDPMsgStream p).filterMap _) = _
      rw [hseq, hgap]
      by_cases hwhole : msgSize p.buf + 2 ≤ p.len
      · have harrives : (Input.packet j p).arrival i
            = some (msgSeqNum p.buf).toNat := if_pos ⟨hi, hwhole⟩
        obtain ⟨hplain, -⟩ := hx hwhole
        have hnext : d.channel.expectSeqnum.toNat
            = (GapDetector.arrive ⟨u.expectSeqnum.toNat, [], []⟩
              (msgSeqNum p.buf).toNat).next :=
          congrArg GapDetector.next (Decoder.detector_onRecv hplain hd)
        rw [harrives, Option.toList_some, Lib.run_cons, Lib.run_nil]
        unfold detector
        rw [hnext]
        unfold GapDetector.arrive
        dsimp only
        by_cases hlow : msgSeqNum p.buf < u.expectSeqnum
        · have hlow' := UInt32.lt_iff_toNat_lt.mp hlow
          simp [hlow, hlow']
        · have hlow' : ¬(msgSeqNum p.buf).toNat < u.expectSeqnum.toNat :=
            fun h => hlow (UInt32.lt_iff_toNat_lt.mpr h)
          have hrunt : ¬msgSize p.buf + 2 > p.len := by omega
          by_cases hgap : msgSeqNum p.buf > u.expectSeqnum
          · have hgap' := UInt32.lt_iff_toNat_lt.mp hgap
            simp [hlow, hlow', hrunt, hgap, hgap']
          · have hgap' : ¬u.expectSeqnum.toNat < (msgSeqNum p.buf).toNat :=
              fun h => hgap (UInt32.lt_iff_toNat_lt.mpr h)
            simp [hlow, hlow', hrunt, hgap, hgap']
      · have hnone : (Input.packet j p).arrival i = none :=
          if_neg fun h => hwhole h.2
        have hrunt : msgSize p.buf + 2 > p.len := by omega
        rw [Decoder.onRecv_runt hrunt] at hd
        rw [hnone, if_pos (.inl (.inl hrunt)), if_pos (.inl (.inl hrunt)),
          ← Option.some.inj hd, List.append_nil, List.append_nil]
        rfl

-- ====================================================================== runs

/-- A packet moves its own channel. -/
theorem streams_step {turns : Nat} {f f' : Feed} {x : Input}
    (h : f.step turns x = some f') (i : Fin maxChannels) :
    (x.channel = i →
        x.leaves turns (f.streams i) = some (f'.streams i))
      ∧ (x.channel ≠ i → f'.streams i = f.streams i) := by
  obtain ⟨-, u, hu, hstreams⟩ := step_eq h
  rw [hstreams]
  refine ⟨?_, fun hne => Function.update_of_ne (Ne.symm hne) ..⟩
  rintro rfl
  rw [Function.update_self, hu]

/-- The inputs of a channel are arrivals at its detector; the others are
nothing to it. -/
theorem detector_run {turns : Nat} {xs : List Input}
    (hxs : ∀ x ∈ xs, x.Orderly) (i : Fin maxChannels) {f f' : Feed}
    (h : xs.foldlM (step turns) f = some f') (taken : List Nat)
    (gaps : List (Nat × Nat)) :
    detector (f'.streams i)
        (taken ++ (f.events turns xs).filterMap (Event.seqnumOf i))
        (gaps ++ (f.events turns xs).filterMap (Event.gapOf i))
      = Lib.run GapDetector.arrive (detector (f.streams i) taken gaps)
        (xs.filterMap (Input.arrival i)) := by
  induction xs generalizing f taken gaps with
  | nil =>
      rw [← Option.some.inj h]
      change detector (f.streams i) (taken ++ []) (gaps ++ []) = _
      rw [List.append_nil, List.append_nil]
      rfl
  | cons x xs ih =>
      have hx := hxs x List.mem_cons_self
      have htail : (x :: xs).filterMap (Input.arrival i)
          = (x.arrival i).toList ++ xs.filterMap (Input.arrival i) := by
        cases harrival : x.arrival i with
        | none => rw [List.filterMap_cons_none harrival]; rfl
        | some n => rw [List.filterMap_cons_some harrival]; rfl
      rw [List.foldlM_cons] at h
      obtain ⟨f₁, hf₁, hrest⟩ := Option.bind_eq_some_iff.mp h
      obtain ⟨hown, hother⟩ := streams_step hf₁ i
      rw [events_cons hf₁, List.filterMap_append,
        List.filterMap_append, ← List.append_assoc, ← List.append_assoc,
        ih (fun y hy => hxs y (List.mem_cons_of_mem x hy)) hrest, htail,
        Lib.run_append]
      by_cases hi : x.channel = i
      · rw [← detector_events hx (hown hi) (f.indexed i) hi, hi]
      · obtain ⟨hseq, hgap, -⟩ := records_of_ne (f.indexed x.channel) hi
        have hnone : x.arrival i = none := by
          cases x with
          | packet j p => exact if_neg fun h => hi h.1
          | timer j t => rfl
        rw [hother hi, hseq, hgap, hnone, List.append_nil, List.append_nil]
        rfl

/-- An input of a channel records a timeout exactly if it changes it. -/
theorem timeouts_events {turns : Nat} {u u' : UnitState} {x : Input}
    (hleaves : x.leaves turns u = some u') {i : Fin maxChannels}
    (hu : u.index = i.val) :
    (x.events u).filterMap (Event.timeoutOf i)
      = if u'.inDataTimeout = u.inDataTimeout then []
        else [u'.inDataTimeout] := by
  cases x with
  | packet j p =>
      obtain ⟨d, hd, rfl⟩ := Option.map_eq_some_iff.mp hleaves
      rw [if_pos rfl]
      exact (records_eventsOf hu p i).2.2
  | timer j t =>
      rw [← Option.some.inj hleaves]
      refine (records_timeoutOf hu t i).2.2.trans (if_congr ?_ rfl rfl)
      exact or_iff_left fun h => h rfl

/-- The timeouts of a channel begin and end in turn. -/
theorem timeouts_run {turns : Nat} {xs : List Input} (i : Fin maxChannels)
    {f f' : Feed} (h : xs.foldlM (step turns) f = some f') :
    List.IsChain (· ≠ ·) ((f.streams i).inDataTimeout
      :: (f.events turns xs).filterMap (Event.timeoutOf i)) := by
  induction xs generalizing f with
  | nil => exact List.IsChain.singleton _
  | cons x xs ih =>
      rw [List.foldlM_cons] at h
      obtain ⟨f₁, hf₁, hrest⟩ := Option.bind_eq_some_iff.mp h
      obtain ⟨hown, hother⟩ := streams_step hf₁ i
      have hrest := ih hrest
      rw [events_cons hf₁, List.filterMap_append]
      by_cases hi : x.channel = i
      · rw [hi, timeouts_events (hown hi) (f.indexed i)]
        split
        case isTrue hsame =>
          rw [hsame] at hrest
          exact hrest
        case isFalse hnew =>
          exact List.IsChain.cons_cons (Ne.symm hnew) hrest
      · rw [hother hi] at hrest
        obtain ⟨-, -, hnone⟩ := records_of_ne (f.indexed x.channel) hi
        rw [hnone]
        exact hrest

/-- On an orderly input the decoder comes to an end. -/
theorem exists_step {turns : Nat} {x : Input} (hx : x.Orderly)
    (hturns : x.turns ≤ turns) (f : Feed) :
    ∃ f', f.step turns x = some f' := by
  cases x with
  | timer i t => exact ⟨_, rfl⟩
  | packet i p =>
      have hd : ∃ d, Decoder.onRecv turns
          ⟨(f.streams i).toPDPMsgStream, []⟩ p = some d := by
        by_cases hwhole : msgSize p.buf + 2 ≤ p.len
        · obtain ⟨hplain, hfits⟩ := hx hwhole
          exact Decoder.exists_onRecv hplain (fun _ => hfits) hturns
        · exact ⟨_, Decoder.onRecv_runt (Nat.lt_of_not_le hwhole)⟩
      obtain ⟨d, hd⟩ := hd
      unfold step onRecv
      dsimp only
      split
      case h_1 hnone =>
        rw [hd] at hnone
        cases hnone
      case h_2 => exact ⟨_, rfl⟩

/-- Orderly packets come to an end, all of them. -/
theorem exists_run {turns : Nat} {xs : List Input}
    (hxs : ∀ x ∈ xs, x.Orderly) (hturns : ∀ x ∈ xs, x.turns ≤ turns)
    (f : Feed) : ∃ f', xs.foldlM (step turns) f = some f' := by
  induction xs generalizing f with
  | nil => exact ⟨f, rfl⟩
  | cons x xs ih =>
      obtain ⟨f₁, hf₁⟩ := exists_step (hxs x List.mem_cons_self)
        (hturns x List.mem_cons_self) f
      obtain ⟨f', hf'⟩ := ih
        (fun y hy => hxs y (List.mem_cons_of_mem x hy))
        (fun y hy => hturns y (List.mem_cons_of_mem x hy)) f₁
      rw [List.foldlM_cons, hf₁]
      exact ⟨f', hf'⟩

/-- A new log of a feed whose channels expect the number 4. -/
def newFeed : Feed where
  streams := fun i => ⟨⟨i.val, 4, 0, 0, 0⟩, ⟨60, 0⟩, false⟩
  indexed := fun _ => rfl
  mSeqnum := 0
  log := ⟨(openWriter .xnys [79, 66] (Core.AsyncMappedFile.openWritable
    (fun _ => 0) 0)).2, []⟩

end Feed

end TradingEngine.Apps.SeqnumCap
