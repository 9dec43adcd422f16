/-
`md/i01_md/SeqnumListener.hpp`, between the OpenBook decoder and a sequence
log: what is recorded of the packets and of the timers of a feed.

The channels are those of `MAX_CHANNELS`, each under its index. One poller
serves them, so that the notifications of a packet are not mixed with those
of another. `on_recv` passes the address and the port of its listener on as
they are initialized, both zero. A channel's name goes to `std::cerr` only.

A packet on which the decoder does not come to an end is the last that
happens to a feed: its poller is in that call.
-/
import TradingEngine.Apps.SeqnumCap
import TradingEngine.Core.Timestamp
import TradingEngine.MD.PDPDecoder
import Mathlib.Logic.Function.Basic

namespace TradingEngine.Apps.SeqnumCap

open MD.PDP (Decoder Notification PDPMsgStream)
open MD.PDP.Decoder (Packet)

/-- A time of the decoder, as its two members. -/
def stamp (t : MD.PDP.Timestamp) : OE.Timestamp where
  sec := (t / 1000000000 : Nat)
  nsec := (t % 1000000000 : Nat)

-- ================================================================== listener

/-- `on_raw_msg` of an `EndOfPktMsg`: the number that `m_seqnum` is left at,
and the calls. So many turns, if it does not get to an end before. -/
def onEndOfPkt (ts : OE.Timestamp) (seqnum : UInt64) (index : UInt32) :
    Nat → UInt64 → UInt64 × List Event
  | 0, mSeqnum => (mSeqnum, [])
  | turns + 1, mSeqnum =>
      if mSeqnum ≤ seqnum then
        let r := onEndOfPkt ts seqnum index turns (mSeqnum + 1)
        (r.1, .onSeqnum ts mSeqnum index :: r.2)
      else (mSeqnum, [])

/-- `on_raw_msg`, of what a decoder notifies: `m_seqnum`, and the calls. -/
def onRawMsg (mSeqnum : UInt64) (t : MD.PDP.Timestamp) :
    Notification → UInt64 × List Event
  | .startOfPkt seqnum _ => (seqnum.toUInt64, [])
  | .endOfPkt seqnum index =>
      -- a number of 32 bits is passed, whatever `m_seqnum` begins at
      onEndOfPkt (stamp t) seqnum.toUInt64 (UInt32.ofNat index)
        (seqnum.toNat + 1) mSeqnum
  | .gap unit expected received lastTs =>
      (mSeqnum, [.onGap (stamp t) 0 0 (UInt8.ofNat unit) expected.toUInt64
        received.toUInt64 (stamp lastTs)])
  | .heartbeat .. => (mSeqnum, [])
  | .message .. => (mSeqnum, [])

-- ====================================================================== feed

/-- `MAX_CHANNELS`. -/
abbrev maxChannels : Nat := 256

/-- `UnitState`, with what `on_timer` uses of it. -/
structure UnitState extends PDPMsgStream where
  dataTimeout : OE.Timestamp
  inDataTimeout : Bool

/-- A packet leaves a channel its index. -/
theorem index_onRecv {turns : Nat} {d d' : Decoder} {p : Packet}
    (h : d.onRecv turns p = some d') :
    d'.channel.index = d.channel.index := by
  unfold Decoder.onRecv at h
  dsimp only at h
  split at h
  · rw [← Option.some.inj h]
  split at h
  · rw [← Option.some.inj h]
  · obtain ⟨d₁, hd₁, hclosed⟩ := Option.bind_eq_some_iff.mp h
    rw [← Option.some.inj hclosed]
    show d₁.channel.index = d.channel.index
    refine Decoder.handleMessages_induction
      (I := fun x => x.channel.index = d.channel.index)
      (fun _ _ hx => hx) (fun x idx hx => ?_) hd₁ ?_
    · refine Eq.trans ?_ hx
      unfold Decoder.dispatchMessage
      split <;> rfl
    · unfold Decoder.notify
      dsimp only
      split <;> rfl

/-- The channels of a feed, its `SeqnumListener` and the log of it. -/
structure Feed where
  streams : Fin maxChannels → UnitState
  indexed : ∀ i, (streams i).index = i.val
  mSeqnum : UInt64
  log : SeqnumLog

namespace Feed

/-- `notify`: the listener is told, and makes its calls. -/
def notify (f : Feed) (t : MD.PDP.Timestamp) (n : Notification) : Feed :=
  let r := onRawMsg f.mSeqnum t n
  { f with mSeqnum := r.1, log := Lib.run SeqnumLog.step f.log r.2 }

/-- A channel changes, but for its index. -/
def setStream (f : Feed) (i : Fin maxChannels) (u : UnitState)
    (h : u.index = (f.streams i).index) : Feed where
  streams := Function.update f.streams i u
  indexed := fun j => by
    rcases eq_or_ne j i with rfl | hne
    · rw [Function.update_self, h, f.indexed]
    · rw [Function.update_of_ne hne, f.indexed]
  mSeqnum := f.mSeqnum
  log := f.log

/-- `on_recv`, for a packet of a channel, in so many turns of its loops. -/
def onRecv (turns : Nat) (f : Feed) (i : Fin maxChannels) (p : Packet) :
    Option Feed :=
  let u := f.streams i
  match h : Decoder.onRecv turns ⟨u.toPDPMsgStream, []⟩ p with
  | none => none
  | some d =>
      some (Lib.run (fun f n => f.notify n.1 n.2)
        (f.setStream i { u with toPDPMsgStream := d.channel }
          (index_onRecv h))
        d.notified)

/-- `on_timer`, for a channel. -/
def onTimer (f : Feed) (i : Fin maxChannels) (t : MD.PDP.Timestamp) : Feed :=
  let u := f.streams i
  let timeout (started : Bool) : Feed :=
    let f := f.setStream i { u with inDataTimeout := started } rfl
    -- `on_raw_msg` of a `TimeoutMsg`
    { f with log := f.log.step (.onTimeout (stamp t) started
        (UInt8.ofNat u.index) (stamp u.timestamp)) }
  if ((stamp t).sub (stamp u.timestamp)).ge u.dataTimeout then
    if !u.inDataTimeout then timeout true else f
  else
    if u.inDataTimeout then timeout false else f

/-- What happens to a feed. -/
inductive Input
  | packet (i : Fin maxChannels) (p : Packet)
  | timer (i : Fin maxChannels) (t : MD.PDP.Timestamp)

/-- It happens, if the decoder comes to an end with it. -/
def step (turns : Nat) (f : Feed) : Input → Option Feed
  | .packet i p => f.onRecv turns i p
  | .timer i t => some (f.onTimer i t)

end Feed

end TradingEngine.Apps.SeqnumCap
