/-
`md/i01_md/NYSE/PDP/Decoder.hpp`: `on_recv` and `handle_message_`, from a
packet to the notifications of the listener.

# The stream

`MsgStream` is not in the repository. What the decoder uses of it is an
expected sequence number that can be set and incremented, a timestamp, two
counters and an index, and that is what `PDPMsgStream` has.

# The buffer

`buf` is what can be read from the pointer on, `len` the length of the
packet in it. Messages are converted to host byte order in place and passed
to the listener by pointer; here the listener gets their offset.

# Calls that do not return

A message is handled if the loop over its price points ends and the bytes
that it touches are there; otherwise neither `handle_message_` nor
`on_recv` returns, and that is `none`. The loops are given a number of
turns, one for both: no number is enough for an update that claims to be
shorter than its own layout.
-/
import TradingEngine.MD.PDPMessages
import TradingEngine.Lib.Run

namespace TradingEngine.MD.PDP

open Lib (be16 be32)

/-- `core::Timestamp`, in nanoseconds. -/
abbrev Timestamp := Nat

-- ============================================================ notifications

/-- What the listener is told. -/
inductive Notification
  | gap (unit : Nat) (expected received : UInt32) (lastTs : Timestamp)
  | startOfPkt (seqnum : UInt32) (index : Nat)
  | endOfPkt (seqnum : UInt32) (index : Nat)
  | heartbeat (unit : Nat) (seqnum : UInt32)
  | message (type : MsgType) (offset : Nat) (seqnum : UInt32)
  deriving DecidableEq, Repr

-- =================================================================== stream

/-- What the decoder uses of `MsgStream<MsgSeqNum, Timestamp>`. -/
structure PDPMsgStream where
  index : Nat
  expectSeqnum : UInt32
  timestamp : Timestamp
  pktCount : Nat
  msgCount : Nat
  deriving DecidableEq

/-- `increment_seqnum`. -/
def PDPMsgStream.incrementSeqnum (channel : PDPMsgStream) : PDPMsgStream :=
  { channel with expectSeqnum := channel.expectSeqnum + 1 }

/-- A channel of the decoder, and what the listener was told of it. -/
structure Decoder where
  channel : PDPMsgStream
  notified : List (Timestamp × Notification)
  deriving DecidableEq

namespace Decoder

/-- `notify`. -/
def notify (d : Decoder) (ts : Timestamp) (n : Notification) : Decoder :=
  { d with notified := d.notified ++ [(ts, n)] }

-- ================================================================== decoder

/-- The cases of `handle_message_`: what it returns, and the decoder. -/
def dispatchMessage (d : Decoder) (seqnum : UInt32) (type : Option MsgType)
    (buf : Bytes) (idx : Nat) (ts : Timestamp) : Nat × Decoder :=
  match type with
  | some .nyseOpeningImbalance =>
      (38, d.notify ts (.message .nyseOpeningImbalance idx seqnum))
  | some .nyseClosingImbalance =>
      (38, d.notify ts (.message .nyseClosingImbalance idx seqnum))
  | some .openbookFullUpdate =>
      (be16 buf idx, d.notify ts (.message .openbookFullUpdate idx seqnum))
  | some .openbookDeltaUpdate =>
      (be16 buf idx, d.notify ts (.message .openbookDeltaUpdate idx seqnum))
  | some .heartbeat => (0, d.notify ts (.heartbeat 1 seqnum))
  | some .sequenceNumberReset =>
      let d := { d with channel := { d.channel with
        expectSeqnum := UInt32.ofNat (be32 buf idx) } }
      (4, d.notify ts (.message .sequenceNumberReset idx seqnum))
  | some .messageUnavailable =>
      (8, d.notify ts (.message .messageUnavailable idx seqnum))
  | some .retransmissionResponse =>
      (28, d.notify ts (.message .retransmissionResponse idx seqnum))
  | some .retransmissionRequest =>
      (28, d.notify ts (.message .retransmissionRequest idx seqnum))
  | some .refreshRequest =>
      (36, d.notify ts (.message .refreshRequest idx seqnum))
  | some .heartbeatResponse =>
      (20, d.notify ts (.message .heartbeatResponse idx seqnum))
  | none => (0, d)

/-- `handle_message_`, in so many turns of its loop. -/
def handleMessage (turns : Nat) (d : Decoder) (seqnum : UInt32)
    (type : Option MsgType) (buf : Bytes) (idx : Nat) (ts : Timestamp) :
    Option (Nat × Decoder) :=
  if (messageTouches turns type buf idx).settles buf.length then
    some (d.dispatchMessage seqnum type buf idx ts)
  else none

/-- The loop over the messages of a packet. -/
def handleMessages (pricePointTurns : Nat) (seqnum : UInt32)
    (type : Option MsgType) (buf : Bytes) (len : Nat) (ts : Timestamp) :
    Nat → Decoder → Nat → Option Decoder
  | 0, _, _ => none
  | turns + 1, d, idx =>
      if idx < len then do
        let d := { d with channel := { d.channel with
          msgCount := d.channel.msgCount + 1 } }
        let r ← d.handleMessage pricePointTurns seqnum type buf idx ts
        if r.1 = 0 then return r.2
        else
          handleMessages pricePointTurns seqnum type buf len ts turns r.2
            (idx + r.1)
      else return d

/-- What counting and every case of the switch keep, the loop keeps. -/
theorem handleMessages_induction {points turns start len : Nat}
    {d d' : Decoder} {seqnum : UInt32} {type : Option MsgType} {buf : Bytes}
    {ts : Timestamp} {I : Decoder → Prop}
    (hcount : ∀ d n, I d →
      I { d with channel := { d.channel with msgCount := n } })
    (hone : ∀ d idx, I d → I (d.dispatchMessage seqnum type buf idx ts).2)
    (h : handleMessages points seqnum type buf len ts turns d start
      = some d') (hd : I d) : I d' := by
  induction turns generalizing d start with
  | zero => cases h
  | succ turns ih =>
      unfold handleMessages at h
      split at h
      case isTrue =>
        obtain ⟨r, hr, hrest⟩ := Option.bind_eq_some_iff.mp h
        unfold handleMessage at hr
        split at hr
        case isTrue =>
          obtain rfl := Option.some.inj hr
          have hr := hone _ start (hcount d (d.channel.msgCount + 1) hd)
          split at hrest
          · obtain rfl := Option.some.inj hrest
            exact hr
          · exact ih hrest hr
        case isFalse => cases hr
      case isFalse =>
        obtain rfl := Option.some.inj h
        exact hd

/-- A call of `on_recv`, for the channel in its userdata. -/
structure Packet where
  ts : Timestamp
  buf : Bytes
  len : Nat
  deriving DecidableEq

/-- `on_recv`, in so many turns of each loop. -/
def onRecv (turns : Nat) (d : Decoder) (p : Packet) : Option Decoder :=
  let seqNum := msgSeqNum p.buf
  -- `header->msg_size > len-2`, in signed arithmetic
  if msgSize p.buf + 2 > p.len then some d
  else
    let d := { d with channel := { d.channel with
      pktCount := d.channel.pktCount + 1 } }
    if seqNum < d.channel.expectSeqnum then some d
    else
      let d :=
        if seqNum > d.channel.expectSeqnum then
          let d := d.notify p.ts (.gap (d.channel.index % 256)
            d.channel.expectSeqnum seqNum d.channel.timestamp)
          { d with channel := { d.channel with expectSeqnum := seqNum } }
        else d
      let d := { d with channel := { d.channel with timestamp := p.ts } }
      let seqnum := d.channel.expectSeqnum
      let d := d.notify p.ts (.startOfPkt seqnum d.channel.index)
      let d := { d with channel := d.channel.incrementSeqnum }
      do
        let d ← handleMessages turns seqnum (msgType p.buf) p.buf p.len p.ts
          turns d messageHeaderSize
        return d.notify p.ts (.endOfPkt seqnum d.channel.index)

end Decoder

end TradingEngine.MD.PDP
