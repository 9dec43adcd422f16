/-
`oe/NASDAQ/OUCH42Session.cpp`, `handle_packet` of a `SequencedDataPacket`
down to the bytes.

`OUCH42Orders.lean` has what is done with a decoded message; this is how a
packet becomes one, with every check of its length and every field that is
read. Offsets are those of the packed structs in `OUCH42/Messages.hpp`,
from the message type on. The bytes are what is in memory from the packet
on, which goes on after the packet; `len` is the packet's length.

`Alphanumeric::get`, which turns the id of a token into a number, is a
parameter: `Core/Alphanumeric.lean` has it, and nothing here depends on
which number it gives.
-/
import TradingEngine.OE.OUCH42Orders
import TradingEngine.OE.OUCH42Recv

namespace TradingEngine.OE

open Lib SoupBinTCP30

variable {ι : Type}

namespace OUCH42

-- ========================================================== message types

/-- The messages that start with an `OutboundOrderMessageHeader`. -/
inductive OrderMessage
  | accepted
  | replaced
  | canceled
  | aiqCancelled
  | executed
  | brokenTrade
  | rejected
  | cancelPending
  | cancelReject
  | orderPriorityUpdate
  | orderModified
  deriving DecidableEq

/-- The arms of the switch over `mh->message_type`. -/
inductive Arm
  | systemEvent
  | order (t : OrderMessage)
  | unexpected
  deriving DecidableEq

def armOf (messageType : UInt8) : Arm :=
  match messageType.toNat with
  | 83 => .systemEvent
  | 65 => .order .accepted
  | 85 => .order .replaced
  | 67 => .order .canceled
  | 68 => .order .aiqCancelled
  | 69 => .order .executed
  | 66 => .order .brokenTrade
  | 74 => .order .rejected
  | 80 => .order .cancelPending
  | 73 => .order .cancelReject
  | 84 => .order .orderPriorityUpdate
  | 77 => .order .orderModified
  | _ => .unexpected

-- ================================================================== sizes

/-- `sizeof(OutboundMessageHeader)`: type and time. -/
def messageHeaderSize : Nat := 1 + 8

/-- `sizeof(OutboundOrderMessageHeader)`: the order token as well. -/
def orderHeaderSize : Nat := 1 + 8 + 14

/-- `sizeof` of the message's struct. -/
def OrderMessage.structSize : OrderMessage → Nat
  | .accepted => 66
  | .replaced => 80
  | .canceled => 28
  | .aiqCancelled => 37
  | .executed => 40
  | .brokenTrade => 32
  | .rejected => 24
  | .cancelPending | .cancelReject => 23
  | .orderPriorityUpdate => 36
  | .orderModified => 28

/-- `expected_len`, which for `REPLACED` is the size of `Rejected`. -/
def OrderMessage.expectedLen : OrderMessage → Nat
  | .replaced => OrderMessage.rejected.structSize
  | t => t.structSize

-- ================================================================= fields

def messageTypeField : Extent := ⟨0, 1⟩

def exchTimeField : Extent := ⟨1, 8⟩

def orderTokenField : Extent := ⟨9, 14⟩

def systemEventCodeField : Extent := ⟨9, 1⟩

/-- What the second switch reads of a message, on the longest of its paths
through the message's arm. -/
def OrderMessage.fieldsRead : OrderMessage → List Extent
  | .accepted =>
      -- shares, price, tif, display, reference number, capacity, iso,
      -- minimum quantity, cross type, order state, bbo weight
      [exchTimeField, ⟨24, 4⟩, ⟨36, 4⟩, ⟨40, 4⟩, ⟨48, 1⟩, ⟨49, 8⟩, ⟨57, 1⟩,
        ⟨58, 1⟩, ⟨59, 4⟩, ⟨63, 1⟩, ⟨64, 1⟩, ⟨65, 1⟩]
  | .replaced =>
      -- shares, reference number, order state, previous order token
      [exchTimeField, ⟨24, 4⟩, ⟨49, 8⟩, ⟨64, 1⟩, ⟨65, 14⟩]
  | .canceled | .aiqCancelled => [exchTimeField, ⟨23, 4⟩, ⟨27, 1⟩]
  | .executed => [exchTimeField, ⟨23, 4⟩, ⟨27, 4⟩, ⟨31, 1⟩, ⟨32, 8⟩]
  | .brokenTrade => [orderTokenField, ⟨23, 8⟩, ⟨31, 1⟩]
  | .rejected => [exchTimeField, ⟨23, 1⟩]
  | .cancelPending | .cancelReject => [exchTimeField]
  | .orderPriorityUpdate => [⟨23, 4⟩, ⟨27, 1⟩, ⟨28, 8⟩]
  | .orderModified => [exchTimeField, ⟨23, 1⟩, ⟨24, 4⟩]

/-- What `create_replay_order` reads of an `Accepted`: the stock, and the
order's terms if there is an instrument for it. -/
def replayOrderFields (found : Bool) : List Extent :=
  ⟨28, 8⟩ :: if found then [⟨36, 4⟩, ⟨24, 4⟩, ⟨23, 1⟩, ⟨40, 4⟩] else []

-- =============================================================== messages

def buySellIndicatorOf (b : UInt8) : BuySellIndicator :=
  match b.toNat with
  | 66 => .buy
  | 83 => .sell
  | 84 => .short
  | 69 => .shortExempt
  | _ => .other b

def crossTypeOf (b : UInt8) : CrossType :=
  match b.toNat with
  | 79 => .openingCross
  | 67 => .closingCross
  | 72 => .haltOrIpoCross
  | _ => .other b

def acceptedStateOf (b : UInt8) : AcceptedState :=
  match b.toNat with
  | 76 => .live
  | 68 => .dead
  | _ => .other b

def uint32At (m : Bytes) (i : Nat) : UInt32 := .ofNat (be32 m i)

/-- `OrderToken::HPRData`: marking, symbol, id. -/
def orderTokenAt (localIDOf : Bytes → Nat) (m : Bytes) (i : Nat) :
    OrderToken :=
  ⟨byteAt m i, localIDOf (bytesAt m (i + 6) 8)⟩

def orderHeaderAt (localIDOf : Bytes → Nat) (m : Bytes) : OrderHeader :=
  ⟨be64 m 1, orderTokenAt localIDOf m 9⟩

def acceptedAt (m : Bytes) : Accepted where
  buySellIndicator := buySellIndicatorOf (byteAt m 23)
  shares := uint32At m 24
  stock := bytesAt m 28 8
  price := uint32At m 36
  timeInForce := uint32At m 40
  orderReferenceNumber := be64 m 49
  minimumQuantity := uint32At m 59
  crossType := crossTypeOf (byteAt m 63)
  orderState := acceptedStateOf (byteAt m 64)

def replacedAt (localIDOf : Bytes → Nat) (m : Bytes) : Replaced where
  shares := uint32At m 24
  orderReferenceNumber := be64 m 49
  orderState := acceptedStateOf (byteAt m 64)
  previousOrderToken := orderTokenAt localIDOf m 65

/-- `reinterpret_cast`, by the type. -/
def bodyAt (localIDOf : Bytes → Nat) (m : Bytes) : OrderMessage → OrderBody
  | .accepted => .accepted (acceptedAt m)
  | .replaced => .replaced (replacedAt localIDOf m)
  | .canceled => .canceled (uint32At m 23)
  | .aiqCancelled => .aiqCancelled (uint32At m 23)
  | .executed => .executed (uint32At m 23) (uint32At m 27) (byteAt m 31)
  | .brokenTrade => .brokenTrade
  | .rejected => .rejected
  | .cancelPending => .cancelPending
  | .cancelReject => .cancelReject
  | .orderPriorityUpdate => .orderPriorityUpdate (uint32At m 23) (be64 m 28)
  | .orderModified =>
      .orderModified (buySellIndicatorOf (byteAt m 23)) (uint32At m 24)

end OUCH42

open OUCH42

-- ================================================================ handling

/-- What a packet leaves behind, and the fields of its message that were
read. -/
structure SequencedHandled (ι : Type) where
  om : OrderManager ℕ ι
  reads : List Extent

namespace OUCH42Orders

variable [DecidableEq ι] (s : OUCH42Orders ι) (localIDOf : Bytes → Nat)

/-- From `order_token_check` on, with a header to read the token from. -/
def handleOrderMessage (om : OrderManager ℕ ι) (ts : Timestamp) (m : Bytes)
    (len : Nat) (t : OrderMessage) : SequencedHandled ι :=
  let hdr := orderHeaderAt localIDOf m
  let seen := [messageTypeField, orderTokenField]
  if hdr.orderToken.id = 0 then ⟨om, seen⟩
  else
    match s.getOrder om hdr.orderToken.id with
    | none =>
        ⟨s.handleUnknown om ts hdr (bodyAt localIDOf m t), seen ++
          if t = .accepted ∧ hdr.orderToken.hprMarking ≠ riskbotReject then
            replayOrderFields
              (s.findInstrument (acceptedAt m).stock).isSome
          else []⟩
    | some op =>
        if hdr.orderToken.hprMarking = riskbotReject then
          ⟨om.onRejected op ts hdr.exchTime, seen ++ [exchTimeField]⟩
        else if len < packetHeaderSize + t.expectedLen then ⟨om, seen⟩
        else
          ⟨s.handleKnown om ts hdr op (bodyAt localIDOf m t),
            seen ++ t.fieldsRead⟩

/-- `handle_packet` of a `SequencedDataPacket`. A packet too short for a
message header is logged and handled all the same; one of an order that is
too short for its header fails the size check, which asks for more. -/
def handleSequencedData (om : OrderManager ℕ ι) (ts : Timestamp)
    (buf : Bytes) (len : Nat) : SequencedHandled ι :=
  if len ≤ packetHeaderSize then ⟨om, []⟩
  else
    let m := buf.drop packetHeaderSize
    match armOf (byteAt m 0) with
    | .unexpected => ⟨om, [messageTypeField]⟩
    | .systemEvent =>
        if len < packetHeaderSize + messageHeaderSize then
          ⟨om, [messageTypeField]⟩
        else ⟨om, [messageTypeField, systemEventCodeField]⟩
    | .order t =>
        if packetHeaderSize + orderHeaderSize ≤ len then
          s.handleOrderMessage localIDOf om ts m len t
        else ⟨om, [messageTypeField]⟩

end OUCH42Orders

end TradingEngine.OE
