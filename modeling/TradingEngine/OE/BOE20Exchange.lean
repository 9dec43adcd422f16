/-
The other end of a BOE connection: an exchange that goes by the bits.

The exchange is not part of the source. This module states what the messages
of `BOE20Wire.lean` and `BOE20Buffers.lean` are for: an exchange takes the
login apart group by group, leaves out of its messages what no bit of the
login asks for, and finds the fields of an order by the bitfields that the
order itself has. Optional fields come in the order of their bits.
-/
import TradingEngine.OE.BOE20Buffers
import TradingEngine.OE.BOE20Wire

namespace TradingEngine.OE

open Lib (leBytes leNat byteAt bytesAt)
open Lib.Record (offset size pack chosen)

variable {ι : Type}

namespace BOE20

-- =================================================================== login

/-- A parameter group of a login request. -/
inductive ParamGroup
  | unitSequences (noUnspecifiedUnitReplay : Bool)
      (units : List UnitNumberSequencePair)
  | returnBitfields (messageType : UInt8) (bits : Bytes)
  deriving DecidableEq

structure Login where
  sessionSubID : Bytes
  username : Bytes
  password : Bytes
  paramGroups : List ParamGroup
  deriving DecidableEq

/-- So many units, and nothing after them. -/
def readUnits : Nat → Bytes → Option (List UnitNumberSequencePair)
  | 0, bs => if bs = [] then some [] else none
  | n + 1, bs =>
      if bs.length < 5 then none
      else
        (readUnits n (bs.drop 5)).map
          (⟨byteAt bs 0, .ofNat (leNat (bytesAt bs 1 4))⟩ :: ·)

/-- The data of a parameter group, by the group's type. -/
def readParamGroup (type : UInt8) (data : Bytes) : Option ParamGroup :=
  if type = 0x80 then
    match data with
    | flag :: n :: units =>
        (readUnits n.toNat units).map (.unitSequences (flag = 1))
    | _ => none
  else if type = 0x81 then
    match data with
    | messageType :: n :: bits =>
        if bits.length = n.toNat then some (.returnBitfields messageType bits)
        else none
    | _ => none
  else none

/-- So many groups, each as long as it says, and nothing after them. -/
def readParamGroups : Nat → Bytes → Option (List ParamGroup)
  | 0, bs => if bs = [] then some [] else none
  | n + 1, bs =>
      let length := leNat (bytesAt bs 0 2)
      if length < 3 ∨ bs.length < length then none
      else
        (readParamGroup (byteAt bs 2) (bytesAt bs 3 (length - 3))).bind
          fun g => (readParamGroups n (bs.drop length)).map (g :: ·)

/-- A field of a login request. -/
def loginField (m : Bytes) (f : Field) : Bytes :=
  bytesAt m (offset Field.width loginFields f) f.width

/-- A login request: of the right type, as long as it says, and groups to
its end. -/
def readLogin (m : Bytes) : Option Login :=
  if loginField m .messageType = [0x37]
    ∧ leNat (loginField m .messageLength) + 2 = m.length
  then
    (readParamGroups (leNat (loginField m .numParamGroups))
        (m.drop (size Field.width loginFields))).map fun groups =>
      { sessionSubID := loginField m .sessionSubID
        username := loginField m .username
        password := loginField m .password
        paramGroups := groups }
  else none

/-- The bits that a group asks for, for messages of a type. -/
def ParamGroup.bitsFor (messageType : UInt8) : ParamGroup → Option Bytes
  | .returnBitfields t bits => if t = messageType then some bits else none
  | .unitSequences .. => none

/-- The number that a group has for a unit. -/
def ParamGroup.unitSequence (unit : UInt8) : ParamGroup → Option UInt32
  | .unitSequences _ units =>
      (units.find? fun u => u.unitNumber = unit).map (·.unitSequence)
  | .returnBitfields .. => none

/-- The bits that were asked for; none, if none were. -/
def Login.bitsFor (l : Login) (messageType : UInt8) : Bytes :=
  (l.paramGroups.findSome? (·.bitsFor messageType)).getD []

/-- The last number that was received of a unit, if the login has it. -/
def Login.unitSequence (l : Login) (unit : UInt8) : Option UInt32 :=
  l.paramGroups.findSome? (·.unitSequence unit)

-- ============================================================== its messages

/-- A message to be sent: a value for every field that may be in it. -/
structure ExchangeMessage where
  type : ReturnMessage
  value : Field → Bytes
  length_value : ∀ f, (value f).length = f.width

namespace ExchangeMessage

variable (x : ExchangeMessage) (bits : Bytes)

/-- The fields that are sent: those of the struct, the bits, and what they
choose. -/
def fields : List Field :=
  x.type.fixedFields ++ .returnBitfields :: chosen x.type.bitfields bits

/-- What is sent for a field. -/
def member : Field → Bytes
  | .startOfMessage => leBytes 2 0xBABA
  | .messageLength => leBytes 2 (size Field.width (x.fields bits) - 2)
  | .messageType => [x.type.messageType]
  | .numberOfReturnBitfields => [.ofNat bits.length]
  | .returnBitfields => bits
  | f => x.value f

def bytes : Bytes := pack (x.member bits) (x.fields bits)

/-- The message as a client is to read it, if it is a sequenced one. -/
def meaning : Option SequencedMessage := sequencedOf x.type x.value

end ExchangeMessage

-- =================================================================== orders

/-- A message type of the client's: its fields before the number of
bitfields, and its bitfields. -/
structure OrderFormat where
  messageType : UInt8
  fixedFields : List Field
  bitfields : List Bitfield

def OrderFormat.newOrder : OrderFormat where
  messageType := 0x38
  fixedFields := headerFields ++ [.clOrdID, .side, .orderQty]
  bitfields := newOrderBitfields

def OrderFormat.cancelOrder : OrderFormat where
  messageType := 0x39
  fixedFields := headerFields ++ [.origClOrdID]
  bitfields := cancelOrderBitfields

def OrderFormat.modifyOrder : OrderFormat where
  messageType := 0x3A
  fixedFields := headerFields ++ [.newClOrdID, .origClOrdID]
  bitfields := modifyOrderBitfields

def OrderFormat.all : List OrderFormat := [newOrder, cancelOrder, modifyOrder]

namespace OrderFormat

variable (t : OrderFormat) (m : Bytes)

/-- Where the number of bitfields is. -/
def fixedSize : Nat := size Field.width t.fixedFields

/-- The bitfields of the message. -/
def bits : Bytes :=
  bytesAt m (t.fixedSize + 1) (byteAt m t.fixedSize).toNat

/-- The optional fields of the message. -/
def optional : List Field := chosen t.bitfields (t.bits m)

/-- A field of the message; none if the message does not have it. -/
def read (f : Field) : Option Bytes :=
  if f ∈ t.fixedFields then
    some (bytesAt m (offset Field.width t.fixedFields f) f.width)
  else if f ∈ t.optional m then
    some (bytesAt m (t.fixedSize + 1 + (t.bits m).length
      + offset Field.width (t.optional m) f) f.width)
  else none

end OrderFormat

/-- The fields of an order message, by its type, and what is left over of
its bytes; nothing if it is of no type, not as long as it says, or too short
for its fields. -/
def readOrder (m : Bytes) : Option ((Field → Option Bytes) × Bytes) :=
  match OrderFormat.all.find? fun t => t.messageType = byteAt m 4 with
  | none => none
  | some t =>
      let len := t.fixedSize + 1 + (t.bits m).length
        + size Field.width (t.optional m)
      if leNat (bytesAt m 2 2) + 2 = m.length ∧ len ≤ m.length then
        some (t.read m, m.drop len)
      else none

-- ============================================================== their meaning

namespace OutboundMessage

def format : OutboundMessage → OrderFormat
  | .newOrder _ => .newOrder
  | .cancelOrder _ => .cancelOrder
  | .modifyOrder _ => .modifyOrder

/-- The fields of the message, with those of its `OptionalFields` that have
a bit. -/
def fields : OutboundMessage → List Field
  | .newOrder _ =>
      OrderFormat.newOrder.fixedFields
        ++ [.clearingFirm, .clearingAccount, .price, .execInst, .ordType,
          .timeInForce, .minQty, .maxFloor, .symbol, .capacity,
          .routingInst, .account, .displayIndicator, .maxRemovePct,
          .discretionAmount, .pegDifference, .attributedQuote, .extExecInst]
  | .cancelOrder _ => OrderFormat.cancelOrder.fixedFields ++ [.clearingFirm]
  | .modifyOrder _ =>
      OrderFormat.modifyOrder.fixedFields
        ++ [.clearingFirm, .orderQty, .price, .ordType, .cancelOrigOnReject,
          .execInst, .side]

/-- What a field of the message says. -/
def value (conf : SenderConf ι) (m : OutboundMessage) (f : Field) : Bytes :=
  match f, m with
  | .startOfMessage, _ => leBytes 2 0xBABA
  | .messageLength, m => leBytes 2 (m.msglen - 2)
  | .messageType, m => [m.format.messageType]
  | .matchingUnit, _ => [0]
  | .clearingFirm, _ => copyToArray 4 conf.clearingFirm
  | .sequenceNumber, .newOrder m => leBytes 4 m.sequenceNumber.toNat
  | .clOrdID, .newOrder m => m.clOrdID
  | .side, .newOrder m => [charByte m.side]
  | .orderQty, .newOrder m => leBytes 4 m.orderQty
  | .clearingAccount, .newOrder _ => copyToArray 4 conf.clearingAccount
  | .price, .newOrder m => leBytes 8 m.price
  | .execInst, .newOrder m => [m.execInst.value]
  | .ordType, .newOrder m => [charByte m.ordType]
  | .timeInForce, .newOrder m => [charByte m.timeInForce]
  | .minQty, .newOrder _ => leBytes 4 0
  | .maxFloor, .newOrder _ => leBytes 4 0
  | .symbol, .newOrder m => m.symbol
  | .capacity, .newOrder _ => [charByte 'A']
  | .routingInst, .newOrder m => m.routingInst.text
  | .account, .newOrder _ => copyToArray 16 [68, 69, 70, 71]
  | .displayIndicator, .newOrder m => [m.displayIndicator.value]
  | .maxRemovePct, .newOrder _ => [0]
  | .discretionAmount, .newOrder _ => leBytes 2 0
  | .pegDifference, .newOrder _ => leBytes 8 0
  | .attributedQuote, .newOrder _ => [charByte 'N']
  | .extExecInst, .newOrder _ => [charByte 'N']
  | .sequenceNumber, .cancelOrder m => leBytes 4 m.sequenceNumber.toNat
  | .origClOrdID, .cancelOrder m => m.origClOrdID
  | .sequenceNumber, .modifyOrder m => leBytes 4 m.sequenceNumber.toNat
  | .newClOrdID, .modifyOrder m => m.newClOrdID
  | .origClOrdID, .modifyOrder m => m.origClOrdID
  | .orderQty, .modifyOrder m => leBytes 4 m.orderQty
  | .price, .modifyOrder m => leBytes 8 m.price
  | .ordType, .modifyOrder m => [charByte m.ordType]
  | .cancelOrigOnReject, .modifyOrder _ =>
      [charByte (if conf.cancelOrigOnReject then 'Y' else 'N')]
  | .execInst, .modifyOrder m => [m.execInst.value]
  | .side, .modifyOrder m => [charByte m.side]
  | _, _ => []

/-- `max_floor` of a `ModifyOrder`, for which no bit is set. -/
def unannounced : OutboundMessage → Bytes
  | .newOrder _ | .cancelOrder _ => []
  | .modifyOrder _ => leBytes 4 0

/-- What an exchange is to read of the message: these fields and no
other. -/
def meaning (conf : SenderConf ι) (m : OutboundMessage) (f : Field) :
    Option Bytes :=
  if f ∈ m.fields then some (m.value conf f) else none

end OutboundMessage

end BOE20

end TradingEngine.OE
