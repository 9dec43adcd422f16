/-
`oe/BATS/BOE20/Messages.hpp` and `Types.hpp`: the messages on the wire, the
login request that `send_login_request` writes, and the messages that the
handlers of a `BOE20Session` read.

# Optional fields

A message has fixed fields and, by the bits of its bitfields, optional ones.
The session asks for bits at login (`returnBitfields`) and then reads every
message as a packed struct, `InboundMsgBuffer`, with eight bytes of bits and
the fields of `OptionalFields` (`optionalFields`). It never looks at the
bits.

# Numbers

A number is on the wire in the byte order of the host. Enumerators are
bytes.
-/
import TradingEngine.Lib.Record
import TradingEngine.OE.BOE20ClOrdID

namespace TradingEngine.OE

open Lib (leBytes leNat byteAt bytesAt)

namespace BOE20

-- ================================================================== fields

/-- The members of the messages. -/
inductive Field
  -- `MessageHeader`
  | startOfMessage
  | messageLength
  | messageType
  | matchingUnit
  | sequenceNumber
  -- in all messages of a type
  | sessionSubID
  | username
  | password
  | numParamGroups
  | transactionTime
  | clOrdID
  | newClOrdID
  | orderID
  | execID
  | execRefID
  | reason
  | text
  | restatementReason
  | contraBroker
  | correctedPrice
  | origTime
  | reserved
  | numberOfReturnBitfields
  | returnBitfields
  -- optional, in some message
  | side
  | pegDifference
  | price
  | execInst
  | ordType
  | timeInForce
  | minQty
  | maxRemovePct
  | symbol
  | symbolSfx
  | capacity
  | account
  | clearingFirm
  | clearingAccount
  | displayIndicator
  | maxFloor
  | discretionAmount
  | orderQty
  | preventMemberMatch
  | origClOrdID
  | leavesQty
  | lastShares
  | lastPx
  | displayPrice
  | workingPrice
  | baseLiquidityIndicator
  | expireTime
  | secondaryOrderID
  | attributedQuote
  | extExecInst
  | subLiquidityIndicator
  | feeCode
  | echoText
  | stopPx
  | routingInst
  | routStrategy
  | routeDelivMethod
  | exDestination
  | locateReqd
  | displayRange
  | cancelOrigOnReject
  deriving DecidableEq

/-- `sizeof` of the field's type. -/
def Field.width : Field → Nat
  | .startOfMessage | .messageLength | .discretionAmount | .feeCode => 2
  | .preventMemberMatch | .routeDelivMethod => 3
  | .sequenceNumber | .contraBroker | .minQty | .clearingFirm
  | .clearingAccount | .maxFloor | .orderQty | .leavesQty | .lastShares
  | .routingInst | .displayRange | .sessionSubID | .username => 4
  | .routStrategy => 6
  | .transactionTime | .orderID | .execID | .execRefID | .correctedPrice
  | .origTime | .returnBitfields | .pegDifference | .price | .symbol
  | .symbolSfx | .lastPx | .displayPrice | .workingPrice | .expireTime
  | .secondaryOrderID | .stopPx => 8
  | .password => 10
  | .account => 16
  | .clOrdID | .newClOrdID | .origClOrdID => 20
  | .text => 60
  | .echoText => 64
  | _ => 1

/-- `MessageHeader`. -/
def headerFields : List Field :=
  [.startOfMessage, .messageLength, .messageType, .matchingUnit,
    .sequenceNumber]

/-- `LoginRequest`. -/
def loginFields : List Field :=
  headerFields ++ [.sessionSubID, .username, .password, .numParamGroups]

-- =============================================================== bitfields

/-- The bits of one bitfield, and the fields they stand for. -/
abbrev Bitfield := List (UInt8 × Field)

def orderAcknowledgmentBitfield1 : Bitfield :=
  [(1, .side), (2, .pegDifference), (4, .price), (8, .execInst),
    (16, .ordType), (32, .timeInForce), (64, .minQty), (128, .maxRemovePct)]

def orderAcknowledgmentBitfield2 : Bitfield :=
  [(1, .symbol), (2, .symbolSfx), (64, .capacity)]

def orderAcknowledgmentBitfield3 : Bitfield :=
  [(1, .account), (2, .clearingFirm), (4, .clearingAccount),
    (8, .displayIndicator), (16, .maxFloor), (32, .discretionAmount),
    (64, .orderQty), (128, .preventMemberMatch)]

def orderAcknowledgmentBitfield4 : Bitfield := []

def orderAcknowledgmentBitfield5 : Bitfield :=
  [(1, .origClOrdID), (2, .leavesQty), (4, .lastShares), (8, .lastPx),
    (16, .displayPrice), (32, .workingPrice), (64, .baseLiquidityIndicator),
    (128, .expireTime)]

def orderAcknowledgmentBitfield6 : Bitfield :=
  [(1, .secondaryOrderID), (8, .attributedQuote), (16, .extExecInst)]

def orderAcknowledgmentBitfield7 : Bitfield := [(1, .subLiquidityIndicator)]

def orderAcknowledgmentBitfield8 : Bitfield :=
  [(2, .echoText), (4, .stopPx), (8, .routingInst), (16, .routStrategy),
    (32, .routeDelivMethod), (64, .exDestination)]

def cancelRejectedBitfield8 : Bitfield := [(2, .echoText), (4, .stopPx)]

def orderExecutionBitfield6 : Bitfield :=
  [(8, .attributedQuote), (16, .extExecInst)]

def orderExecutionBitfield8 : Bitfield :=
  [(1, .feeCode), (2, .echoText), (4, .stopPx), (8, .routingInst),
    (16, .routStrategy), (32, .routeDelivMethod), (64, .exDestination)]

def newOrderBitfields : List Bitfield :=
  [[(1, .clearingFirm), (2, .clearingAccount), (4, .price), (8, .execInst),
      (16, .ordType), (32, .timeInForce), (64, .minQty), (128, .maxFloor)],
    [(1, .symbol), (2, .symbolSfx), (64, .capacity), (128, .routingInst)],
    [(1, .account), (2, .displayIndicator), (4, .maxRemovePct),
      (8, .discretionAmount), (16, .pegDifference),
      (32, .preventMemberMatch), (64, .locateReqd), (128, .expireTime)],
    [],
    [(2, .attributedQuote), (8, .extExecInst)],
    [(1, .displayRange), (2, .stopPx), (4, .routStrategy),
      (8, .routeDelivMethod), (16, .exDestination), (32, .echoText)]]

def cancelOrderBitfields : List Bitfield := [[(1, .clearingFirm)]]

def modifyOrderBitfields : List Bitfield :=
  [[(1, .clearingFirm), (4, .orderQty), (8, .price), (16, .ordType),
      (32, .cancelOrigOnReject), (64, .execInst), (128, .side)],
    [(1, .maxFloor), (2, .stopPx)]]

-- ================================================================ messages

/-- The messages of the exchange whose bitfields are asked for at login. -/
inductive ReturnMessage
  | orderAcknowledgment
  | orderRejected
  | orderModified
  | orderRestated
  | userModifyRejected
  | orderCancelled
  | cancelRejected
  | orderExecution
  | tradeCancelOrCorrect
  deriving DecidableEq

namespace ReturnMessage

/-- `MessageType`. -/
def messageType : ReturnMessage → UInt8
  | orderAcknowledgment => 0x25
  | orderRejected => 0x26
  | orderModified => 0x27
  | orderRestated => 0x28
  | userModifyRejected => 0x29
  | orderCancelled => 0x2A
  | cancelRejected => 0x2B
  | orderExecution => 0x2C
  | tradeCancelOrCorrect => 0x2D

/-- In the order of the login request. -/
def all : List ReturnMessage :=
  [orderAcknowledgment, orderRejected, orderModified, orderRestated,
    userModifyRejected, orderCancelled, cancelRejected, orderExecution,
    tradeCancelOrCorrect]

/-- The struct of the message. -/
def fixedFields : ReturnMessage → List Field
  | orderAcknowledgment | orderModified =>
      headerFields ++ [.transactionTime, .clOrdID, .orderID, .reserved,
        .numberOfReturnBitfields]
  | orderRejected | userModifyRejected | cancelRejected =>
      headerFields ++ [.transactionTime, .clOrdID, .reason, .text, .reserved,
        .numberOfReturnBitfields]
  | orderRestated =>
      headerFields ++ [.transactionTime, .clOrdID, .orderID,
        .restatementReason, .reserved, .numberOfReturnBitfields]
  | orderCancelled =>
      headerFields ++ [.transactionTime, .clOrdID, .reason, .reserved,
        .numberOfReturnBitfields]
  | orderExecution =>
      headerFields ++ [.transactionTime, .clOrdID, .execID, .lastShares,
        .lastPx, .leavesQty, .baseLiquidityIndicator,
        .subLiquidityIndicator, .contraBroker, .reserved,
        .numberOfReturnBitfields]
  | tradeCancelOrCorrect =>
      headerFields ++ [.transactionTime, .clOrdID, .orderID, .execRefID,
        .side, .baseLiquidityIndicator, .clearingFirm, .clearingAccount,
        .lastShares, .lastPx, .correctedPrice, .origTime, .reserved,
        .numberOfReturnBitfields]

/-- `OptionalFields`. -/
def optionalFields : ReturnMessage → List Field
  | orderAcknowledgment =>
      [.side, .pegDifference, .price, .execInst, .ordType, .timeInForce,
        .minQty, .maxRemovePct, .symbol, .capacity, .account, .clearingFirm,
        .clearingAccount, .displayIndicator, .maxFloor, .discretionAmount,
        .orderQty, .leavesQty, .displayPrice, .workingPrice,
        .attributedQuote, .extExecInst, .routingInst]
  | orderRejected =>
      [.side, .pegDifference, .price, .execInst, .ordType, .timeInForce,
        .minQty, .maxRemovePct, .symbol, .capacity, .account, .clearingFirm,
        .clearingAccount, .displayIndicator, .maxFloor, .discretionAmount,
        .orderQty, .attributedQuote, .extExecInst, .routingInst]
  | orderModified =>
      [.side, .pegDifference, .price, .execInst, .ordType, .timeInForce,
        .minQty, .maxRemovePct, .account, .clearingFirm, .clearingAccount,
        .displayIndicator, .maxFloor, .discretionAmount, .orderQty,
        .origClOrdID, .leavesQty, .displayPrice, .workingPrice,
        .attributedQuote, .extExecInst, .routingInst]
  | orderRestated =>
      [.side, .pegDifference, .price, .execInst, .ordType, .timeInForce,
        .minQty, .maxRemovePct, .symbol, .capacity, .account, .clearingFirm,
        .clearingAccount, .displayIndicator, .maxFloor, .discretionAmount,
        .orderQty, .origClOrdID, .leavesQty, .displayPrice, .workingPrice,
        .attributedQuote, .extExecInst, .routingInst]
  | userModifyRejected => []
  | orderCancelled =>
      [.side, .pegDifference, .price, .execInst, .ordType, .timeInForce,
        .minQty, .maxRemovePct, .symbol, .capacity, .account, .clearingFirm,
        .clearingAccount, .displayIndicator, .maxFloor, .discretionAmount,
        .orderQty, .leavesQty, .attributedQuote, .extExecInst, .routingInst]
  | cancelRejected =>
      [.side, .pegDifference, .price, .execInst, .ordType, .timeInForce,
        .minQty, .maxRemovePct, .symbol, .capacity]
  | orderExecution =>
      [.side, .pegDifference, .price, .execInst, .ordType, .timeInForce,
        .minQty, .maxRemovePct, .symbol, .capacity, .account, .clearingFirm,
        .clearingAccount, .displayIndicator, .maxFloor, .discretionAmount,
        .orderQty, .attributedQuote, .extExecInst, .feeCode, .routingInst]
  | tradeCancelOrCorrect => [.symbol, .capacity]

/-- The bitfields of the message, from the first on. -/
def bitfields : ReturnMessage → List Bitfield
  | orderAcknowledgment =>
      [orderAcknowledgmentBitfield1, orderAcknowledgmentBitfield2,
        orderAcknowledgmentBitfield3, orderAcknowledgmentBitfield4,
        orderAcknowledgmentBitfield5, orderAcknowledgmentBitfield6,
        orderAcknowledgmentBitfield7, orderAcknowledgmentBitfield8]
  | orderRejected =>
      [orderAcknowledgmentBitfield1, orderAcknowledgmentBitfield2,
        orderAcknowledgmentBitfield3, orderAcknowledgmentBitfield4,
        orderAcknowledgmentBitfield5, orderAcknowledgmentBitfield6, [],
        orderAcknowledgmentBitfield8]
  | orderModified =>
      [orderAcknowledgmentBitfield1, [], orderAcknowledgmentBitfield3,
        orderAcknowledgmentBitfield4, orderAcknowledgmentBitfield5,
        orderAcknowledgmentBitfield6, [], orderAcknowledgmentBitfield8]
  | orderRestated | orderCancelled =>
      [orderAcknowledgmentBitfield1, orderAcknowledgmentBitfield2,
        orderAcknowledgmentBitfield3, orderAcknowledgmentBitfield4,
        orderAcknowledgmentBitfield5, orderAcknowledgmentBitfield6, [],
        orderAcknowledgmentBitfield8]
  | userModifyRejected => []
  | cancelRejected =>
      [orderAcknowledgmentBitfield1, orderAcknowledgmentBitfield2, [], [],
        [], [], [], cancelRejectedBitfield8]
  | orderExecution =>
      [orderAcknowledgmentBitfield1, orderAcknowledgmentBitfield2,
        orderAcknowledgmentBitfield3, [], [], orderExecutionBitfield6, [],
        orderExecutionBitfield8]
  | tradeCancelOrCorrect => [[], orderAcknowledgmentBitfield2]

end ReturnMessage

-- =================================================================== login

section Login

open ReturnMessage

open Lib.Record (mask)

/-- The third bitfield of most messages. -/
def thirdBits : UInt8 :=
  mask orderAcknowledgmentBitfield3 [.account, .clearingFirm,
    .clearingAccount, .displayIndicator, .maxFloor, .discretionAmount,
    .orderQty]

/-- The second. -/
def secondBits : UInt8 :=
  mask orderAcknowledgmentBitfield2 [.symbol, .capacity]

/-- The sixth. -/
def sixthBits : UInt8 :=
  mask orderAcknowledgmentBitfield6 [.attributedQuote, .extExecInst]

/-- The eighth. -/
def eighthBits : UInt8 := mask orderAcknowledgmentBitfield8 [.routingInst]

/-- `rbf->bitfields.bitfields`: the bits that are asked for. -/
def ReturnMessage.returnBitfields : ReturnMessage → Bytes
  | orderAcknowledgment =>
      [0xFF, secondBits, thirdBits, 0x00,
        mask orderAcknowledgmentBitfield5
          [.leavesQty, .displayPrice, .workingPrice],
        sixthBits, 0x00, eighthBits]
  | orderRejected =>
      [0xFF, secondBits, thirdBits, 0x00, 0x00, sixthBits, 0x00, eighthBits]
  | orderModified =>
      [0xFF, 0x00, thirdBits, 0x00,
        mask orderAcknowledgmentBitfield5
          [.origClOrdID, .leavesQty, .displayPrice, .workingPrice],
        sixthBits, 0x00, eighthBits]
  | orderRestated =>
      [0xFF, secondBits, thirdBits, 0x00,
        mask orderAcknowledgmentBitfield5
          [.origClOrdID, .leavesQty, .displayPrice, .workingPrice],
        sixthBits, 0x00, eighthBits]
  | userModifyRejected => [0, 0, 0, 0, 0, 0, 0, 0]
  | orderCancelled =>
      [0xFF, secondBits, thirdBits, 0x00,
        mask orderAcknowledgmentBitfield5 [.leavesQty],
        sixthBits, 0x00, eighthBits]
  | cancelRejected => [0xFF, secondBits, 0, 0, 0, 0, 0, 0]
  | orderExecution =>
      [0xFF, secondBits, thirdBits, 0x00, 0x00,
        mask orderExecutionBitfield6 [.attributedQuote, .extExecInst], 0x00,
        mask orderExecutionBitfield8 [.feeCode, .routingInst]]
  | tradeCancelOrCorrect => [0, secondBits, 0, 0, 0, 0, 0, 0]

/-- `Credentials`, as wide as on the wire. -/
structure Credentials where
  sessionSubID : Bytes
  username : Bytes
  password : Bytes
  sessionSubID_length : sessionSubID.length = 4
  username_length : username.length = 4
  password_length : password.length = 10

/-- `UnitNumberSequencePair`. -/
structure UnitNumberSequencePair where
  unitNumber : UInt8
  unitSequence : UInt32
  deriving DecidableEq

def UnitNumberSequencePair.bytes (u : UnitNumberSequencePair) : Bytes :=
  u.unitNumber :: leBytes 4 u.unitSequence.toNat

/-- `NUMBER_OF_MATCHING_UNITS`. -/
def numberOfMatchingUnits : Nat := 32

/-- `unitseqs`: the units from which something has come. -/
def unitSequences (inboundSeqnum : UInt8 → UInt32) :
    List UnitNumberSequencePair :=
  (List.range numberOfMatchingUnits).filterMap fun i =>
    let unit := UInt8.ofNat (i + 1)
    if inboundSeqnum unit ≠ 0 then some ⟨unit, inboundSeqnum unit⟩ else none

/-- `get_sizeof_unit_sequences_group`. -/
def sizeofUnitSequencesGroup (num : Nat) : Nat :=
  if num ≠ 0 then 5 + num * 5 else 0

/-- `get_sizeof_return_bitfields_group`. -/
def sizeofReturnBitfieldsGroup : Nat := 13 * 9

/-- `UnitSequencesParamGroup`, with its units. -/
def unitSequencesParamGroup (units : List UnitNumberSequencePair) : Bytes :=
  leBytes 2 (units.length * 5 + 5) ++ [0x80, 1, .ofNat units.length]
    ++ units.flatMap UnitNumberSequencePair.bytes

/-- `ReturnBitfieldsParamGroup`. -/
def returnBitfieldsParamGroup (m : ReturnMessage) : Bytes :=
  leBytes 2 13 ++ [0x81, m.messageType, 8] ++ m.returnBitfields

/-- `msglen`. -/
def loginLength (inboundSeqnum : UInt8 → UInt32) : Nat :=
  29 + sizeofUnitSequencesGroup (unitSequences inboundSeqnum).length
    + sizeofReturnBitfieldsGroup

/-- The members of `LoginRequest`, from `fill_msg_header` on. -/
def loginMember (c : Credentials) (inboundSeqnum : UInt8 → UInt32) :
    Field → Bytes
  | .startOfMessage => leBytes 2 0xBABA
  | .messageLength => leBytes 2 (loginLength inboundSeqnum - 2)
  | .messageType => [0x37]
  | .matchingUnit => [0]
  | .sequenceNumber => leBytes 4 0
  | .sessionSubID => c.sessionSubID
  | .username => c.username
  | .password => c.password
  | .numParamGroups => [if unitSequences inboundSeqnum ≠ [] then 10 else 9]
  | _ => []

/-- What `send_login_request` writes from `bytes` on. -/
def loginRequest (c : Credentials) (inboundSeqnum : UInt8 → UInt32) :
    Bytes :=
  let units := unitSequences inboundSeqnum
  Lib.Record.pack (loginMember c inboundSeqnum) loginFields
    ++ (if units ≠ [] then unitSequencesParamGroup units else [])
    ++ all.flatMap returnBitfieldsParamGroup

/-- `send_login_request`: what is sent, the `msglen` bytes from `bytes` on.
`mem` is what memory holds after what has been written. -/
def sendLoginRequest (c : Credentials) (inboundSeqnum : UInt8 → UInt32)
    (mem : Bytes) : Bytes :=
  (loginRequest c inboundSeqnum ++ mem).take (loginLength inboundSeqnum)

end Login

-- ================================================================= reading

namespace ReturnMessage

/-- `InboundMsgBuffer`: the struct of the message, eight bytes of bits, and
the optional fields. -/
def inboundMsgBuffer (m : ReturnMessage) : List Field :=
  m.fixedFields ++ .returnBitfields :: m.optionalFields

/-- A member of the buffer that a message is cast to. -/
def read (m : ReturnMessage) (buf : Bytes) (f : Field) : Bytes :=
  bytesAt buf (Lib.Record.offset Field.width m.inboundMsgBuffer f) f.width

/-- The cases of `handle_raw_msg` with a message of these types. -/
def ofMessageType (b : UInt8) : Option ReturnMessage :=
  all.find? fun m => m.messageType = b

end ReturnMessage

/-- The only byte of a field. -/
def charOf (bs : Bytes) : Char := .ofNat (byteAt bs 0).toNat

/-- What the handlers of sequenced messages read of one, given how its
members are read. -/
def sequencedOf (m : ReturnMessage) (get : Field → Bytes) :
    Option SequencedMessage :=
  let clOrdID := get .clOrdID
  let message := fun body : MessageBody => some
    { header := ⟨leNat (get .matchingUnit), leNat (get .sequenceNumber)⟩
      transactionTime := leNat (get .transactionTime)
      clOrdID := HPRFields.read
        ⟨byteAt clOrdID 0, bytesAt clOrdID 1 6, bytesAt clOrdID 7 13⟩
      body }
  match m with
  | .orderAcknowledgment =>
      message (.orderAcknowledgment (leNat (get .orderID))
        { side := charOf (get .side)
          price := leNat (get .price)
          ordType := charOf (get .ordType)
          timeInForce := charOf (get .timeInForce)
          symbol := get .symbol
          orderQty := leNat (get .orderQty)
          leavesQty := leNat (get .leavesQty) })
  | .orderExecution =>
      message (.orderExecution (leNat (get .lastShares))
        (leNat (get .lastPx)))
  | .orderCancelled => message (.orderCancelled (leNat (get .leavesQty)))
  | .orderModified => message (.orderModified (leNat (get .leavesQty)))
  | .orderRestated =>
      message (.orderRestated (leNat (get .orderQty))
        (leNat (get .leavesQty)))
  | .tradeCancelOrCorrect => message .tradeCancelOrCorrect
  | .orderRejected | .userModifyRejected | .cancelRejected => none

/-- A buffer, as the handlers of sequenced messages read it. -/
def sequenced (buf : Bytes) : Option SequencedMessage :=
  (ReturnMessage.ofMessageType (byteAt buf 4)).bind fun m =>
    sequencedOf m (m.read buf)

/-- `I01_ASSERT_SIZE` of the messages. -/
example : (loginFields :: ReturnMessage.all.map ReturnMessage.fixedFields).map
      (Lib.Record.size Field.width)
    = [29, 48, 101, 48, 49, 101, 41, 101, 70, 94] := by decide

end BOE20

end TradingEngine.OE
