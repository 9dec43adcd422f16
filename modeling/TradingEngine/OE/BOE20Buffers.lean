/-
`oe/BATS/BOE20Session.hpp`, `OutboundMsgBuffer` and `BufferStore`: the
buffers of the messages to the exchange, which are prepared once and then
used again and again, and the three functions that fill them in.

# Buffers

A buffer is the packed message that lies in it, field by field, and `bytes`
is what of it is sent, in the byte order of the host. Before a buffer is
prepared it holds whatever memory held. Nothing after `eom` is ever sent,
and it is left out.

# Relation

`BOE20Send.lean` has the same functions with the message that is written in
place of the buffer it is written from.
-/
import TradingEngine.Lib.Bytes
import TradingEngine.OE.BOE20ClOrdID
import TradingEngine.OE.BOE20Send

namespace TradingEngine.OE

open Lib (leBytes)

variable {ι : Type}

namespace BOE20

-- =============================================================== enumerators

/-- The value of an enumerator that is a character. -/
def charByte (c : Char) : UInt8 := c.toNat.toUInt8

def DisplayIndicator.value : DisplayIndicator → UInt8
  | .unknown => 0
  | .default => charByte 'V'
  | .priceAdjust => charByte 'P'
  | .multiplePriceAdjust => charByte 'm'
  | .cancelBackIfNeedsAdjustment => charByte 'R'
  | .hidden => charByte 'r'
  | .displayPriceSliding => charByte 'S'
  | .displayPriceSlidingNoCross => charByte 'L'
  | .multipleDisplayPriceSliding => charByte 'M'
  | .hideNotSlideDeprecated => charByte 'H'
  | .visible => charByte 'v'
  | .invisible => charByte 'I'
  | .noRescrapeAtLimit => charByte 'N'

def ExecInst.value : ExecInst → UInt8
  | .unknown => 0
  | .default => charByte ' '
  | .intermarketSweep => charByte 'f'
  | .marketPeg => charByte 'P'
  | .marketMakerPeg => charByte 'Q'
  | .primaryPeg => charByte 'R'
  | .supplementalPeg => charByte 'U'
  | .listingMarketOpening => charByte 'o'
  | .listingMarketClosing => charByte 'c'
  | .bothListingMarketOpenNClose => charByte 'a'
  | .midpointDiscretionary => charByte 'd'
  | .midpointPegToNbboMid => charByte 'M'
  | .midpointPegToNbboMidNoLock => charByte 'm'
  | .alternativeMidpoint => charByte 'L'
  | .late => charByte 'r'
  | .midpointMatchDeprecated => charByte 'I'

def RoutingInstFirstChar.value : RoutingInstFirstChar → UInt8
  | .unknown => 0
  | .bookOnly => charByte 'B'
  | .postOnly => charByte 'P'
  | .postOnlyAtLimit => charByte 'Q'
  | .routable => charByte 'R'
  | .superAggressive => charByte 'S'
  | .aggressive => charByte 'X'
  | .superAggressiveWhenOddLot => charByte 'K'
  | .postToAway => charByte 'A'

def RoutingInstSecondChar.value : RoutingInstSecondChar → UInt8
  | .unknown => 0
  | .eligibleToRouteToDrtClc => charByte 'D'
  | .routeToDisplayedMktsOnly => charByte 'L'

/-- `RoutingInst::text`. The unused bytes are zero in every order. -/
def RoutingInst.text (ri : RoutingInst) : Bytes :=
  [ri.first.value, ri.second.value, 0, 0]

-- =================================================================== buffers

/-- `MessageHeader`. -/
structure OutboundHeader where
  startOfMessage : UInt16
  messageLength : UInt16
  messageType : UInt8
  matchingUnit : UInt8
  sequenceNumber : UInt32
  deriving Inhabited

def OutboundHeader.bytes (h : OutboundHeader) : Bytes :=
  leBytes 2 h.startOfMessage.toNat ++ leBytes 2 h.messageLength.toNat
    ++ [h.messageType, h.matchingUnit] ++ leBytes 4 h.sequenceNumber.toNat

/-- `fill_msg_header`, and the length that `prepare_..._buffer` puts in. -/
def fillMsgHeader (messageType : UInt8) (msglen : Nat) : OutboundHeader where
  startOfMessage := 0xBABA
  messageLength := .ofNat (msglen - 2)
  messageType := messageType
  matchingUnit := 0
  sequenceNumber := 0

/-- `NewOrder`, its bitfields and its `OptionalFields`. -/
structure NewOrderBuffer where
  header : OutboundHeader
  clOrdID : Bytes
  side : UInt8
  orderQty : UInt32
  numBitfields : UInt8
  bitfields : Bytes
  clearingFirm : Bytes
  clearingAccount : Bytes
  price : UInt64
  execInst : UInt8
  ordType : UInt8
  timeInForce : UInt8
  minQty : UInt32
  maxFloor : UInt32
  symbol : Bytes
  capacity : UInt8
  routingInst : Bytes
  account : Bytes
  displayIndicator : UInt8
  maxRemovePct : UInt8
  discretionAmount : UInt16
  pegDifference : UInt64
  attributedQuote : UInt8
  extExecInst : UInt8
  deriving Inhabited

/-- The bytes up to `msglen`. -/
def NewOrderBuffer.bytes (b : NewOrderBuffer) : Bytes :=
  b.header.bytes ++ b.clOrdID ++ [b.side] ++ leBytes 4 b.orderQty.toNat
    ++ [b.numBitfields] ++ b.bitfields
    ++ b.clearingFirm ++ b.clearingAccount ++ leBytes 8 b.price.toNat
    ++ [b.execInst, b.ordType, b.timeInForce]
    ++ leBytes 4 b.minQty.toNat ++ leBytes 4 b.maxFloor.toNat
    ++ b.symbol ++ [b.capacity] ++ b.routingInst ++ b.account
    ++ [b.displayIndicator, b.maxRemovePct]
    ++ leBytes 2 b.discretionAmount.toNat
    ++ leBytes 8 b.pegDifference.toNat ++ [b.attributedQuote, b.extExecInst]

/-- `CancelOrder`, likewise. -/
structure CancelOrderBuffer where
  header : OutboundHeader
  origClOrdID : Bytes
  numBitfields : UInt8
  bitfields : Bytes
  clearingFirm : Bytes
  deriving Inhabited

def CancelOrderBuffer.bytes (b : CancelOrderBuffer) : Bytes :=
  b.header.bytes ++ b.origClOrdID ++ [b.numBitfields] ++ b.bitfields
    ++ b.clearingFirm

/-- `ModifyOrder`, likewise. -/
structure ModifyOrderBuffer where
  header : OutboundHeader
  newClOrdID : Bytes
  origClOrdID : Bytes
  numBitfields : UInt8
  bitfields : Bytes
  clearingFirm : Bytes
  orderQty : UInt32
  price : UInt64
  ordType : UInt8
  cancelOrigOnReject : UInt8
  execInst : UInt8
  side : UInt8
  maxFloor : UInt32
  deriving Inhabited

def ModifyOrderBuffer.bytes (b : ModifyOrderBuffer) : Bytes :=
  b.header.bytes ++ b.newClOrdID ++ b.origClOrdID ++ [b.numBitfields]
    ++ b.bitfields ++ b.clearingFirm ++ leBytes 4 b.orderQty.toNat
    ++ leBytes 8 b.price.toNat
    ++ [b.ordType, b.cancelOrigOnReject, b.execInst, b.side]
    ++ leBytes 4 b.maxFloor.toNat

/-- `copy_to_array`: filled up with nulls on the right. -/
def copyToArray (width : Nat) (str : Bytes) : Bytes :=
  str.take width ++ List.replicate (width - str.length) 0

/-- What the constructor reads from the configuration. -/
structure SenderConf (ι : Type) where
  name : Bytes
  market : MIC
  findInstrument : Bytes → Option ι
  now : Timestamp
  hprBrokerLoc : UInt8
  /-- `m_bats_symbol_array`. -/
  symbolArray : ι → Bytes
  clearingFirm : Bytes
  clearingAccount : Bytes
  cancelOrigOnReject : Bool

variable (conf : SenderConf ι)

/-- `prepare_new_order_buffer`. -/
def prepareNewOrderBuffer (b : NewOrderBuffer) : NewOrderBuffer :=
  { b with
    header := fillMsgHeader 0x38 112
    numBitfields := 6
    bitfields := [255, 193, 31, 0, 10, 0]
    clearingFirm := copyToArray 4 conf.clearingFirm
    clearingAccount := copyToArray 4 conf.clearingAccount
    minQty := 0
    maxFloor := 0
    capacity := charByte 'A'
    account := copyToArray 16 [68, 69, 70, 71]
    maxRemovePct := 0
    discretionAmount := 0
    pegDifference := 0
    attributedQuote := charByte 'N'
    extExecInst := charByte 'N' }

/-- `prepare_cancel_order_buffer`. -/
def prepareCancelOrderBuffer (b : CancelOrderBuffer) : CancelOrderBuffer :=
  { b with
    header := fillMsgHeader 0x39 36
    numBitfields := 1
    bitfields := [1]
    clearingFirm := copyToArray 4 conf.clearingFirm }

/-- `prepare_modify_order_buffer`. -/
def prepareModifyOrderBuffer (b : ModifyOrderBuffer) : ModifyOrderBuffer :=
  { b with
    header := fillMsgHeader 0x3A 77
    numBitfields := 2
    bitfields := [253, 0]
    clearingFirm := copyToArray 4 conf.clearingFirm
    cancelOrigOnReject := charByte (if conf.cancelOrigOnReject then 'Y' else 'N')
    maxFloor := 0 }

end BOE20

open BOE20

-- =================================================================== session

/-- The sender, with the arrays of its three buffer stores. -/
structure BOE20Buffers (ι : Type) extends BOE20Sender ι where
  noArray : Nat → NewOrderBuffer
  cxlArray : Nat → CancelOrderBuffer
  modArray : Nat → ModifyOrderBuffer

/-- What a call leaves behind, and the bytes that the connection was given,
if any. -/
structure BufferedCall (ι : Type) where
  session : BOE20Buffers ι
  order : Order ι
  terms : OrderTerms
  bytes : Option Bytes
  result : Bool

namespace BOE20Buffers

/-- `NUM_MSG_BUFFERS`. -/
def numMsgBuffers : Nat := 128

/-- The constructor: `init` of the three stores, over what the memory of
their arrays holds. -/
def create (conf : SenderConf ι) (noMem : Nat → NewOrderBuffer)
    (cxlMem : Nat → CancelOrderBuffer) (modMem : Nat → ModifyOrderBuffer)
    (outboundSeqnum : UInt32) : BOE20Buffers ι where
  name := conf.name
  market := conf.market
  findInstrument := conf.findInstrument
  createClOrdID := fun op =>
    (createClOrdID conf.hprBrokerLoc conf.symbolArray op).arr
  now := conf.now
  state := .unconnected
  symbolArray := conf.symbolArray
  outboundSeqnum := outboundSeqnum
  idMap := fun _ => none
  noBufs := List.range numMsgBuffers
  cxlBufs := List.range numMsgBuffers
  modBufs := List.range numMsgBuffers
  lastMessageSent := ⟨0, 0⟩
  noArray := fun i => prepareNewOrderBuffer conf (noMem i)
  cxlArray := fun i => prepareCancelOrderBuffer conf (cxlMem i)
  modArray := fun i => prepareModifyOrderBuffer conf (modMem i)

variable (s : BOE20Buffers ι)

/-- `send_new_order`. -/
def sendNewOrder (op : Order ι) (terms : OrderTerms) (io : Io) :
    BufferedCall ι :=
  match s.noBufs with
  | [] => ⟨s, op, terms, none, false⟩
  | i :: noBufs =>
      let id := s.createClOrdID op
      let buf := { s.noArray i with clOrdID := id }
      let op := { op with clientOrderID := id }
      let sender :=
        { s.toBOE20Sender with noBufs := noBufs }.insertId op.localID id
      -- the buffer keeps what has been written into it so far
      let release := fun (sender : BOE20Sender ι) (buf : NewOrderBuffer) =>
        { s with
          toBOE20Sender := { sender with noBufs := i :: sender.noBufs }
          noArray := Function.update s.noArray i buf }
      match sideFromOrder op.side with
      | none => ⟨release sender buf, op, terms, none, false⟩
      | some side =>
      let buf := { buf with side := charByte side }
      if op.size > maxOrderQty then
        ⟨release sender buf, op, terms, none, false⟩
      else
      let buf :=
        { buf with
          orderQty := .ofNat op.size
          price := .ofNat (priceToFixed op.price) }
      match execInstFromOrder sender.market op.type terms.execInst with
      | none => ⟨release sender buf, op, terms, none, false⟩
      | some execInst =>
      let buf := { buf with execInst := execInst.value }
      let terms := { terms with execInst := execInst }
      match ordTypeFromOrder op.type with
      | none => ⟨release sender buf, op, terms, none, false⟩
      | some ordType =>
      let buf := { buf with ordType := charByte ordType }
      match tifFromOrder op.tif with
      | none => ⟨release sender buf, op, terms, none, false⟩
      | some tif =>
      let terms := { terms with
        displayIndicator := displayIndicatorFromOrder terms.displayIndicator
        routingInst := routingInstFromOrder terms.routingInst }
      let buf :=
        { buf with
          timeInForce := charByte tif
          displayIndicator := terms.displayIndicator.value
          routingInst := terms.routingInst.text
          symbol := sender.symbolArray op.instrument
          header := { buf.header with
            sequenceNumber := sender.outboundSeqnum } }
      ⟨release (sender.write io) buf, { op with sentTime := io.requested },
        terms, some buf.bytes, true⟩

/-- `send_cancel`. -/
def sendCancel (op : Order ι) (terms : OrderTerms) (io : Io) :
    BufferedCall ι :=
  let id := (s.idMap op.localID).getD (s.createClOrdID op)
  let sender := s.insertId op.localID id
  match sender.cxlBufs with
  | [] => ⟨{ s with toBOE20Sender := sender }, op, terms, none, false⟩
  | i :: cxlBufs =>
      let sender := { sender with cxlBufs := cxlBufs }
      let buf := s.cxlArray i
      let buf :=
        { buf with
          origClOrdID := id
          header := { buf.header with
            sequenceNumber := sender.outboundSeqnum } }
      let sender := sender.write io
      ⟨{ s with
          toBOE20Sender := { sender with cxlBufs := i :: sender.cxlBufs }
          cxlArray := Function.update s.cxlArray i buf },
        { op with lastRequestTime := io.requested }, terms, some buf.bytes,
        true⟩

/-- `send_modify`. -/
def sendModify (op : Order ι) (newqty : Nat) (terms : OrderTerms)
    (io : Io) : BufferedCall ι :=
  match s.idMap op.localID with
  | none => ⟨s, op, terms, none, false⟩
  | some id =>
  match s.modBufs with
  | [] => ⟨s, op, terms, none, false⟩
  | i :: modBufs =>
      let sender := { s.toBOE20Sender with modBufs := modBufs }
      let release := fun (sender : BOE20Sender ι) (buf : ModifyOrderBuffer) =>
        { s with
          toBOE20Sender := { sender with modBufs := i :: sender.modBufs }
          modArray := Function.update s.modArray i buf }
      let buf :=
        { s.modArray i with
          newClOrdID := id
          origClOrdID := id
          orderQty := .ofNat (u32 ((newqty : Int)
            + (op.size - op.cancelledSize) - op.openSize))
          price := .ofNat (priceToFixed op.price) }
      match ordTypeFromOrder op.type with
      | none => ⟨release sender buf, op, terms, none, false⟩
      | some ordType =>
      let buf := { buf with ordType := charByte ordType }
      match execInstFromOrder sender.market op.type terms.execInst with
      | none => ⟨release sender buf, op, terms, none, false⟩
      | some execInst =>
      let buf := { buf with execInst := execInst.value }
      let terms := { terms with execInst := execInst }
      match sideFromOrder op.side with
      | none => ⟨release sender buf, op, terms, none, false⟩
      | some side =>
      let buf :=
        { buf with
          side := charByte side
          header := { buf.header with
            sequenceNumber := sender.outboundSeqnum } }
      ⟨release (sender.write io) buf,
        { op with lastRequestTime := io.requested }, terms, some buf.bytes,
        true⟩

-- ===================================================================== calls

/-- The calls of the three functions. -/
inductive Call (ι : Type)
  | newOrder (op : Order ι) (terms : OrderTerms)
  | cancel (op : Order ι) (terms : OrderTerms)
  | modify (op : Order ι) (newqty : Nat) (terms : OrderTerms)

/-- The order of a call. -/
def Call.order : Call ι → Order ι
  | .newOrder op _ => op
  | .cancel op _ => op
  | .modify op _ _ => op

def call (c : Call ι) (io : Io) : BufferedCall ι :=
  match c with
  | .newOrder op terms => s.sendNewOrder op terms io
  | .cancel op terms => s.sendCancel op terms io
  | .modify op newqty terms => s.sendModify op newqty terms io

def step (e : Call ι × Io) : BOE20Buffers ι := (s.call e.1 e.2).session

end BOE20Buffers

end TradingEngine.OE
