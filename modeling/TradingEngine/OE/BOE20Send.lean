/-
`oe/BATS/BOE20Session.cpp`, the sending side: `send` and `cancel`, and the
three messages that they write to the connection.

The connection is outside: what its `send` returns comes with the call, and
so do the clock readings (`Io`). The buffers of a store differ in nothing
but their index; the fields they are prepared with once, which are the same
in all messages of a session, are left out of the messages.
-/
import TradingEngine.OE.BOE20Session

namespace TradingEngine.OE

variable {ι : Type}

/-- Direct Edge X and BATS Y, by their place in the list of markets. -/
def MIC.edgx : MIC := .other 9

def MIC.baty : MIC := .other 6

namespace BOE20

-- =================================================================== orders

/-- `BOE20Order::DisplayIndicator`. -/
inductive DisplayIndicator
  | unknown
  | default
  | priceAdjust
  | multiplePriceAdjust
  | cancelBackIfNeedsAdjustment
  | hidden
  | displayPriceSliding
  | displayPriceSlidingNoCross
  | multipleDisplayPriceSliding
  | hideNotSlideDeprecated
  | visible
  | invisible
  | noRescrapeAtLimit
  deriving DecidableEq

/-- `BOE20Order::ExecInst`. -/
inductive ExecInst
  | unknown
  | default
  | intermarketSweep
  | marketPeg
  | marketMakerPeg
  | primaryPeg
  | supplementalPeg
  | listingMarketOpening
  | listingMarketClosing
  | bothListingMarketOpenNClose
  | midpointDiscretionary
  | midpointPegToNbboMid
  | midpointPegToNbboMidNoLock
  | alternativeMidpoint
  | late
  | midpointMatchDeprecated
  deriving DecidableEq

inductive RoutingInstFirstChar
  | unknown
  | bookOnly
  | postOnly
  | postOnlyAtLimit
  | routable
  | superAggressive
  | aggressive
  | superAggressiveWhenOddLot
  | postToAway
  deriving DecidableEq

inductive RoutingInstSecondChar
  | unknown
  | eligibleToRouteToDrtClc
  | routeToDisplayedMktsOnly
  deriving DecidableEq

/-- `BOE20Order::RoutingInst`, by its layout. -/
structure RoutingInst where
  first : RoutingInstFirstChar
  second : RoutingInstSecondChar
  deriving DecidableEq

/-- What a `BOE20Order` adds to an order. -/
structure OrderTerms where
  displayIndicator : DisplayIndicator
  execInst : ExecInst
  routingInst : RoutingInst
  deriving DecidableEq

/-- A new `BOE20Order`. -/
def OrderTerms.init : OrderTerms := ⟨.unknown, .unknown, .unknown, .unknown⟩

-- ============================================================== conversions

def priceToFixed (p : Rat) : Nat := ⌊p * 10000 + 1 / 2⌋.toNat

def sideFromOrder : Side → Option Char
  | .buy => some '1'
  | .sell => some '2'
  | .short => some '5'
  | .shortExempt => some '6'
  | .unknown => none

/-- A stop order is sent with its limit. -/
def ordTypeFromOrder : OrderType → Option Char
  | .market => some '1'
  | .stop => some '4'
  | .midpointPeg => some 'P'
  | .limit => some '2'
  | .unknown => none

def tifFromOrder : TimeInForce → Option Char
  | .day => some '0'
  | .gtc => some '1'
  | .ext => some '5'
  | .auctionOpen => some '2'
  | .auctionClose => some '7'
  | .immediateOrCancel => some '3'
  | .fillOrKill => some '4'
  | .timed | .auctionHalt | .unknown => none

/-- What is asked for is honoured where the market has it. -/
def execInstFromOrder (market : MIC) (type : OrderType) :
    ExecInst → Option ExecInst
  | .unknown =>
      some (if type = .midpointPeg then .midpointPegToNbboMid else .default)
  | .listingMarketOpening =>
      if market ≠ .bats ∧ market ≠ .edgx then none
      else some .listingMarketOpening
  | .listingMarketClosing =>
      if market ≠ .bats ∧ market ≠ .edgx then none
      else some .listingMarketClosing
  | .bothListingMarketOpenNClose =>
      if market ≠ .bats ∧ market ≠ .edgx then none
      else some .bothListingMarketOpenNClose
  | .midpointDiscretionary =>
      if market ≠ .baty then none else some .midpointDiscretionary
  | .late => if market ≠ .bats then none else some .late
  | ei => some ei

def displayIndicatorFromOrder : DisplayIndicator → DisplayIndicator
  | .unknown => .default
  | di => di

def routingInstFromOrder (ri : RoutingInst) : RoutingInst :=
  if ri.first = .unknown then ⟨.bookOnly, .unknown⟩ else ri

-- ================================================================= messages

/-- `MAX_ORDER_QTY`. -/
def maxOrderQty : Nat := 999999

structure NewOrder where
  sequenceNumber : UInt32
  clOrdID : Bytes
  side : Char
  orderQty : Nat
  price : Nat
  execInst : ExecInst
  ordType : Char
  timeInForce : Char
  symbol : Bytes
  routingInst : RoutingInst
  displayIndicator : DisplayIndicator
  deriving DecidableEq

structure CancelOrder where
  sequenceNumber : UInt32
  origClOrdID : Bytes
  deriving DecidableEq

structure ModifyOrder where
  sequenceNumber : UInt32
  newClOrdID : Bytes
  origClOrdID : Bytes
  orderQty : Nat
  price : Nat
  ordType : Char
  execInst : ExecInst
  side : Char
  deriving DecidableEq

inductive OutboundMessage
  | newOrder (m : NewOrder)
  | cancelOrder (m : CancelOrder)
  | modifyOrder (m : ModifyOrder)
  deriving DecidableEq

/-- `msglen`: the message, its bitfields and its optional fields. -/
def OutboundMessage.msglen : OutboundMessage → Nat
  | .newOrder _ => 36 + 6 + 70
  | .cancelOrder _ => 31 + 1 + 4
  | .modifyOrder _ => 51 + 2 + 24

end BOE20

open BOE20

-- ================================================================== session

/-- `BOE20Session::State`. -/
inductive BOE20Sender.State
  | uninitialized
  | unconnected
  | waitingForLogin
  | replay
  | active
  | logoutSent
  | userLogoutRequest
  | errorDisconnect
  | disconnect
  deriving DecidableEq

/-- The members of a `BOE20Session` that `send` and `cancel` work on. -/
structure BOE20Sender (ι : Type) extends BOE20Session ι where
  state : BOE20Sender.State
  /-- `m_bats_symbol_array`. -/
  symbolArray : ι → Bytes
  /-- `m_persist_state->data()->outbound_seqnum`. -/
  outboundSeqnum : UInt32
  /-- `m_id_map`. -/
  idMap : Nat → Option Bytes
  /-- The free lists of `m_no_bufs`, `m_cxl_bufs` and `m_mod_bufs`. -/
  noBufs : List Nat
  cxlBufs : List Nat
  modBufs : List Nat
  lastMessageSent : Timestamp

/-- What `m_connection.send` returns, and the clock before and after it. -/
structure Io where
  accepted : Int
  requested : Timestamp
  now : Timestamp
  deriving DecidableEq

/-- What a call leaves behind: the session, the order and what is special
about it, what was written to the connection, if anything, and the value
returned. -/
structure BOE20Call (ι : Type) where
  session : BOE20Sender ι
  order : Order ι
  terms : OrderTerms
  written : Option OutboundMessage
  result : Bool

namespace BOE20Sender

variable (s : BOE20Sender ι)

/-- `m_id_map.insert`, which keeps an id that is there. -/
def insertId (localID : Nat) (id : Bytes) : BOE20Sender ι :=
  match s.idMap localID with
  | some _ => s
  | none =>
      { s with idMap := Function.update s.idMap localID (some id) }

/-- `send_helper_nolock`. It returns nothing. -/
def sendHelperNolock (io : Io) : BOE20Sender ι :=
  if io.accepted < 0 then s else { s with lastMessageSent := io.now }

/-- `outbound_seqnum++`, and the write. -/
def write (io : Io) : BOE20Sender ι :=
  { s with outboundSeqnum := s.outboundSeqnum + 1 }.sendHelperNolock io

/-- `send_new_order`. -/
def sendNewOrder (op : Order ι) (terms : OrderTerms) (io : Io) :
    BOE20Call ι :=
  match s.noBufs with
  | [] => ⟨s, op, terms, none, false⟩
  | buf :: noBufs =>
      let id := s.createClOrdID op
      let op := { op with clientOrderID := id }
      let s := { s with noBufs := noBufs }.insertId op.localID id
      let release := fun s : BOE20Sender ι =>
        { s with noBufs := buf :: s.noBufs }
      match sideFromOrder op.side with
      | none => ⟨release s, op, terms, none, false⟩
      | some side =>
      if op.size > maxOrderQty then ⟨release s, op, terms, none, false⟩
      else
      match execInstFromOrder s.market op.type terms.execInst with
      | none => ⟨release s, op, terms, none, false⟩
      | some execInst =>
      let terms := { terms with execInst := execInst }
      match ordTypeFromOrder op.type with
      | none => ⟨release s, op, terms, none, false⟩
      | some ordType =>
      match tifFromOrder op.tif with
      | none => ⟨release s, op, terms, none, false⟩
      | some tif =>
      let terms := { terms with
        displayIndicator := displayIndicatorFromOrder terms.displayIndicator
        routingInst := routingInstFromOrder terms.routingInst }
      let msg : NewOrder :=
        { sequenceNumber := s.outboundSeqnum
          clOrdID := id
          side := side
          orderQty := op.size
          price := priceToFixed op.price
          execInst := execInst
          ordType := ordType
          timeInForce := tif
          symbol := s.symbolArray op.instrument
          routingInst := terms.routingInst
          displayIndicator := terms.displayIndicator }
      ⟨release (s.write io), { op with sentTime := io.requested }, terms,
        some (.newOrder msg), true⟩

/-- `send_cancel`. An id that is not there, which may be so after a
recovery, is made again. -/
def sendCancel (op : Order ι) (terms : OrderTerms) (io : Io) :
    BOE20Call ι :=
  let id := (s.idMap op.localID).getD (s.createClOrdID op)
  let s := s.insertId op.localID id
  match s.cxlBufs with
  | [] => ⟨s, op, terms, none, false⟩
  | buf :: cxlBufs =>
      let s := { s with cxlBufs := cxlBufs }
      let msg : CancelOrder := ⟨s.outboundSeqnum, id⟩
      let s := s.write io
      ⟨{ s with cxlBufs := buf :: s.cxlBufs },
        { op with lastRequestTime := io.requested }, terms,
        some (.cancelOrder msg), true⟩

/-- `send_modify`. The exchange takes the difference of the quantities off
what is left of the order. -/
def sendModify (op : Order ι) (newqty : Nat) (terms : OrderTerms)
    (io : Io) : BOE20Call ι :=
  match s.idMap op.localID with
  | none => ⟨s, op, terms, none, false⟩
  | some id =>
  match s.modBufs with
  | [] => ⟨s, op, terms, none, false⟩
  | buf :: modBufs =>
      let s := { s with modBufs := modBufs }
      let release := fun s : BOE20Sender ι =>
        { s with modBufs := buf :: s.modBufs }
      let orderQty := u32 ((newqty : Int) + (op.size - op.cancelledSize)
        - op.openSize)
      match ordTypeFromOrder op.type with
      | none => ⟨release s, op, terms, none, false⟩
      | some ordType =>
      match execInstFromOrder s.market op.type terms.execInst with
      | none => ⟨release s, op, terms, none, false⟩
      | some execInst =>
      let terms := { terms with execInst := execInst }
      match sideFromOrder op.side with
      | none => ⟨release s, op, terms, none, false⟩
      | some side =>
      let msg : ModifyOrder :=
        { sequenceNumber := s.outboundSeqnum
          newClOrdID := id
          origClOrdID := id
          orderQty := orderQty
          price := priceToFixed op.price
          ordType := ordType
          execInst := execInst
          side := side }
      ⟨release (s.write io), { op with lastRequestTime := io.requested },
        terms, some (.modifyOrder msg), true⟩

def send (op : Order ι) (terms : OrderTerms) (io : Io) : BOE20Call ι :=
  if s.state ≠ .active then ⟨s, op, terms, none, false⟩
  else s.sendNewOrder op terms io

/-- `cancel`: with a quantity, that is to be left, only to reduce. -/
def cancel (op : Order ι) (newqty : Nat) (terms : OrderTerms) (io : Io) :
    BOE20Call ι :=
  if s.state ≠ .active then ⟨s, op, terms, none, false⟩
  else if newqty ≠ 0 then
    if newqty ≥ op.size then ⟨s, op, terms, none, false⟩
    else s.sendModify op newqty terms io
  else s.sendCancel op terms io

end BOE20Sender

/-- What `OrderManager::send` sees of a `send`. A `BATSOrder` is always
valid. -/
def BOE20Call.sendAnswer (r : BOE20Call ι) : OrderManager.SendAnswer where
  validated := true
  sent := r.result
  sentTime := r.order.sentTime
  clientOrderID := r.order.clientOrderID

end TradingEngine.OE
