/-
`oe/NASDAQ/OUCH42Session.cpp`, the order messages: what `handle_packet`
does with the OUCH message in a SoupBinTCP `SequencedDataPacket`.

# Messages

A message comes decoded: integers in the host's byte order, the id of its
order token as the number it spells. The checks of lengths before it is
read, and the count of sequence numbers, are left out. So are the members
that `NASDAQOrder` adds to an order (display, capacity, minimum size,
cancel reason and so on): the handlers write them and nothing reads them
back.

# Names

As in `Replay.lean`, orders go by their local ids where the session
creates them, and `m_orders` says which order has an id.
-/
import TradingEngine.OE.Replay
import TradingEngine.OE.Trading
import TradingEngine.Lib.Run

namespace TradingEngine.OE

variable {ι : Type}

namespace OUCH42

-- ================================================================== types

/-- `PriceSpecial::MAXIMUM_PRICE`: 199,999.99. -/
def maximumPrice : UInt32 := 0x7735939C

/-- `Price::get_limit`, of the price in host byte order. -/
def getLimit (price : UInt32) : Rat := (min maximumPrice price).toNat / 10000

/-- `TimeInForce::to_i01`, of the raw value in host byte order. The source
compares it unswapped, with the two special values in both byte orders. -/
def toI01 (tif : UInt32) : TimeInForce :=
  if tif = 0 then .immediateOrCancel
  else if tif = 0x1869E ∨ tif = 0x9E860100 then .day
  else if tif = 0x1869F ∨ tif = 0x9F860100 then .ext
  else .timed

inductive BuySellIndicator
  | buy
  | sell
  | short
  | shortExempt
  | other (code : UInt8)
  deriving DecidableEq

def toI01Side : BuySellIndicator → Side
  | .buy => .buy
  | .sell => .sell
  | .short => .short
  | .shortExempt => .shortExempt
  | .other _ => .unknown

inductive CrossType
  | openingCross
  | closingCross
  | haltOrIpoCross
  | other (code : UInt8)
  deriving DecidableEq

/-- `OUCH42::Types::OrderState`: whether an accepted order rests. -/
inductive AcceptedState
  | live
  | dead
  | other (code : UInt8)
  deriving DecidableEq

-- =============================================================== messages

/-- `OrderToken::HPRData`, less the symbol. -/
structure OrderToken where
  hprMarking : UInt8
  id : Nat
  deriving DecidableEq

/-- `'Z'`: rejected by the risk bot, and never seen by the exchange. -/
def riskbotReject : UInt8 := 90

/-- `OutboundOrderMessageHeader`, less the type. -/
structure OrderHeader where
  exchTime : Nat
  orderToken : OrderToken
  deriving DecidableEq

structure Accepted where
  buySellIndicator : BuySellIndicator
  shares : UInt32
  stock : Bytes
  price : UInt32
  timeInForce : UInt32
  orderReferenceNumber : Nat
  minimumQuantity : UInt32
  crossType : CrossType
  orderState : AcceptedState
  deriving DecidableEq

structure Replaced where
  shares : UInt32
  orderReferenceNumber : Nat
  orderState : AcceptedState
  previousOrderToken : OrderToken
  deriving DecidableEq

/-- What each message carries besides its header. -/
inductive OrderBody
  | accepted (m : Accepted)
  | replaced (m : Replaced)
  | canceled (decrementedShares : UInt32)
  | aiqCancelled (decrementedShares : UInt32)
  | executed (executedShares executionPrice : UInt32) (liquidityFlag : UInt8)
  | brokenTrade
  | rejected
  | cancelPending
  | cancelReject
  | orderPriorityUpdate (executionPrice : UInt32)
      (orderReferenceNumber : Nat)
  | orderModified (buySellIndicator : BuySellIndicator) (shares : UInt32)
  deriving DecidableEq

inductive OutboundMessage
  | systemEvent
  | order (hdr : OrderHeader) (body : OrderBody)
  deriving DecidableEq

/-- A message as it is read, and the time. -/
structure Packet where
  ts : Timestamp
  message : OutboundMessage
  deriving DecidableEq

/-- The time in force that an accepted order is left with. -/
def Accepted.tif (m : Accepted) : TimeInForce :=
  if m.timeInForce = 0 then
    match m.crossType with
    | .closingCross => .auctionClose
    | .openingCross => .auctionOpen
    | .haltOrIpoCross => .auctionHalt
    | .other _ =>
        if m.minimumQuantity = m.shares then .fillOrKill
        else .immediateOrCancel
  else if m.timeInForce = 0x1869E then .day
  else if m.timeInForce = 0x1869F then .ext
  else .timed

/-- The cast of a liquidity flag, whose zero is `UNKNOWN`. -/
def toFillFeeCode (flag : UInt8) : FillFeeCode :=
  if flag = 0 then .unknown else .flag flag.toNat

end OUCH42

open OUCH42

-- =============================================================== handlers

/-- The members of an `OUCH42Session` that its order messages need: the
name and the market, `m_symbol_inst_cache`, `create_order_token_hpr`, and
the clock at the creation of orders. -/
structure OUCH42Orders (ι : Type) where
  name : Bytes
  market : MIC
  findInstrument : Bytes → Option ι
  createOrderTokenHpr : Order ι → Option Bytes
  now : Timestamp

namespace OUCH42Orders

variable (s : OUCH42Orders ι)

/-- `on_create_replay_order`: orders for another market are not created. -/
def onCreateReplayOrder (a : ReplayOrder ι) : Option (Order ι) :=
  if a.market ≠ .xnas then none
  else
    let op := a.build s.name (List.replicate 20 32) s.now
    match s.createOrderTokenHpr op with
    | some token => some { op with clientOrderID := token }
    | none => some op

/-- What `create_replay_order` asks for. -/
def replayOrder (ts : Timestamp) (id : Nat) (m : Accepted) (inst : ι) :
    ReplayOrder ι where
  ts := ts
  instrument := inst
  market := s.market
  localAccount := 0
  localID := id
  price := getLimit m.price
  size := m.shares.toNat
  side := toI01Side m.buySellIndicator
  tif := toI01 m.timeInForce
  type := .limit
  userdata := 0
  size_lt := m.shares.toNat_lt

/-- `OrderSession::get_order`: not the orders of other sessions. -/
def getOrder (om : OrderManager ℕ ι) (localID : Nat) : Option ℕ :=
  match om.orderAt localID with
  | some op => if (om.order op).session = some s.name then some op else none
  | none => none

variable [DecidableEq ι]

/-- `create_replay_order`. The order is adopted here; the pointer is null
where the market does not fit. -/
def createReplayOrder (om : OrderManager ℕ ι) (ts : Timestamp) (id : Nat)
    (m : Accepted) : OrderManager ℕ ι :=
  match s.findInstrument m.stock with
  | none => om
  | some inst =>
      om.adoptOrphanOrder s.name id
        (s.onCreateReplayOrder (s.replayOrder ts id m inst))

/-- The end of `order_token_check` for an order that is not found. After
an order is created for it, an `ACCEPTED` message goes no further. -/
def handleUnknown (om : OrderManager ℕ ι) (ts : Timestamp)
    (hdr : OrderHeader) : OrderBody → OrderManager ℕ ι
  | .accepted m =>
      if hdr.orderToken.hprMarking = riskbotReject then
        om.adoptOrphanOrder s.name hdr.orderToken.id none
      else s.createReplayOrder om ts hdr.orderToken.id m
  | _ => om

/-- `case MT::ACCEPTED`. -/
def handleAccepted (om : OrderManager ℕ ι) (ts : Timestamp)
    (hdr : OrderHeader) (op : ℕ) (m : Accepted) : OrderManager ℕ ι :=
  let om := om.setOrder op { om.order op with
    price := getLimit m.price
    tif := m.tif }
  match m.orderState with
  | .live =>
      om.onAcknowledged op m.orderReferenceNumber m.shares.toNat ts
        hdr.exchTime
  | .dead =>
      let om := om.onAcknowledged op m.orderReferenceNumber m.shares.toNat
        ts hdr.exchTime
      let om := om.onCancel op (om.order op).size ts hdr.exchTime
      om.setOrder op { om.order op with state := .cancelled }
  | .other _ => om

/-- `case MT::REPLACED`: the previous order ends, and the order of the
message takes over. -/
def handleReplaced (om : OrderManager ℕ ι) (ts : Timestamp)
    (hdr : OrderHeader) (op : ℕ) (m : Replaced) : OrderManager ℕ ι :=
  let previd := m.previousOrderToken.id
  match s.getOrder om previd with
  | none => om
  | some po =>
      if previd = 0 then om
      else
        let om := om.setOrder po { om.order po with
          state := .cancelReplaced }
        let om := om.onCancel po (om.order po).openSize ts hdr.exchTime
        let om := om.setOrder po { om.order po with
          state := .cancelReplaced }
        if m.orderState = .dead ∧ (om.order op).isTerminal = false then
          om.onCancel op (om.order op).openSize ts hdr.exchTime
        else if m.orderState = .live then
          om.onAcknowledged op m.orderReferenceNumber m.shares.toNat ts
            hdr.exchTime
        else om

/-- `case MT::ORDER_MODIFIED`, which goes past the order manager. -/
def handleModified (om : OrderManager ℕ ι) (ts : Timestamp)
    (hdr : OrderHeader) (op : ℕ) (side : BuySellIndicator)
    (shares : UInt32) : OrderManager ℕ ι :=
  match side with
  | .other _ => om
  | _ => om.setOrder op { om.order op with
      side := toI01Side side
      openSize := shares.toNat
      lastResponseTime := ts
      lastExchangeTime := hdr.exchTime }

/-- The second switch of `handle_packet`, for the order `op`. -/
def handleKnown (om : OrderManager ℕ ι) (ts : Timestamp)
    (hdr : OrderHeader) (op : ℕ) : OrderBody → OrderManager ℕ ι
  | .accepted m => handleAccepted om ts hdr op m
  | .replaced m => s.handleReplaced om ts hdr op m
  | .canceled decrementedShares | .aiqCancelled decrementedShares =>
      om.onCancel op decrementedShares.toNat ts hdr.exchTime
  | .executed executedShares executionPrice liquidityFlag =>
      om.onFill op executedShares.toNat (getLimit executionPrice) ts
        hdr.exchTime (toFillFeeCode liquidityFlag)
  | .brokenTrade => om
  | .rejected => om.onRejected op ts hdr.exchTime
  | .cancelPending | .cancelReject =>
      om.onCancelRejected op ts hdr.exchTime
  | .orderPriorityUpdate executionPrice orderReferenceNumber =>
      om.setOrder op { om.order op with
        price := getLimit executionPrice
        exchangeID := orderReferenceNumber }
  | .orderModified side shares => handleModified om ts hdr op side shares

/-- `handle_packet` of a sequenced data packet. -/
def handlePacket (om : OrderManager ℕ ι) (p : Packet) : OrderManager ℕ ι :=
  match p.message with
  | .systemEvent => om
  | .order hdr body =>
      if hdr.orderToken.id = 0 then om
      else
        match s.getOrder om hdr.orderToken.id with
        | none => s.handleUnknown om p.ts hdr body
        | some op =>
            if hdr.orderToken.hprMarking = riskbotReject then
              om.onRejected op p.ts hdr.exchTime
            else s.handleKnown om p.ts hdr op body

end OUCH42Orders

end TradingEngine.OE
