/-
`oe/L2SimSession.cpp`: the simulated exchange, which fills orders from
market data, and its queue of events to come.

# Time

A timestamp is its nanoseconds since the epoch; sums and comparisons of
`core::Timestamp` are those of the nanoseconds. `update_ts` is taken turn
by turn, because the order manager's listeners may send and cancel while
it runs: `startOfData` begins it, a `turn` is one pass through its loop,
and `endOfUpdate` is what comes after the loop. A priority queue says
nothing of the order among events that are due together, so a turn names
the one it takes.

# What is outside

The market's own book: what a turn or an event reads of it comes with it
(`BookView`). Events of other markets, which every handler ignores, are
left out, and so is the check of `m_ignore_trading_state`, which the
constructor sets and nothing clears. `size_ahead` and `size_behind` have an
assertion of their own in `reduce_size_from_back`, which is not modelled.

`reduce_helper` reads `remains` through an iterator it has just erased. The
value read is taken to be the one that was there.
-/
import TradingEngine.Core.Timestamp
import TradingEngine.MD.OrderBook
import TradingEngine.OE.Trading
import Mathlib.Data.Prod.Lex

namespace TradingEngine.OE

open MD (FullL2Quote L2Quote)

variable {ω ι : Type}

-- ==================================================================== time

/-- The timestamp of so many nanoseconds. -/
def Timestamp.ofNanos (ns : Nat) : Timestamp :=
  ⟨(ns / 1000000000 : Nat), (ns % 1000000000 : Nat)⟩

/-- `nanoseconds_since_midnight`. -/
def nanosecondsSinceMidnight (ns : Nat) : Nat := ns % (86400 * 1000000000)

-- =================================================================== events

namespace MD

/-- `MD::to_double`, and `price_as_double`. -/
def toDouble (p : MD.Price) : Rat := p.toNat / 10000

end MD

/-- `SimEvent`, less its timestamp, which nothing reads. -/
structure SimEvent (ω : Type) where
  state : OrderState
  order : ω
  esi : Nat
  size : Nat
  price : Rat
  deriving DecidableEq

/-- `SimEvent::Ordering`: the time, and the index among events of one
time. `TSECompare` has what is least on top. -/
abbrev SimEvent.Ordering := ℕ ×ₗ ℕ

/-- `Ordering(ts, index)`. -/
def dueAt (ts index : Nat) : SimEvent.Ordering := toLex (ts, index)

structure SimOrder (ω : Type) where
  order : ω
  sizeAhead : Nat
  sizeBehind : Nat
  remains : Nat
  deriving DecidableEq

-- ==================================================================== books

/-- The order containers of a `BookEntry`. -/
inductive Container
  | bids
  | closeBids
  | openBids
  | asks
  | closeAsks
  | openAsks
  deriving DecidableEq, Repr

/-- Bids are sorted by `std::greater`, asks by `std::less`. -/
def Container.before : Container → Rat → Rat → Bool
  | .bids, p, q => q < p
  | .closeBids, p, q => q < p
  | .openBids, p, q => q < p
  | .asks, p, q => p < q
  | .closeAsks, p, q => p < q
  | .openAsks, p, q => p < q

/-- Whether the orders in it wait for an auction. -/
def Container.auction : Container → Bool
  | .bids => false
  | .asks => false
  | _ => true

/-- A `std::map` from prices to orders. -/
abbrev OrderContainer (ω : Type) := List (Rat × SimOrder ω)

namespace OrderContainer

/-- `find`. -/
def find (c : OrderContainer ω) (price : Rat) : Option (SimOrder ω) :=
  c.lookup price

/-- `emplace`: what is there already stays. -/
def emplace (before : Rat → Rat → Bool) (price : Rat) (o : SimOrder ω) :
    OrderContainer ω → OrderContainer ω
  | [] => [(price, o)]
  | (p, o') :: c =>
      if p = price then (p, o') :: c
      else if before price p then (price, o) :: (p, o') :: c
      else (p, o') :: emplace before price o c

/-- The order at the price is changed, or erased. -/
def updateAt (price : Rat) (f : SimOrder ω → Option (SimOrder ω)) :
    OrderContainer ω → OrderContainer ω
  | [] => []
  | (p, o) :: c =>
      if p = price then
        match f o with
        | some o' => (p, o') :: c
        | none => c
      else (p, o) :: updateAt price f c

end OrderContainer

/-- `SymbolState::Session`. -/
inductive SymbolSession
  | unknown
  | premarket
  | market
  | postmarket
  deriving DecidableEq, Repr

structure BookEntry (ω : Type) where
  /-- Whether `book_p` is set. -/
  bookP : Bool
  orders : Container → OrderContainer ω
  /-- The reference numbers of trades. -/
  trades : List Nat
  /-- `state`, of which only the session is read. -/
  session : SymbolSession

/-- `BookEntry()`. -/
def BookEntry.empty : BookEntry ω := ⟨false, fun _ => [], [], .unknown⟩

/-- What the session reads of the market's own book. -/
structure BookView where
  /-- `best()`. -/
  best : FullL2Quote
  /-- The size of `l2_bid(to_fixed(price))`. -/
  l2Bid : Rat → Nat
  /-- The size of `l2_ask(to_fixed(price))`. -/
  l2Ask : Rat → Nat

-- ============================================================== market data

/-- `ImbalanceDirection`. -/
inductive ImbalanceDirection
  | buyImbalance
  | sellImbalance
  | noImbalance
  | insufficientOrdersToCalculate
  deriving DecidableEq, Repr

/-- `NOIIEntry`; without an update it is not valid. -/
abbrev NOIIEntry := Option (ImbalanceDirection × Nat)

namespace NOIIEntry

def direction (n : NOIIEntry) : ImbalanceDirection :=
  match n with
  | some noii => noii.1
  | none => .noImbalance

def imbalanceShares (n : NOIIEntry) : Nat :=
  match n with
  | some noii => noii.2
  | none => 0

end NOIIEntry

/-- `DeltaReasonCode`. -/
inductive DeltaReasonCode
  | none
  | newOrder
  | cancel
  | execution
  | multipleEvents
  deriving DecidableEq, Repr

/-- What a cross print is of: `trade_condition2` of an XDP trade, or
`cross_type` of an ITCH cross. -/
inductive CrossType
  | closing
  | opening
  | other
  deriving DecidableEq, Repr

/-- The events of a market's book. -/
inductive MarketEvent
  /-- The session after `state.update`. -/
  | tradingStatus (session : SymbolSession)
  | bookAdded (side : MD.Side) (price : MD.Price) (size : Nat)
  | bookCanceled (refnum : Nat) (side : MD.Side) (price : MD.Price)
      (size oldSize : Nat)
  | bookModified (side : MD.Side) (newPrice : MD.Price) (newSize : Nat)
      (oldRefnum : Nat) (oldPrice : MD.Price) (oldSize : Nat)
  | bookExecuted (refnum : Nat) (side : MD.Side) (price : MD.Price)
      (size tradeId : Nat) (execPrice : MD.Price) (execSize oldSize : Nat)
  /-- With the best of the updated side. -/
  | l2Update (isBuy isBbo isReduced : Bool) (price : MD.Price)
      (deltaSize : Nat) (reason : DeltaReasonCode) (best : L2Quote)
  /-- `some` with the type of the print, if `m_cross`. -/
  | trade (tradeId : Nat) (price : MD.Price) (size : UInt64)
      (cross : Option CrossType)
  | nasdaqImbalance (direction : ImbalanceDirection) (shares : Nat)

-- ================================================================== session

/-- The markets that `on_trade` tells apart. -/
inductive SimMarket
  | xnys
  | xnas
  | other
  deriving DecidableEq, Repr

structure L2SimSession (ω ι : Type) where
  name : Bytes
  mic : SimMarket
  ackLatency : Nat
  cxlLatency : Nat
  /-- `nasdaq_display() == IMBALANCE_ONLY`, of a `NASDAQOrder`. -/
  imbalanceOnly : ω → Bool
  ts : Nat
  eventq : List (SimEvent.Ordering × SimEvent ω)
  /-- `m_orders`, by local id. -/
  orders : Nat → Option ω
  books : Nat → BookEntry ω
  booksSize : Nat
  indexMap : ι → Option Nat
  execThisPkt : Nat → Option Nat
  lastNoii : Nat → NOIIEntry

namespace L2SimSession

/-- The constructor, with the latencies of the configuration. -/
def create (name : Bytes) (mic : SimMarket) (ackLatency cxlLatency : Nat)
    (imbalanceOnly : ω → Bool) : L2SimSession ω ι where
  name := name
  mic := mic
  ackLatency := ackLatency
  cxlLatency := cxlLatency
  imbalanceOnly := imbalanceOnly
  ts := 0
  eventq := []
  orders := fun _ => none
  books := fun _ => .empty
  booksSize := 0
  indexMap := fun _ => none
  execThisPkt := fun _ => none
  lastNoii := fun _ => none

/-- `m_eventq.emplace`, of several events that are due together. -/
def emplaceAll (s : L2SimSession ω ι) (due : SimEvent.Ordering)
    (events : List (SimEvent ω)) : L2SimSession ω ι :=
  { s with eventq := s.eventq ++ events.map fun e => (due, e) }

def emplace (s : L2SimSession ω ι) (due : SimEvent.Ordering)
    (event : SimEvent ω) : L2SimSession ω ι := s.emplaceAll due [event]

/-- A container of a book, changed. -/
def setOrders (s : L2SimSession ω ι) (esi : Nat) (k : Container)
    (c : OrderContainer ω) : L2SimSession ω ι :=
  { s with
    books := Function.update s.books esi
      { s.books esi with
        orders := Function.update (s.books esi).orders k c } }

-- ==================================================================== orders

/-- `send`: the types and times in force it knows, symbols it knows. -/
def accepts (s : L2SimSession ω ι) (o : Order ι) : Bool :=
  decide (s.ts ≠ 0)
    && (o.type == .market || o.type == .limit)
    && (o.tif == .day || o.tif == .ext || o.tif == .immediateOrCancel
      || o.tif == .auctionOpen || o.tif == .auctionClose)
    && (s.indexMap o.instrument).isSome

/-- The event `send` puts into the queue. -/
def send (s : L2SimSession ω ι) (w : ω) (o : Order ι) : L2SimSession ω ι :=
  s.emplace (dueAt (s.ts + s.ackLatency) 0)
    ⟨.sent, w, (s.indexMap o.instrument).getD 0, 0, 0⟩

/-- `cancel`: no increase of the size. -/
def acceptsCancel (s : L2SimSession ω ι) (o : Order ι) (newqty : Nat) :
    Bool :=
  (s.indexMap o.instrument).isSome && decide (newqty < o.size)

/-- The event `cancel` puts into the queue. -/
def cancel (s : L2SimSession ω ι) (w : ω) (o : Order ι) (newqty : Nat) :
    L2SimSession ω ι :=
  s.emplace (dueAt (s.ts + s.cxlLatency) 0)
    ⟨.pendingCancel, w, (s.indexMap o.instrument).getD 0, newqty, 0⟩

-- ================================================================== arrival

/-- Label `cancel` of `on_order_sent`. -/
def cancelArrival (s : L2SimSession ω ι) (ts : Nat) (se : SimEvent ω)
    (remains : Nat) : L2SimSession ω ι :=
  s.emplace (dueAt (ts + s.cxlLatency) 0)
    ⟨.cancelled, se.order, se.esi, remains, 0⟩

/-- The `ACKNOWLEDGED` of an order that arrived. -/
def acknowledgeArrival (s : L2SimSession ω ι) (ts : Nat) (se : SimEvent ω) :
    L2SimSession ω ι :=
  s.emplace (dueAt (ts + s.ackLatency) 0)
    ⟨.acknowledged, se.order, se.esi, 0, 0⟩

/-- Whether the order's time in force is that of an auction. -/
def isAuction (o : Order ι) : Bool :=
  o.tif == .auctionOpen || o.tif == .auctionClose

/-- An auction that is over, for the session the symbol is in. -/
def tooLate (o : Order ι) (session : SymbolSession) : Bool :=
  match o.tif with
  | .auctionOpen => !(session == .unknown || session == .premarket)
  | .auctionClose => session == .postmarket
  | _ => false

/-- Where an auction order waits. -/
def auctionContainer (o : Order ι) : Container :=
  if o.side = .buy then
    if o.tif = .auctionClose then .closeBids else .openBids
  else if o.tif = .auctionClose then .closeAsks
  else .openAsks

/-- Under which price. -/
def auctionPrice (o : Order ι) : Rat :=
  if o.type = .market then (if o.side = .buy then 500000 else 0)
  else o.price

/-- Where any other order rests. -/
def restingContainer (o : Order ι) : Container :=
  if o.side = .buy then .bids else .asks

/-- The quote the order could trade with. -/
def opposite (o : Order ι) (best : FullL2Quote) : L2Quote :=
  if o.side = .buy then best.ask else best.bid

/-- Whether it does. -/
def crosses (o : Order ι) (best : FullL2Quote) : Bool :=
  match o.side with
  | .unknown => false
  | .buy => o.type == .market || decide (MD.toDouble best.ask.price ≤ o.price)
  | _ => o.type == .market || decide (o.price ≤ MD.toDouble best.bid.price)

/-- "only support one order per price right now". -/
def priceTaken (o : Order ι) (be : BookEntry ω) : Bool :=
  o.side != .unknown && ((be.orders (restingContainer o)).find o.price).isSome

/-- No part of the order is to rest. -/
def takesOnly (o : Order ι) : Bool :=
  o.type == .market || o.tif == .immediateOrCancel

/-- The assertion of `on_order_sent`. -/
def restsAssert (o : Order ι) : Bool :=
  o.type != .market && !(o.type == .limit && o.tif == .immediateOrCancel)

variable [DecidableEq ω]

/-- `on_order_sent`, with whether its assertion held. -/
def onOrderSent (s : L2SimSession ω ι) (o : Order ι) (ts : Nat)
    (se : SimEvent ω) (view : BookView) : L2SimSession ω ι × Bool :=
  let s := { s with
    orders := Function.update s.orders o.localID (some se.order) }
  let be := s.books se.esi
  if isAuction o then
    if tooLate o be.session then (s.cancelArrival ts se o.size, true)
    else
      let k := auctionContainer o
      let c := (be.orders k).emplace k.before (auctionPrice o)
        ⟨se.order, 0, 0, o.size⟩
      ((s.setOrders se.esi k c).acknowledgeArrival ts se, true)
  else if be.bookP then
    if priceTaken o be then (s.cancelArrival ts se o.size, true)
    else
      let q := opposite o view.best
      let fillSize :=
        if crosses o view.best then min o.size q.size.toNat else 0
      let remains := o.size - fillSize
      let s :=
        if crosses o view.best then
          (s.acknowledgeArrival ts se).emplace (dueAt (ts + s.ackLatency) 1)
            ⟨.filled, se.order, se.esi, fillSize, MD.toDouble q.price⟩
        else s
      if crosses o view.best && remains != 0 && takesOnly o then
        (s.emplace (dueAt (ts + s.cxlLatency) 1)
          ⟨.cancelled, se.order, se.esi, remains, 0⟩, true)
      else if remains = 0 then (s, true)
      else if o.type == .market
          || (o.type == .limit && o.tif == .immediateOrCancel) then
        (s.cancelArrival ts se remains, true)
      else
        -- if we haven't had any fills, then just send an ACK
        let s := if remains = o.size then s.acknowledgeArrival ts se else s
        let k := restingContainer o
        let sizeAhead :=
          if o.side = .buy then view.l2Bid o.price else view.l2Ask o.price
        (s.setOrders se.esi k ((be.orders k).emplace k.before o.price
          ⟨se.order, sizeAhead, 0, remains⟩), restsAssert o)
  else (s.cancelArrival ts se o.size, true)

-- =================================================================== cancels

/-- The states in which `on_order_pending_cancel` goes on. -/
def cancelable : OrderState → Bool
  | .sent | .acknowledged | .partiallyFilled | .cancelReplaced
  | .pendingCancel | .pendingCancelReplace => true
  | _ => false

/-- `reduce_helper`: the amount cancelled, and what it leaves of the order,
if it is the one at the price. -/
def reduceHelper (c : OrderContainer ω) (price : Rat) (w : ω)
    (newqty : Nat) : Nat × OrderContainer ω :=
  match c.find price with
  | none => (0, c)
  | some simo =>
      if simo.order = w then
        if newqty = 0 ∨ simo.remains = newqty then
          (simo.remains, c.updateAt price fun _ => none)
        else if newqty < simo.remains then
          (newqty, c.updateAt price fun o =>
            some { o with remains := o.remains - newqty })
        else (0, c)
      else (0, c)

/-- The `CANCEL_REJECTED` of a request. -/
def rejectCancel (s : L2SimSession ω ι) (ts : Nat) (se : SimEvent ω) :
    L2SimSession ω ι :=
  s.emplace (dueAt (ts + s.cxlLatency) 0)
    ⟨.cancelRejected, se.order, 0, 0, 0⟩

/-- `on_order_pending_cancel`. -/
def onOrderPendingCancel (s : L2SimSession ω ι) (order : ω → Order ι)
    (ts : Nat) (se : SimEvent ω) : L2SimSession ω ι :=
  match s.orders (order se.order).localID with
  | none => s.rejectCancel ts se
  | some w =>
      if cancelable (order se.order).state then
        let k := restingContainer (order w)
        let r := reduceHelper ((s.books se.esi).orders k) (order w).price w
          se.size
        let s := s.setOrders se.esi k r.2
        if r.1 = 0 then s.rejectCancel ts se
        else
          s.emplace (dueAt (ts + s.cxlLatency) 0)
            ⟨.cancelled, se.order, se.esi, r.1, 0⟩
      else s.rejectCancel ts se

-- =================================================================== crosses

/-- `AvailSize` and `NasdaqCrossAvailSize`. -/
structure AvailSize where
  avail : Nat
  imbalanceAvail : Nat

namespace AvailSize

def get (a : AvailSize) (imbalanceOnly : Bool) : Nat :=
  if imbalanceOnly then a.imbalanceAvail else a.avail

def remove (a : AvailSize) (imbalanceOnly : Bool) (shares : Nat) :
    AvailSize :=
  if imbalanceOnly then { a with imbalanceAvail := a.imbalanceAvail - shares }
  else { a with avail := a.avail - shares }

end AvailSize

/-- What `cross_helper` is called with. -/
structure Cross (ω : Type) where
  /-- `check_price`. -/
  checkPrice : ω → Bool
  /-- `check_price.ref`. -/
  ref : Rat
  /-- The orders that trade against the imbalance only. -/
  imbalanceOnly : ω → Bool
  avail : AvailSize
  cxlRemainder : Bool

/-- `PriceGE`. -/
def priceGE (ref : Rat) (o : Order ι) : Bool := decide (ref ≤ o.price)

/-- `PriceLE`. -/
def priceLE (ref : Rat) (o : Order ι) : Bool := decide (o.price ≤ ref)

/-- `NasdaqImbCross`, over the comparison of the prices. -/
def nasdaqImbCross (imbalanceOnly : Bool) (direction : ImbalanceDirection)
    (comp : Bool) (o : Order ι) : Bool :=
  if imbalanceOnly then
    match direction with
    | .buyImbalance => decide (Side.sell.code ≤ o.side.code) && comp
    | .sellImbalance => o.side == .buy && comp
    | _ => false
  else comp

/-- The value of the enumerator. -/
def stateCode : OrderState → Nat
  | .unknown => 0
  | .newAndUnsent => 1
  | .locallyRejected => 2
  | .sent => 3
  | .acknowledged => 4
  | .partiallyFilled => 5
  | .filled => 6
  | .pendingCancel => 7
  | .partiallyCancelled => 8
  | .cancelled => 9
  | .pendingCancelReplace => 10
  | .cancelReplaced => 11
  | .remotelyRejected => 12
  | .cancelRejected => 13

/-- One pass through the loop of `cross_helper`: what stays of the order,
the events, and the size that is left for the others. -/
def crossEntry (order : ω → Order ι) (esi : Nat) (x : Cross ω)
    (a : AvailSize) (simo : SimOrder ω) :
    Option (SimOrder ω) × List (SimEvent ω) × AvailSize :=
  let o := order simo.order
  let imb := x.imbalanceOnly simo.order
  let openSize :=
    if stateCode o.state < stateCode .acknowledged then o.size
    else simo.remains
  if x.checkPrice simo.order && a.get imb != 0 then
    let fillSize :=
      if simo.sizeAhead = 0 then min simo.remains (a.get imb) else 0
    let fills : List (SimEvent ω) :=
      if simo.sizeAhead = 0 then
        [⟨.filled, simo.order, esi, fillSize, x.ref⟩]
      else []
    let a := a.remove imb fillSize
    let simo := { simo with remains := simo.remains - fillSize }
    if simo.remains = 0 then (none, fills, a)
    else if x.cxlRemainder then
      (some simo, fills
        ++ [⟨.cancelled, simo.order, esi, openSize - fillSize, 0⟩], a)
    else (some simo, fills, a)
  else if x.cxlRemainder then
    (some simo, [⟨.cancelled, simo.order, esi, openSize, 0⟩], a)
  else (some simo, [], a)

/-- The loop of `cross_helper`. -/
def crossLoop (order : ω → Order ι) (esi : Nat) (x : Cross ω) :
    AvailSize → OrderContainer ω → OrderContainer ω × List (SimEvent ω)
  | _, [] => ([], [])
  | a, (p, simo) :: c =>
      let r := crossEntry order esi x a simo
      let rest := crossLoop order esi x r.2.2 c
      ((r.1.map fun o => (p, o)).toList ++ rest.1, r.2.1 ++ rest.2)

/-- `cross_helper`, with the shares crossed. -/
def crossHelper (s : L2SimSession ω ι) (order : ω → Order ι) (esi : Nat)
    (k : Container) (x : Cross ω) (ts : Nat) : L2SimSession ω ι × Nat :=
  let r := crossLoop order esi x x.avail ((s.books esi).orders k)
  ((s.setOrders esi k r.1).emplaceAll (dueAt (ts + s.ackLatency) 0) r.2,
    ((r.2.filter fun e => e.state = .filled).map fun e => e.size).sum)

/-- The fills of one order in `exec_cross_helper`, which goes back to it
until nothing remains, and never takes a fill off `avail_size`. -/
def execFills (w : ω) (esi : Nat) (ref : Rat) (avail remains : Nat) :
    List (SimEvent ω) :=
  let fillSize := min remains avail
  if remains - fillSize = 0 ∨ avail = 0 then
    [⟨.filled, w, esi, fillSize, ref⟩]
  else
    ⟨.filled, w, esi, fillSize, ref⟩
      :: execFills w esi ref avail (remains - fillSize)
termination_by remains

/-- The loop of `exec_cross_helper`, with what is left of the size. -/
def execCrossLoop (checkPrice : ω → Bool) (esi : Nat) (ref : Rat) :
    Nat → OrderContainer ω →
      OrderContainer ω × List (SimEvent ω) × Nat
  | avail, [] => ([], [], avail)
  | avail, (p, simo) :: c =>
      if checkPrice simo.order then
        -- `reduce_size_from_front`
        let amt := min simo.sizeAhead avail
        let simo := { simo with sizeAhead := simo.sizeAhead - amt }
        let avail := avail - amt
        let rest := execCrossLoop checkPrice esi ref avail c
        if avail ≠ 0 then
          (rest.1, execFills simo.order esi ref avail simo.remains
            ++ rest.2.1, rest.2.2)
        else ((p, simo) :: rest.1, rest.2)
      else ((p, simo) :: c, [], avail)

-- ============================================================== market data

/-- The container of a side. -/
def sideContainer : MD.Side → Container
  | .buy => .bids
  | .sell => .asks

/-- `reduce_size_from_back`. -/
def reduceSizeFromBack (deltaSize : Nat) (o : SimOrder ω) : SimOrder ω :=
  let amt := min o.sizeBehind deltaSize
  let o := { o with sizeBehind := o.sizeBehind - amt }
  let deltaSize := deltaSize - amt
  if o.sizeBehind = 0 ∧ deltaSize ≠ 0 then
    { o with sizeAhead := o.sizeAhead - min o.sizeAhead deltaSize }
  else o

/-- `reduce_size_from_front`. -/
def reduceSizeFromFront (deltaSize : Nat) (o : SimOrder ω) : SimOrder ω :=
  { o with sizeAhead := o.sizeAhead - min o.sizeAhead deltaSize }

/-- Size that shows up behind the order. -/
def addSizeBehind (size : Nat) (o : SimOrder ω) : SimOrder ω :=
  { o with sizeBehind := u32 (o.sizeBehind + size) }

/-- A change of the sizes around the order at a price, if there is one. -/
def adjust (s : L2SimSession ω ι) (esi : Nat) (k : Container)
    (price : MD.Price) (f : SimOrder ω → SimOrder ω) : L2SimSession ω ι :=
  s.setOrders esi k
    (((s.books esi).orders k).updateAt (MD.toDouble price) fun o =>
      some (f o))

/-- `find_book_entry`: `book_p` is set from here on. -/
def findBookEntry (s : L2SimSession ω ι) (esi : Nat) :
    Option (L2SimSession ω ι) :=
  if esi < s.booksSize then
    some { s with
      books := Function.update s.books esi
        { s.books esi with bookP := true } }
  else none

/-- `be->trades.insert`. -/
def insertTrade (s : L2SimSession ω ι) (esi tradeId : Nat) :
    L2SimSession ω ι :=
  { s with
    books := Function.update s.books esi
      { s.books esi with trades := tradeId :: (s.books esi).trades } }

/-- `modify_order_helper`. -/
def modifyOrderHelper (s : L2SimSession ω ι) (esi : Nat) (k : Container)
    (newPrice : MD.Price) (newSize : Nat) (oldPrice : MD.Price)
    (oldSize deltaIfReduced : Nat) : L2SimSession ω ι :=
  if newPrice ≠ oldPrice then
    (s.adjust esi k oldPrice (reduceSizeFromBack oldSize)).adjust esi k
      newPrice (addSizeBehind newSize)
  else if newSize ≥ oldSize then
    s.adjust esi k oldPrice fun o =>
      addSizeBehind newSize (reduceSizeFromBack oldSize o)
  else s.adjust esi k oldPrice (reduceSizeFromBack deltaIfReduced)

/-- `size_update_helper`. -/
def sizeUpdateHelper (s : L2SimSession ω ι) (esi : Nat) (k : Container)
    (price : MD.Price) (deltaSize : Nat) (reason : DeltaReasonCode)
    (isReduced : Bool) : L2SimSession ω ι :=
  match reason with
  | .newOrder => s.adjust esi k price (addSizeBehind deltaSize)
  | .cancel => s.adjust esi k price (reduceSizeFromBack deltaSize)
  | .execution => s.adjust esi k price (reduceSizeFromFront deltaSize)
  | .multipleEvents =>
      if isReduced then s.adjust esi k price (reduceSizeFromBack deltaSize)
      else s.adjust esi k price (addSizeBehind deltaSize)
  | .none => s

/-- A cross of orders at least as good as the price, with one size for
all. -/
def plainCross (checkPrice : ω → Bool) (ref : Rat) (avail : Nat) :
    Cross ω :=
  ⟨checkPrice, ref, fun _ => false, ⟨avail, 0⟩, false⟩

section Market

variable (s : L2SimSession ω ι) (order : ω → Order ι) (ts esi : Nat)

/-- `on_book_executed`, of a book that was found. -/
def onBookExecuted (refnum : Nat) (side : MD.Side) (price : MD.Price)
    (size tradeId : Nat) (execPrice : MD.Price) (execSize oldSize : Nat) :
    L2SimSession ω ι :=
  if tradeId ∈ (s.books esi).trades then s
  else
    let k := sideContainer side
    let ref := MD.toDouble execPrice
    let check := fun w =>
      match side with
      | .buy => priceGE ref (order w)
      | .sell => priceLE ref (order w)
    let r := execCrossLoop check esi ref execSize ((s.books esi).orders k)
    let s := (s.setOrders esi k r.1).emplaceAll (dueAt (ts + s.ackLatency) 0)
      r.2.1
    -- `exec_event_size_helper`
    let s :=
      if size > oldSize then
        s.adjust esi k price (addSizeBehind (size - oldSize))
      else s
    -- `insert` keeps what is there
    let s :=
      { s with
        execThisPkt :=
          if (s.execThisPkt refnum).isSome then s.execThisPkt
          else Function.update s.execThisPkt refnum (some r.2.2) }
    s.insertTrade esi tradeId

/-- `on_l2_update`, of a book that is known. -/
def onL2Update (isBuy isBbo isReduced : Bool) (price : MD.Price)
    (deltaSize : Nat) (reason : DeltaReasonCode) (best : L2Quote) :
    L2SimSession ω ι :=
  if deltaSize = 0 then s
  else
    let ref := MD.toDouble best.price
    if isBuy then
      let s := s.sizeUpdateHelper esi .bids price deltaSize reason isReduced
      if isBbo then
        (s.crossHelper order esi .asks
          (plainCross (fun w => priceLE ref (order w)) ref best.size.toNat)
          ts).1
      else s
    else
      let s := s.sizeUpdateHelper esi .asks price deltaSize reason isReduced
      if isBbo then
        (s.crossHelper order esi .bids
          (plainCross (fun w => priceGE ref (order w)) ref best.size.toNat)
          ts).1
      else s

/-- A cross of two auction containers, one after the other. -/
def crossBoth (k k' : Container) (bidCross askCross : Cross ω) :
    L2SimSession ω ι :=
  ((s.crossHelper order esi k bidCross ts).1.crossHelper order esi k'
    askCross ts).1

/-- `handle_nyse_cross`. The opening crosses the closing orders too. -/
def handleNyseCross (price : MD.Price) (size : Nat) (type : CrossType) :
    L2SimSession ω ι :=
  let ref := MD.toDouble price
  let bidCross := { plainCross (fun w => priceGE ref (order w)) ref size with
    cxlRemainder := true }
  let askCross := { plainCross (fun w => priceLE ref (order w)) ref size with
    cxlRemainder := true }
  match type with
  | .closing =>
      s.crossBoth order ts esi .closeBids .closeAsks bidCross askCross
  | .opening =>
      s.crossBoth order ts esi .closeBids .closeAsks bidCross askCross
  | .other => s

/-- `handle_nasdaq_cross`. -/
def handleNasdaqCross (price : MD.Price) (size : Nat) (type : CrossType) :
    L2SimSession ω ι :=
  let ref := MD.toDouble price
  let noii := s.lastNoii esi
  let avail : AvailSize := ⟨size, noii.imbalanceShares⟩
  let check := fun (comp : Order ι → Bool) w =>
    nasdaqImbCross (s.imbalanceOnly w) noii.direction (comp (order w))
      (order w)
  let bidComp : Cross ω :=
    ⟨check (priceGE ref), ref, s.imbalanceOnly, avail, true⟩
  let askComp : Cross ω :=
    ⟨check (priceLE ref), ref, s.imbalanceOnly, avail, true⟩
  match type with
  | .closing =>
      s.crossBoth order ts esi .closeBids .closeAsks bidComp askComp
  | .opening =>
      s.crossBoth order ts esi .openBids .openAsks bidComp askComp
  | .other => s

/-- `on_trade`, of a book that was found. -/
def onTrade (tradeId : Nat) (price : MD.Price) (size : UInt64)
    (cross : Option CrossType) : L2SimSession ω ι :=
  if tradeId ∈ (s.books esi).trades then s
  else
    let size := u32 size.toNat
    match cross with
    | some type =>
        match s.mic with
        | .xnys => s.handleNyseCross order ts esi price size type
        | .xnas => s.handleNasdaqCross order ts esi price size type
        | .other => s
    | none =>
        let ref := MD.toDouble price
        let bidCross := plainCross (fun w => priceGE ref (order w)) ref size
        let askCross := plainCross (fun w => priceLE ref (order w)) ref size
        if (s.books esi).orders .bids ≠ []
            ∨ (s.books esi).orders .asks ≠ [] then
          let r := s.crossHelper order esi .bids bidCross ts
          -- can't fill both bids and asks on same trade
          if r.2 ≠ 0 then r.1
          else
            (r.1.crossHelper order esi .asks askCross ts).1.insertTrade esi
              tradeId
        else s.insertTrade esi tradeId

/-- The handlers of market data, for a book of the session's market. -/
def onMarketEvent : MarketEvent → L2SimSession ω ι
  | .tradingStatus session =>
      if esi < s.booksSize then
        { s with
          books := Function.update s.books esi
            { s.books esi with session := session } }
      else s
  | .bookAdded side price size =>
      match s.findBookEntry esi with
      | none => s
      | some s => s.adjust esi (sideContainer side) price (addSizeBehind size)
  | .bookCanceled refnum side price size oldSize =>
      match s.findBookEntry esi with
      | none => s
      | some s =>
          let delta := (s.execThisPkt refnum).getD (u32 (oldSize - size))
          s.adjust esi (sideContainer side) price (reduceSizeFromBack delta)
  | .bookModified side newPrice newSize oldRefnum oldPrice oldSize =>
      match s.findBookEntry esi with
      | none => s
      | some s =>
          let delta :=
            (s.execThisPkt oldRefnum).getD (u32 (oldSize - newSize))
          s.modifyOrderHelper esi (sideContainer side) newPrice newSize
            oldPrice oldSize delta
  | .bookExecuted refnum side price size tradeId execPrice execSize
      oldSize =>
      match s.findBookEntry esi with
      | none => s
      | some s =>
          s.onBookExecuted order ts esi refnum side price size tradeId
            execPrice execSize oldSize
  | .l2Update isBuy isBbo isReduced price deltaSize reason best =>
      match s.findBookEntry esi with
      | none => s
      | some s =>
          s.onL2Update order ts esi isBuy isBbo isReduced price deltaSize
            reason best
  | .trade tradeId price size cross =>
      match s.findBookEntry esi with
      | none => s
      | some s => s.onTrade order ts esi tradeId price size cross
  | .nasdaqImbalance direction shares =>
      { s with
        lastNoii :=
          Function.update s.lastNoii esi (some (direction, shares)) }

end Market

/-- `on_symbol_definition`. -/
def onSymbolDefinition [DecidableEq ι] (s : L2SimSession ω ι) (ticker : ι)
    (esi : Nat) : L2SimSession ω ι :=
  { s with
    indexMap := Function.update s.indexMap ticker (some esi)
    booksSize := max s.booksSize (esi + 1) }

end L2SimSession

end TradingEngine.OE
