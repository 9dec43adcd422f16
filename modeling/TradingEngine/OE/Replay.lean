/-
`OrderManager::on_log_*` and `BlotterReader::decode`: rebuilding an order
manager from its order log.

A replayed order is an object of its own, created by its session and
reached through `m_orders` alone. So it goes by the local id it is adopted
under: the order manager of a replay is an `OrderManager ℕ ι`. The
universe is the one the log was written with; the branch for an unknown
instrument is left out.
-/
import TradingEngine.OE.OrderManager

namespace TradingEngine.OE

variable {ι : Type}

/-- The arguments of `OrderSession::on_create_replay_order`. -/
structure ReplayOrder (ι : Type) where
  ts : Timestamp
  instrument : ι
  market : MIC
  localAccount : Nat
  localID : Nat
  price : Rat
  size : Nat
  side : Side
  tif : TimeInForce
  type : OrderType
  userdata : Nat
  size_lt : size < 4294967296

/-- `on_create_replay_order` of every session, by name; `none` is the null
pointer. -/
abbrev CreateReplayOrder (ι : Type) :=
  Bytes → ReplayOrder ι → Option (Order ι)

/-- The order that the exchange sessions build from the arguments, with
their own client order id and the clock's time; user data is not
recovered. -/
def ReplayOrder.build (a : ReplayOrder ι) (session clientOrderID : Bytes)
    (now : Timestamp) : Order ι :=
  { Order.create {
      instrument := a.instrument
      market := a.market
      price := a.price
      size := a.size
      side := a.side
      tif := a.tif
      type := a.type
      userdata := 0
      creationTime := now
      size_lt := a.size_lt } with
    session := some session
    sentTime := a.ts
    localID := a.localID
    clientOrderID := clientOrderID }

/-- The arguments, from a log record. -/
def NewOrderBody.replayOrder (b : NewOrderBody ι) (ts : Timestamp) :
    ReplayOrder ι where
  ts := ts
  instrument := b.instrumentEsi
  market := b.marketMic
  localAccount := b.oid.localAccount
  localID := b.oid.localID
  price := b.origPrice
  size := b.size
  side := b.side
  tif := b.tif
  type := b.type
  userdata := b.userData
  size_lt := b.size_lt

namespace OrderManager

-- =============================================================== local ids

/-- `extend_local_id`: the skipped entries are null for now. -/
def extendLocalID (om : OrderManager ℕ ι) (lid : Nat) : OrderManager ℕ ι :=
  if lid + 1 > om.orders.length then
    { om with
      orders := om.orders
        ++ List.replicate (lid + 1 - om.orders.length) none
      localID := lid }
  else om

/-- `extend_local_id_helper`: whether the id was a new one. -/
def extendLocalIDHelper (om : OrderManager ℕ ι) (oid : OrderIdentifier) :
    Bool × OrderManager ℕ ι :=
  if oid.localID ≤ om.localID then (false, om)
  else (true, om.extendLocalID oid.localID)

variable [DecidableEq ι]

/-- `adopt_order_helper`, in memory: the order is counted as open and sent,
and a null pointer takes the place all the same. -/
def adoptOrderHelper (om : OrderManager ℕ ι) (op : Option (Order ι))
    (localID : Nat) : OrderManager ℕ ι :=
  match op with
  | some o =>
      let o := { o with localID := localID }
      let om := om.setOrder localID { o with state := .sent }
      { om with
        desk := om.desk.onOrderAdds o o.size
        orders := om.orders.set localID (some localID) }
  | none => { om with orders := om.orders.set localID none }

/-- `adopt_orphan_order` before its log record. -/
def applyOrphan (om : OrderManager ℕ ι) (sessionName : Bytes)
    (localID : Nat) (op : Option (Order ι)) : OrderManager ℕ ι :=
  let oid := ⟨0, localID, stringToSessionName sessionName⟩
  (om.extendLocalIDHelper oid).2.adoptOrderHelper op localID

/-- `adopt_orphan_order`, which logs the order it adopts. -/
def adoptOrphanOrder (om : OrderManager ℕ ι) (sessionName : Bytes)
    (localID : Nat) (op : Option (Order ι)) : OrderManager ℕ ι :=
  let om := om.applyOrphan sessionName localID op
  if op.isSome then om.append (logOrderSent (om.order localID)) else om

-- ================================================================ handlers

/-- `on_log_order_sent`. The order is created before its id is looked at;
an id that is not new leaves it at that. -/
def onLogOrderSent (create : CreateReplayOrder ι) (om : OrderManager ℕ ι)
    (ts : Timestamp) (b : NewOrderBody ι) : OrderManager ℕ ι :=
  let name := b.oid.sessionName.toString
  let op :=
    if name ∈ om.sessions.map Prod.fst then
      create name (b.replayOrder ts)
    else none
  let r := om.extendLocalIDHelper b.oid
  if r.1 then r.2.adoptOrderHelper op b.oid.localID else om

omit [DecidableEq ι] in
def onLogLocalReject (om : OrderManager ℕ ι) (b : NewOrderBody ι) :
    OrderManager ℕ ι :=
  (om.extendLocalIDHelper b.oid).2

/-- `m_orders[lid]`, and null past the end, where no handler looks. -/
def orderAt (om : OrderManager ℕ ι) (lid : Nat) : Option ℕ :=
  om.orders[lid]?.join

/-- The frame of the other handlers: extend, look the order up, and go on
unless the entry is null. -/
def onLogOrder (om : OrderManager ℕ ι) (oid : OrderIdentifier)
    (update : OrderManager ℕ ι → ℕ → OrderManager ℕ ι) :
    OrderManager ℕ ι :=
  let om := (om.extendLocalIDHelper oid).2
  match om.orderAt oid.localID with
  | some p => update om p
  | none => om

def onLogPendingCancel (om : OrderManager ℕ ι) (b : OrderCxlReqBody) :
    OrderManager ℕ ι :=
  om.onLogOrder b.oid fun om p =>
    om.setOrder p { om.order p with state := .pendingCancel }

def onLogDestroy (om : OrderManager ℕ ι) (b : OrderDestroyBody) :
    OrderManager ℕ ι :=
  om.onLogOrder b.oid fun om _ =>
    { om with orders := om.orders.set b.oid.localID none }

def onLogAcknowledged (om : OrderManager ℕ ι) (ts : Timestamp)
    (b : OrderAckBody) : OrderManager ℕ ι :=
  om.onLogOrder b.oid fun om p =>
    om.applyAcknowledged p 0 b.openSize ts b.exchangeTs

def onLogRejected (om : OrderManager ℕ ι) (ts : Timestamp)
    (b : OrderRejectBody) : OrderManager ℕ ι :=
  om.onLogOrder b.oid fun om p => om.applyRejected p ts b.exchangeTs

/-- No locates are given back here, and whether the fill was partial is
not asked. -/
def onLogFilled (om : OrderManager ℕ ι) (ts : Timestamp)
    (_partialFill : Bool) (b : OrderFillBody) : OrderManager ℕ ι :=
  om.onLogOrder b.oid fun om p =>
    let o := orderUpdateOnFill (om.order p) b.filledQty b.filledPrice ts
      b.exchangeTs b.filledFeeCode
    let fee := feeFromFill o b.filledQty b.filledPrice
    { om.setOrder p o with
      desk := om.desk.onOrderFill o b.filledQty b.filledPrice fee }

def onLogCancelRejected (om : OrderManager ℕ ι) (ts : Timestamp)
    (b : OrderCxlRejectBody) : OrderManager ℕ ι :=
  om.onLogOrder b.oid fun om p =>
    om.setOrder p { om.order p with
      state := .cancelRejected
      lastResponseTime := ts }

def onLogCancelled (om : OrderManager ℕ ι) (ts : Timestamp)
    (b : OrderCxlBody) : OrderManager ℕ ι :=
  om.onLogOrder b.oid fun om p =>
    let o := orderUpdateOnCancel (om.order p) b.cxledQty ts b.exchangeTs
    { om.setOrder p o with desk := om.desk.onOrderRemoves o b.cxledQty }

-- ============================================================== the reader

/-- `BlotterReader::decode`, with the order manager as the listener. The
header's type picks the handler and the body is read as that type's;
`on_log_partial_cancel` and the other handlers the order manager does not
override do nothing. -/
def decode (create : CreateReplayOrder ι) (om : OrderManager ℕ ι)
    (m : Message ι) : OrderManager ℕ ι :=
  match m.type, m.body with
  | .orderLocalReject, .orderLocalReject b => om.onLogLocalReject b
  | .orderSent, .orderSent b => om.onLogOrderSent create m.timestamp b
  | .orderAcknowledgement, .orderAck b => om.onLogAcknowledged m.timestamp b
  | .orderPartialFill, .orderFill b => om.onLogFilled m.timestamp true b
  | .orderFill, .orderFill b => om.onLogFilled m.timestamp false b
  | .orderCancelRequest, .orderCxlReq b => om.onLogPendingCancel b
  | .orderCancel, .orderCxl b => om.onLogCancelled m.timestamp b
  | .orderRemoteReject, .orderReject b => om.onLogRejected m.timestamp b
  | .orderCancelReject, .orderCxlReject b =>
      om.onLogCancelRejected m.timestamp b
  | .orderDestroy, .orderDestroy b => om.onLogDestroy b
  | _, _ => om

/-- `BlotterReader::replay`: every record of the log, in order. -/
def replay (create : CreateReplayOrder ι) (om : OrderManager ℕ ι)
    (log : List (Message ι)) : OrderManager ℕ ι :=
  log.foldl (decode create) om

end OrderManager

end TradingEngine.OE
