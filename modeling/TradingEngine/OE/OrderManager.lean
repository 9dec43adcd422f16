/-
`oe/OrderManager.cpp`: the live order manager.

`ω` stands for `Order *`; `order` is the memory behind the pointers and
`orders` is `m_orders`, where `none` is the null pointer. Null arguments,
which every entry point refuses before anything happens, are left out,
and so are the listeners, which only observe.

# What comes from outside

What a session or a derived order answers is an input of the operation
that asks: the derived `validate()` and the session's `send` (with the
sent time and the client order id it writes to the order), its `cancel`
(with the last request time) and its `destroy`. None of them calls back
into the order manager before returning.

# Steps

`send` is composed of the steps it takes under separate locks, so that
they can also be interleaved (`SendThreads.lean`). Each exchange event is
an in-memory update followed by one append to the order log.
-/
import TradingEngine.OE.Desk
import TradingEngine.OE.Instrument
import TradingEngine.OE.OrderLogFormat

namespace TradingEngine.OE

variable {ω ι : Type}

structure OrderManager (ω ι : Type) where
  localID : Nat
  /-- `m_firm_risk`, and the positions of the universe. -/
  desk : Desk ι
  instrument : ι → EquityInstrument
  orders : List (Option ω)
  order : ω → Order ι
  /-- The names in `m_sessions`, each with its market. -/
  sessions : List (Bytes × MIC)
  /-- The file behind `m_blotter_p`, oldest record first. -/
  orderlog : List (Message ι)

/-- What the constructor, `init` and `add_session` are given: the firm
limits and what `FirmRiskCheck::init` makes of them, the universe with its
start-of-day figures, the sessions, and the orders the strategies have
constructed or will construct. -/
structure OrderManagerConf (ω ι : Type) where
  firmConf : FirmRiskConf
  firmRisk : FirmRiskCheck ι
  firmRisk_init : FirmRiskCheck.init firmConf = .ok firmRisk
  instrument : ι → EquityInstrument
  startQuantity : ι → Int
  priorAdjustedClose : ι → Rat
  sessions : List (Bytes × MIC)
  params : ω → OrderParams ι
  startTime : Timestamp

/-- A plain day to run examples on: every firm limit at 100000, wide
instrument limits with a thousand locates, one session named `B`. -/
def OrderManagerConf.plain (params : ω → OrderParams ι) :
    OrderManagerConf ω ι where
  firmConf := .uniform 100000
  firmRisk := .uniform 100000
  firmRisk_init :=
    FirmRiskCheck.init_uniform (by norm_num) (by norm_num)
  instrument := fun _ => {
    orderSizeLimit := 10000
    orderPriceLimit := 10000
    orderValueLimit := 100000
    orderRateLimit := -1
    positionLimit := 10000
    positionValueLimit := 100000
    locateSize := 1000
    orderRate := [] }
  startQuantity := fun _ => 0
  priorAdjustedClose := fun _ => 0
  sessions := [([66], .bats)]
  params := params
  startTime := ⟨0, 0⟩

/-- The start-of-day position of an instrument. -/
def OrderManagerConf.position (c : OrderManagerConf ω ι) (esi : ι) :
    Position :=
  (c.instrument esi).startPosition (c.startQuantity esi)
    (c.priorAdjustedClose esi)

/-- `OrderManager::OrderManager` and `init`. The first entry of `m_orders`
protects against looking up local id zero. -/
def OrderManager.create (c : OrderManagerConf ω ι) : OrderManager ω ι where
  localID := 0
  desk := ⟨c.firmRisk, c.position⟩
  instrument := c.instrument
  orders := [none]
  order := fun w => Order.create (c.params w)
  sessions := []
  orderlog := [logStart c.startTime]

-- ========================================================= order updates

def orderUpdateOnAck (o : Order ι) (exchangeID size : Nat)
    (timestamp : Timestamp) (exchangeTimestamp : Nat) : Order ι :=
  { o with
    exchangeID := exchangeID
    openSize := size
    state := .acknowledged
    lastResponseTime := timestamp
    lastExchangeTime := exchangeTimestamp }

def orderUpdateOnReject (o : Order ι) (timestamp : Timestamp)
    (exchangeTimestamp : Nat) : Order ι :=
  { o with
    openSize := 0
    state := .remotelyRejected
    lastResponseTime := timestamp
    lastExchangeTime := exchangeTimestamp }

/-- No check for overfills; the open size wraps below zero. -/
def orderUpdateOnFill (o : Order ι) (fillSize : Nat) (fillPrice : Rat)
    (timestamp : Timestamp) (exchangeTimestamp : Nat)
    (feeCode : FillFeeCode) : Order ι :=
  { o with
    state :=
      if u32 (fillSize + o.filledSize) = o.size then .filled
      else .partiallyFilled
    filledSize := u32 (o.filledSize + fillSize)
    openSize := u32 (o.openSize - fillSize)
    totalValuePaid := o.totalValuePaid + fillPrice * fillSize
    lastResponseTime := timestamp
    lastExchangeTime := exchangeTimestamp
    lastFillFeeCode := feeCode }

def orderUpdateOnCancel (o : Order ι) (cancelSize : Nat)
    (timestamp : Timestamp) (exchangeTimestamp : Nat) : Order ι :=
  if cancelSize ≥ o.openSize then
    { o with
      state := .cancelled
      cancelledSize := u32 (o.cancelledSize + cancelSize)
      openSize := 0
      lastResponseTime := timestamp
      lastExchangeTime := exchangeTimestamp }
  else
    { o with
      state := .partiallyCancelled
      cancelledSize := u32 (o.cancelledSize + cancelSize)
      openSize := u32 (o.openSize - cancelSize)
      lastResponseTime := timestamp
      lastExchangeTime := exchangeTimestamp }

/-- An update by `orderUpdateOnCancel`, the two branches as one. -/
theorem orderUpdateOnCancel_eq (o : Order ι) (size : Nat) (ts : Timestamp)
    (exts : Nat) :
    orderUpdateOnCancel o size ts exts
      = { o with
          state :=
            if size ≥ o.openSize then .cancelled else .partiallyCancelled
          cancelledSize := u32 (o.cancelledSize + size)
          openSize :=
            if size ≥ o.openSize then 0 else u32 (o.openSize - size)
          lastResponseTime := ts
          lastExchangeTime := exts } := by
  unfold orderUpdateOnCancel
  split <;> rfl

/-- The order's part of `on_cancel_rejected`. -/
def orderUpdateOnCancelRejected (o : Order ι) (timestamp : Timestamp)
    (exchangeTimestamp : Nat) : Order ι :=
  { o with
    state := .cancelRejected
    pendingcancelNewqty := maxSize
    lastResponseTime := timestamp
    lastExchangeTime := exchangeTimestamp }

/-- A fill within the size of the order does not wrap. -/
theorem filledSize_fill {o : Order ι} {n : Nat}
    (h : o.filledSize + n ≤ o.size) (price : Rat) (ts : Timestamp)
    (exts : Nat) (feeCode : FillFeeCode) :
    (orderUpdateOnFill o n price ts exts feeCode).filledSize
      = o.filledSize + n := by
  have hsize := o.size_lt
  exact u32_add_of_fits (by omega)

/-- Nor does a cancel. -/
theorem cancelledSize_cancel {o : Order ι} {n : Nat}
    (h : o.cancelledSize + n ≤ o.size) (ts : Timestamp) (exts : Nat) :
    (orderUpdateOnCancel o n ts exts).cancelledSize
      = o.cancelledSize + n := by
  have hsize := o.size_lt
  rw [orderUpdateOnCancel_eq]
  exact u32_add_of_fits (by omega)

/-- A fill of no more than is open does not wrap the open size. -/
theorem openSize_fill {o : Order ι} {n : Nat} (hopen : o.openSize < 4294967296)
    (hn : n ≤ o.openSize) (price : Rat) (ts : Timestamp) (exts : Nat)
    (feeCode : FillFeeCode) :
    (orderUpdateOnFill o n price ts exts feeCode).openSize
      = o.openSize - n := u32_sub_of_le hopen hn

/-- A cancel of more leaves nothing open. -/
theorem openSize_cancel {o : Order ι} (hopen : o.openSize < 4294967296)
    (n : Nat) (ts : Timestamp) (exts : Nat) :
    (orderUpdateOnCancel o n ts exts).openSize = o.openSize - n := by
  unfold orderUpdateOnCancel
  split
  case isTrue hall =>
    show 0 = o.openSize - n
    omega
  case isFalse hpart => exact u32_sub_of_le hopen (by omega)

@[simp] theorem size_cancel (o : Order ι) (n : Nat) (ts : Timestamp)
    (exts : Nat) : (orderUpdateOnCancel o n ts exts).size = o.size := by
  rw [orderUpdateOnCancel_eq]

@[simp] theorem filledSize_cancel (o : Order ι) (n : Nat) (ts : Timestamp)
    (exts : Nat) :
    (orderUpdateOnCancel o n ts exts).filledSize = o.filledSize := by
  rw [orderUpdateOnCancel_eq]

/-- A fill takes its size from what is outstanding. -/
theorem outstanding_fill {o : Order ι} {n : Nat}
    (h : o.filledSize + n ≤ o.size) (price : Rat) (ts : Timestamp)
    (exts : Nat) (feeCode : FillFeeCode) :
    (orderUpdateOnFill o n price ts exts feeCode).outstanding
      = o.outstanding - n := by
  unfold Order.outstanding
  rw [filledSize_fill h]
  show (o.size : Int) - (o.filledSize + n : Nat) - o.cancelledSize = _
  push_cast
  ring

/-- So does a cancel. -/
theorem outstanding_cancel {o : Order ι} {n : Nat}
    (h : o.cancelledSize + n ≤ o.size) (ts : Timestamp) (exts : Nat) :
    (orderUpdateOnCancel o n ts exts).outstanding = o.outstanding - n := by
  unfold Order.outstanding
  rw [size_cancel, filledSize_cancel, cancelledSize_cancel h]
  push_cast
  ring

-- =============================================================== locates

/-- `on_fill` gives locates back when a buy covers a short position. -/
def recycleOnFill (pos : Position) (o : Order ι) (fillSize : Nat) :
    Position :=
  if o.side = .buy ∧ pos.quantity + pos.remoteQuantity < 0
      ∧ pos.norecycle = false
      ∧ pos.locatesRemaining ≠ locatesRemainingSentinel then
    let lsz := min (fillSize : Int) (-(pos.quantity + pos.remoteQuantity))
    { pos with
      locatesRemaining := pos.locatesRemaining + lsz
      locatesUsed := pos.locatesUsed - lsz }
  else pos

/-- `on_cancel` gives back those of a sell while the position is short. -/
def recycleOnCancel (pos : Position) (o : Order ι) (cancelSize : Nat) :
    Position :=
  if pos.quantity + pos.remoteQuantity < 0
      ∧ (o.side = .short ∨ o.side = .shortExempt ∨ o.side = .sell)
      ∧ pos.locatesRemaining ≠ locatesRemainingSentinel then
    { pos with
      locatesRemaining := pos.locatesRemaining + cancelSize
      locatesUsed := pos.locatesUsed - cancelSize }
  else pos

/-- `TradingFees::fee_from_fill`. -/
def feeFromFill (_op : Order ι) (_size : Nat) (_price : Rat) : Rat := 0

/-- `PortfolioRiskCheck::new_order` and `SessionRiskCheck::new_order`,
which let everything through so far. -/
def portfolioRiskNewOrder (_op : Order ι) : Bool := true

def sessionRiskNewOrder (_op : Order ι) : Bool := true

namespace OrderManager

/-- One record appended to the order log. -/
def append (om : OrderManager ω ι) (m : Message ι) : OrderManager ω ι :=
  { om with orderlog := om.orderlog ++ [m] }

/-- `add_session`: refused when the name is empty, does not fit the log's
eight bytes or is taken, or when the factory (`created`) fails. -/
def addSession (om : OrderManager ω ι) (name : Bytes) (market : MIC)
    (created : Bool) (now : Timestamp) : Bool × OrderManager ω ι :=
  if name = [] ∨ name.length > 8 then (false, om)
  else if name ∈ om.sessions.map Prod.fst then (false, om)
  else if created then
    (true, { om with sessions := om.sessions ++ [(name, market)] }.append
      (logAddSession name market now))
  else (false, om)

/-- The order manager with its sessions added, as trading starts. -/
def start (c : OrderManagerConf ω ι) : OrderManager ω ι :=
  c.sessions.foldl
    (fun om s => (om.addSession s.1 s.2 true c.startTime).2) (create c)

/-- A session is refused, or it joins the sessions and the log. -/
theorem addSession_cases (om : OrderManager ω ι) (name : Bytes)
    (market : MIC) (created : Bool) (now : Timestamp) :
    (om.addSession name market created now).2 = om
    ∨ (om.addSession name market created now).2
      = { om with sessions := om.sessions ++ [(name, market)] }.append
          (logAddSession name market now) := by
  unfold addSession
  split
  · exact .inl rfl
  · split
    · exact .inl rfl
    · split
      · exact .inr rfl
      · exact .inl rfl

/-- Adding sessions changes the sessions and the log, where it leaves no
record of an order. -/
theorem addSessions_frame (now : Timestamp) (ss : List (Bytes × MIC))
    (om : OrderManager ω ι) :
    ∃ sessions records,
      ss.foldl (fun om s => (om.addSession s.1 s.2 true now).2) om
        = { om with
            sessions := sessions
            orderlog := om.orderlog ++ records }
      ∧ ∀ m ∈ records, m.type = .newSession := by
  induction ss generalizing om with
  | nil =>
      refine ⟨om.sessions, [], ?_, by simp⟩
      rw [List.append_nil]
      rfl
  | cons s ss ih =>
      rw [List.foldl_cons]
      rcases om.addSession_cases s.1 s.2 true now with h | h
      · rw [h]
        exact ih om
      · rw [h]
        obtain ⟨sessions, records, heq, hnew⟩ :=
          ih ({ om with sessions := om.sessions ++ [(s.1, s.2)] }.append
            (logAddSession s.1 s.2 now))
        refine ⟨sessions, logAddSession s.1 s.2 now :: records, ?_, ?_⟩
        · rw [heq]
          unfold append
          dsimp only
          rw [List.append_assoc]
          rfl
        · intro m hm
          rcases List.mem_cons.mp hm with rfl | hm
          · rfl
          · exact hnew m hm

theorem start_frame (c : OrderManagerConf ω ι) :
    ∃ sessions records,
      start c = { create c with
        sessions := sessions
        orderlog := logStart c.startTime :: records }
      ∧ ∀ m ∈ records, m.type = .newSession :=
  addSessions_frame c.startTime c.sessions (create c)

variable [DecidableEq ω]

/-- A write through an order pointer. -/
def setOrder (om : OrderManager ω ι) (w : ω) (o : Order ι) :
    OrderManager ω ι :=
  { om with order := Function.update om.order w o }

@[simp] theorem setOrder_order (om : OrderManager ω ι) (w : ω)
    (o : Order ι) :
    (om.setOrder w o).order = Function.update om.order w o := rfl

-- ================================================================== send

/-- What the derived order and the session answer while one order is
sent: the derived `validate()`, the result of the session's `send`, and
the sent time and client order id the session writes to the order. -/
structure SendAnswer where
  validated : Bool
  sent : Bool
  sentTime : Timestamp
  clientOrderID : Bytes
  deriving DecidableEq

/-- The session takes the order. -/
def SendAnswer.taken : SendAnswer := ⟨true, true, ⟨1, 0⟩, []⟩

/-- Under `m_mutex`: the next local id, and the order in `m_orders`. -/
def takeLocalID (om : OrderManager ω ι) (w : ω) : OrderManager ω ι :=
  { om.setOrder w { om.order w with localID := om.localID + 1 } with
    localID := om.localID + 1
    orders := om.orders ++ [some w] }

/-- `validate_base() && validate()`. -/
def validates (om : OrderManager ω ι) (w : ω) (a : SendAnswer) : Bool :=
  (om.order w).validateBase && a.validated

/-- `m_firm_risk.new_order`, then the portfolio's and the session's. -/
def riskCheck (om : OrderManager ω ι) (w : ω) : Bool × OrderManager ω ι :=
  let r := om.desk.newOrder (om.order w)
  (r.1 && portfolioRiskNewOrder (om.order w)
    && sessionRiskNewOrder (om.order w), { om with desk := r.2 })

variable [DecidableEq ι]

/-- `instrument()->validate(order_p)`. -/
def instrumentCheck (om : OrderManager ω ι) (w : ω) :
    Bool × OrderManager ω ι :=
  let o := om.order w
  let r := (om.instrument o.instrument).validate
    (om.desk.position o.instrument) o
  (r.ok, { om.setOrder w r.order with
    instrument := Function.update om.instrument o.instrument r.instrument
    desk := { om.desk with
      position :=
        Function.update om.desk.position o.instrument r.position } })

/-- The order gets its session and counts as open from here on. -/
def addOpen (om : OrderManager ω ι) (w : ω) (session : Bytes) :
    OrderManager ω ι :=
  let o := { om.order w with session := some session }
  { om.setOrder w o with desk := om.desk.onOrderAdds o o.size }

/-- `session_p->send(order_p)`, as far as it writes to the order. -/
def sessionSend (om : OrderManager ω ι) (w : ω) (a : SendAnswer) :
    OrderManager ω ι :=
  om.setOrder w { om.order w with
    sentTime := a.sentTime
    clientOrderID := a.clientOrderID }

/-- The session took it: `SENT`, and the log record. -/
def markSent (om : OrderManager ω ι) (w : ω) : OrderManager ω ι :=
  let o := { om.order w with state := .sent }
  (om.setOrder w o).append (logOrderSent o)

/-- The session refused it: the open exposure goes again. -/
def removeOpen (om : OrderManager ω ι) (w : ω) : OrderManager ω ι :=
  { om with
    desk := om.desk.onOrderRemoves (om.order w) (om.order w).size }

/-- The end of every refused `send`. -/
def localReject (om : OrderManager ω ι) (w : ω) : OrderManager ω ι :=
  let o := { om.order w with state := .locallyRejected }
  (om.setOrder w o).append (logLocalReject o)

/-- `OrderManager::send`, uninterrupted. -/
def send (om : OrderManager ω ι) (w : ω) (session : Bytes)
    (a : SendAnswer) : Bool × OrderManager ω ι :=
  let om := om.takeLocalID w
  if !om.validates w a then (false, om.localReject w)
  else
    let risk := om.riskCheck w
    let om := risk.2
    if !risk.1 then (false, om.localReject w)
    else
      let inst := om.instrumentCheck w
      let om := inst.2
      if !inst.1 then (false, om.localReject w)
      else
        let om := (om.addOpen w session).sessionSend w a
        if a.sent then (true, om.markSent w)
        else (false, (om.removeOpen w).localReject w)

/-- The order as `send` hands it to the session. -/
def orderToSend (om : OrderManager ω ι) (w : ω) (session : Bytes) :
    Order ι :=
  let om := ((om.takeLocalID w).riskCheck w).2
  ((om.instrumentCheck w).2.addOpen w session).order w

-- ============================================================== requests

/-- How a `cancel` ends: refused for one of four reasons, or `requested`
(it returns true). -/
inductive CancelResult
  | noSession
  | terminal
  | alreadyPending
  | sessionRefused
  | requested
  deriving DecidableEq, Repr

/-- What the session answers to a cancel request, and the last request
time it writes to the order. -/
structure CancelAnswer where
  accepted : Bool
  lastRequestTime : Timestamp
  deriving DecidableEq

/-- `OrderManager::cancel`. -/
def cancel (om : OrderManager ω ι) (w : ω) (newqty : Nat)
    (a : CancelAnswer) : CancelResult × OrderManager ω ι :=
  let o := om.order w
  if o.session = none then (.noSession, om)
  else if o.isTerminal then (.terminal, om)
  else if o.state = .pendingCancel ∧ o.pendingcancelNewqty ≤ newqty then
    (.alreadyPending, om)
  else if a.accepted then
    let o := { o with
      lastRequestTime := a.lastRequestTime
      pendingcancelNewqty := newqty
      state := .pendingCancel }
    (.requested, (om.setOrder w o).append (logPendingCancel o newqty))
  else (.sessionRefused, om)

/-- `OrderManager::destroy`. The pointer is not to be used again after it
returned true. -/
def destroy (om : OrderManager ω ι) (w : ω) (onlyIfTerminal : Bool)
    (sessionDestroys : Bool) : Bool × OrderManager ω ι :=
  let o := om.order w
  if onlyIfTerminal && !o.isTerminal then (false, om)
  else if o.localID = 0 then (true, om.append (logDestroy o))
  else if o.session = none || sessionDestroys then
    (true, { om with orders := om.orders.set o.localID none }.append
      (logDestroy o))
  else (false, om)

/-- The loop of `find_and_cancel`, which carries the orders it tried to
cancel and how many of these requests went out. -/
def findAndCancelLoop (pred : Order ι → Bool) (answer : ω → CancelAnswer) :
    List (Option ω) → List ω × Nat × OrderManager ω ι →
      List ω × Nat × OrderManager ω ι
  | [], acc => acc
  | none :: ps, acc => findAndCancelLoop pred answer ps acc
  | some w :: ps, (tried, count, om) =>
      if !(om.order w).isTerminal && pred (om.order w) then
        let r := om.cancel w 0 (answer w)
        findAndCancelLoop pred answer ps
          (tried ++ [w], if r.1 = .requested then count + 1 else count, r.2)
      else findAndCancelLoop pred answer ps (tried, count, om)

/-- `OrderManager::find_and_cancel`. -/
def findAndCancel (om : OrderManager ω ι) (pred : Order ι → Bool)
    (answer : ω → CancelAnswer) : List ω × Nat × OrderManager ω ι :=
  findAndCancelLoop pred answer om.orders ([], 0, om)

/-- `OrderManager::cancel_all`. -/
def cancelAll (om : OrderManager ω ι) (answer : ω → CancelAnswer) :
    List ω × Nat × OrderManager ω ι :=
  om.findAndCancel (fun _ => true) answer

-- ======================================================== exchange events

/-- `on_acknowledged` before its log record. -/
def applyAcknowledged (om : OrderManager ω ι) (w : ω)
    (exchangeID size : Nat) (timestamp : Timestamp)
    (exchangeTimestamp : Nat) : OrderManager ω ι :=
  om.setOrder w
    (orderUpdateOnAck (om.order w) exchangeID size timestamp
      exchangeTimestamp)

def onAcknowledged (om : OrderManager ω ι) (w : ω) (exchangeID size : Nat)
    (timestamp : Timestamp) (exchangeTimestamp : Nat) :
    OrderManager ω ι :=
  let om := om.applyAcknowledged w exchangeID size timestamp
    exchangeTimestamp
  om.append (logAcknowledged (om.order w))

/-- `on_rejected` before its log record. -/
def applyRejected (om : OrderManager ω ι) (w : ω) (timestamp : Timestamp)
    (exchangeTimestamp : Nat) : OrderManager ω ι :=
  let o := orderUpdateOnReject (om.order w) timestamp exchangeTimestamp
  { om.setOrder w o with desk := om.desk.onOrderRemoves o o.size }

def onRejected (om : OrderManager ω ι) (w : ω) (timestamp : Timestamp)
    (exchangeTimestamp : Nat) : OrderManager ω ι :=
  let om := om.applyRejected w timestamp exchangeTimestamp
  om.append (logRejected (om.order w))

/-- `on_fill` before its log record: the order, the locates, then
position and firm risk. -/
def applyFill (om : OrderManager ω ι) (w : ω) (fillSize : Nat)
    (fillPrice : Rat) (timestamp : Timestamp) (exchangeTimestamp : Nat)
    (feeCode : FillFeeCode) : OrderManager ω ι :=
  let o := orderUpdateOnFill (om.order w) fillSize fillPrice timestamp
    exchangeTimestamp feeCode
  let fee := feeFromFill o fillSize fillPrice
  let desk := { om.desk with
    position := Function.update om.desk.position o.instrument
      (recycleOnFill (om.desk.position o.instrument) o fillSize) }
  { om.setOrder w o with desk := desk.onOrderFill o fillSize fillPrice fee }

def onFill (om : OrderManager ω ι) (w : ω) (fillSize : Nat)
    (fillPrice : Rat) (timestamp : Timestamp) (exchangeTimestamp : Nat)
    (feeCode : FillFeeCode) : OrderManager ω ι :=
  let om := om.applyFill w fillSize fillPrice timestamp exchangeTimestamp
    feeCode
  om.append (logFilled (om.order w) fillSize fillPrice feeCode)

/-- `on_cancel_rejected` before its log record. -/
def applyCancelRejected (om : OrderManager ω ι) (w : ω)
    (timestamp : Timestamp) (exchangeTimestamp : Nat) :
    OrderManager ω ι :=
  om.setOrder w
    (orderUpdateOnCancelRejected (om.order w) timestamp exchangeTimestamp)

def onCancelRejected (om : OrderManager ω ι) (w : ω)
    (timestamp : Timestamp) (exchangeTimestamp : Nat) :
    OrderManager ω ι :=
  let om := om.applyCancelRejected w timestamp exchangeTimestamp
  om.append (logCancelRejected (om.order w))

/-- `on_cancel` before its log record. -/
def applyCancel (om : OrderManager ω ι) (w : ω) (cancelSize : Nat)
    (timestamp : Timestamp) (exchangeTimestamp : Nat) :
    OrderManager ω ι :=
  let o := orderUpdateOnCancel (om.order w) cancelSize timestamp
    exchangeTimestamp
  let desk := { om.desk with
    position := Function.update om.desk.position o.instrument
      (recycleOnCancel (om.desk.position o.instrument) o cancelSize) }
  { om.setOrder w o with desk := desk.onOrderRemoves o cancelSize }

def onCancel (om : OrderManager ω ι) (w : ω) (cancelSize : Nat)
    (timestamp : Timestamp) (exchangeTimestamp : Nat) :
    OrderManager ω ι :=
  let om := om.applyCancel w cancelSize timestamp exchangeTimestamp
  om.append (logCancelled (om.order w) cancelSize)

-- ===================================================== manual adjustment

/-- `manual_position_adj`, and so `on_log_manual_position_adj`: the
quantities of a position, edited in place. `none` is index zero or one
without an instrument. -/
def manualPositionAdj (om : OrderManager ω ι) (esi : Option ι)
    (deltaStartQty deltaTradingQty : Int) : OrderManager ω ι :=
  match esi with
  | none => om
  | some esi =>
      let pos := om.desk.position esi
      { om with
        desk := om.desk.put esi (om.desk.firmRisk,
          { pos with
            startQuantity := pos.startQuantity + deltaStartQty
            tradingQuantity := pos.tradingQuantity + deltaTradingQty }) }

-- =============================================================== queries

/-- `unsafe_order_filter`. -/
def unsafeOrderFilter (om : OrderManager ω ι) (f : Order ι → Bool) :
    List ω :=
  om.orders.filterMap fun p =>
    match p with
    | some w => if f (om.order w) then some w else none
    | none => none

/-- `open_orders`. -/
def openOrders (om : OrderManager ω ι) : List ω :=
  om.unsafeOrderFilter fun o => !o.isTerminal

end OrderManager

end TradingEngine.OE
