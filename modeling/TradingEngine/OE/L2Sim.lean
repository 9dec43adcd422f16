/-
An `L2SimSession` under an order manager: sends and cancels of a strategy,
and the turns of `update_ts`, which report to the order manager.

# What is remembered

`delivered` are the events that were reported, oldest first, and `asserts`
tells whether the assertions of `on_order_sent`, `on_order_acknowledged`,
`on_order_filled` and `on_order_cancelled` held so far. The session reads
neither.

# Guard

`Possible` is what callers promise: packets come with times that do not
decrease, their events carry the time of the packet, and `update_ts` serves
what is due before that time, always something that is due first.
-/
import TradingEngine.OE.L2SimSession

namespace TradingEngine.OE

variable {ω ι : Type}

structure L2Sim (ω ι : Type) where
  session : L2SimSession ω ι
  trading : Trading ω ι
  /-- The time that `update_ts` is called with, while it runs. -/
  updating : Option Nat
  delivered : List (SimEvent ω)
  asserts : Bool

namespace L2Sim

/-- The start of the day. -/
def start (c : OrderManagerConf ω ι) (session : L2SimSession ω ι) :
    L2Sim ω ι :=
  ⟨session, Trading.start c, none, [], true⟩

inductive Input (ω ι : Type)
  /-- The strategy's `send`, with the answer of the derived `validate()`. -/
  | send (w : ω) (validated : Bool)
  | cancel (w : ω) (newqty : Nat)
  /-- A packet of the session's market. -/
  | startOfData (ts : Nat)
  /-- A pass through the loop of `update_ts`: the event at place `k`. -/
  | turn (k : Nat) (view : BookView)
  | endOfUpdate
  | symbolDefinition (ticker : ι) (esi : Nat)
  | market (ts esi : Nat) (e : MarketEvent)

variable [DecidableEq ω] [DecidableEq ι]

/-- The orders, as the order manager has them. -/
def order (s : L2Sim ω ι) (w : ω) : Order ι := s.trading.om.order w

/-- `send`: the session is asked if everything else went well, and the
event is in the queue if it took the order. -/
def send (s : L2Sim ω ι) (w : ω) (validated : Bool) : L2Sim ω ι :=
  let o := s.order w
  let accepted := s.session.accepts o
  let a : OrderManager.SendAnswer :=
    { validated := validated
      sent := accepted
      sentTime :=
        if accepted then .ofNanos s.session.ts else o.sentTime
      clientOrderID := o.clientOrderID }
  { s with
    trading := s.trading.step (.send w s.session.name a)
    session :=
      if (s.trading.om.send w s.session.name a).1 then s.session.send w o
      else s.session }

def cancel (s : L2Sim ω ι) (w : ω) (newqty : Nat) : L2Sim ω ι :=
  let o := s.order w
  let a : OrderManager.CancelAnswer :=
    ⟨s.session.acceptsCancel o newqty, .ofNanos s.session.ts⟩
  { s with
    trading := s.trading.step (.cancel w newqty a)
    session :=
      if (s.trading.om.cancel w newqty a).1 = .requested then
        s.session.cancel w o newqty
      else s.session }

section Deliver

variable (s : L2Sim ω ι) (ts : Nat) (se : SimEvent ω)

/-- An event is reported to the order manager. -/
def deliver (asserts : Bool) (e : Event ω) : L2Sim ω ι :=
  { s with
    trading := s.trading.step e
    delivered := s.delivered ++ [se]
    asserts := s.asserts && asserts }

/-- `m_orders.erase`. -/
def eraseOrder (w : ω) : L2Sim ω ι :=
  { s with
    session := { s.session with
      orders := Function.update s.session.orders (s.order w).localID none } }

/-- The assertion of `on_order_acknowledged`. -/
def acknowledgedAssert : Bool :=
  match (s.order se.order).state with
  | .newAndUnsent | .sent | .pendingCancel => true
  | _ => false

def onOrderAcknowledged : L2Sim ω ι :=
  s.deliver se (s.acknowledgedAssert se)
    (.acknowledged se.order (s.order se.order).localID
      (s.order se.order).size (.ofNanos ts) (nanosecondsSinceMidnight ts))

/-- The assertions of `on_order_filled`. -/
def filledAssert : Bool :=
  let o := s.order se.order
  decide (L2SimSession.stateCode .acknowledged
      ≤ L2SimSession.stateCode o.state)
    && (o.state != .acknowledged
      || o.lastResponseTime.le (.ofNanos ts))

def onOrderFilled : L2Sim ω ι :=
  let s := s.deliver se (s.filledAssert ts se)
    (.fill se.order se.size se.price (.ofNanos ts)
      (nanosecondsSinceMidnight ts) .unknown)
  if (s.order se.order).openSize = 0 then s.eraseOrder se.order else s

/-- The assertions of `on_order_cancelled`: the state, the size, and that
an order whose whole size is cancelled is on record. -/
def cancelledAssert : Bool :=
  let o := s.order se.order
  (match o.state with
    | .acknowledged | .sent | .partiallyFilled | .pendingCancel => true
    | _ => false)
    && decide (se.size ≤ o.size)
    && (se.size != o.size || (s.session.orders o.localID).isSome)

def onOrderCancelled : L2Sim ω ι :=
  let s := s.deliver se (s.cancelledAssert se)
    (.cancelled se.order se.size (.ofNanos ts)
      (nanosecondsSinceMidnight ts))
  if u32 ((s.order se.order).size - se.size) = 0 then
    s.eraseOrder se.order
  else s

def onOrderCancelRejected : L2Sim ω ι :=
  s.deliver se true
    (.cancelRejected se.order (.ofNanos ts) (nanosecondsSinceMidnight ts))

/-- The branches of `update_ts`. -/
def serve (view : BookView) : L2Sim ω ι :=
  match se.state with
  | .sent =>
      let r := s.session.onOrderSent (s.order se.order) ts se view
      { s with session := r.1, asserts := s.asserts && r.2 }
  | .acknowledged => s.onOrderAcknowledged ts se
  | .pendingCancel =>
      { s with session := s.session.onOrderPendingCancel s.order ts se }
  | .cancelled => s.onOrderCancelled ts se
  | .cancelRejected => s.onOrderCancelRejected ts se
  | .filled => s.onOrderFilled ts se
  | _ => s

end Deliver

/-- One pass: the time is the event's, which leaves the queue. -/
def turn (s : L2Sim ω ι) (k : Nat) (view : BookView) : L2Sim ω ι :=
  match s.session.eventq[k]? with
  | none => s
  | some (due, se) =>
      let ts := (ofLex due).1
      let s := { s with
        session := { s.session with
          ts := ts
          eventq := s.session.eventq.eraseIdx k } }
      s.serve ts se view

def step (s : L2Sim ω ι) : Input ω ι → L2Sim ω ι
  | .send w validated => s.send w validated
  | .cancel w newqty => s.cancel w newqty
  | .startOfData ts =>
      { s with
        session := { s.session with execThisPkt := fun _ => none }
        updating := some ts }
  | .turn k view => s.turn k view
  | .endOfUpdate =>
      match s.updating with
      | none => s
      | some ts =>
          { s with session := { s.session with ts := ts }, updating := none }
  | .symbolDefinition ticker esi =>
      { s with session := s.session.onSymbolDefinition ticker esi }
  | .market ts esi e =>
      { s with session := s.session.onMarketEvent s.order ts esi e }

-- ===================================================================== guard

/-- The event at place `k` is due before `ts`, and nothing before it. -/
def IsTop (s : L2Sim ω ι) (ts k : Nat) : Prop :=
  ∃ q, s.session.eventq[k]? = some q ∧ (ofLex q.1).1 < ts
    ∧ ∀ q' ∈ s.session.eventq, q.1 ≤ q'.1

/-- What may come next. -/
def Possible (s : L2Sim ω ι) : Input ω ι → Prop
  | .send _ _ => True
  | .cancel _ _ => True
  | .startOfData ts => s.updating = none ∧ s.session.ts ≤ ts
  | .turn k _ => ∃ ts, s.updating = some ts ∧ s.IsTop ts k
  | .endOfUpdate => ∃ ts, s.updating = some ts
      ∧ ∀ q ∈ s.session.eventq, ts ≤ (ofLex q.1).1
  | .symbolDefinition _ _ => True
  | .market ts _ _ => s.updating = none ∧ ts = s.session.ts

instance (s : L2Sim ω ι) (ts k : Nat) : Decidable (s.IsTop ts k) :=
  inferInstanceAs (Decidable (∃ q ∈ s.session.eventq[k]?,
    (ofLex q.1).1 < ts ∧ ∀ q' ∈ s.session.eventq, q.1 ≤ q'.1))

instance (s : L2Sim ω ι) (i : Input ω ι) : Decidable (s.Possible i) :=
  match i with
  | .send _ _ => .isTrue trivial
  | .cancel _ _ => .isTrue trivial
  | .startOfData ts =>
      inferInstanceAs (Decidable (s.updating = none ∧ s.session.ts ≤ ts))
  | .turn k _ =>
      inferInstanceAs (Decidable (∃ ts ∈ s.updating, s.IsTop ts k))
  | .endOfUpdate =>
      inferInstanceAs (Decidable (∃ ts ∈ s.updating,
        ∀ q ∈ s.session.eventq, ts ≤ (ofLex q.1).1))
  | .symbolDefinition _ _ => .isTrue trivial
  | .market ts _ _ =>
      inferInstanceAs (Decidable (s.updating = none ∧ ts = s.session.ts))

end L2Sim

end TradingEngine.OE
