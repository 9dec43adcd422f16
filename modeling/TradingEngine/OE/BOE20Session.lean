/-
`oe/BATS/BOE20Session.cpp`: the sequenced messages of the exchange, and a
process that may die while it handles one.

# Effects

A handler stores the message's sequence number, updates the order manager
and appends to the order log, in this order. So a handler is the list of
its `Effect`s, and a process that dies after `k` of them has performed the
first `k`. The sequence numbers and the log are on disk and survive it.

# Names

Orders go by their local ids, live or replayed: `get_order` returns the
entry of `m_orders` if the order behind it is the session's. A process is
in one of two states when it handles sequenced messages: from the accepted
login to the `ReplayComplete` message in `REPLAY`, then in `ACTIVE`.
-/
import TradingEngine.OE.Replay
import TradingEngine.OE.Trading
import TradingEngine.Lib.Sequenced

namespace TradingEngine.OE

variable {ι : Type}

namespace BOE20

-- =============================================================== messages

structure MessageHeader where
  matchingUnit : Nat
  sequenceNumber : Nat
  deriving DecidableEq

/-- The client order id in HPR's format; `orderID` is its last field, read
as a 64-bit number. -/
structure ClOrdID where
  brokerLoc : Char
  orderID : Nat
  deriving DecidableEq

/-- `get_local_id`, cast to `LocalID`. -/
def ClOrdID.localID (id : ClOrdID) : Nat := u32 id.orderID

def hprRejectBrokerLoc : Char := 'Z'

def hprRejectOrderSize : Nat := 1

/-- `ZVZZT`, filled up with zeros. -/
def hprRejectSymbol : Bytes := [90, 86, 90, 90, 84, 0, 0, 0]

/-- The optional fields of an acknowledgment that its handler reads. -/
structure AckFields where
  side : Char
  price : Nat
  ordType : Char
  timeInForce : Char
  symbol : Bytes
  orderQty : Nat
  leavesQty : Nat
  deriving DecidableEq

/-- What each message carries besides header, time and client order id. -/
inductive MessageBody
  | orderAcknowledgment (orderID : Nat) (opt : AckFields)
  | orderExecution (lastShares : Nat) (lastPx : Nat)
  | orderCancelled (leavesQty : Nat)
  | orderModified (leavesQty : Nat)
  | orderRestated (orderQty leavesQty : Nat)
  | tradeCancelOrCorrect
  deriving DecidableEq

/-- A sequenced message. -/
structure SequencedMessage where
  header : MessageHeader
  transactionTime : Nat
  clOrdID : ClOrdID
  body : MessageBody
  deriving DecidableEq

-- ============================================================ conversions

def toSide : Char → Side
  | '1' => .buy
  | '2' => .sell
  | '5' => .short
  | '6' => .shortExempt
  | _ => .unknown

/-- `GTD` loses its end here, `REG_HOURS_ONLY` its hours. -/
def toTif : Char → TimeInForce
  | '0' => .day
  | '1' => .gtc
  | '6' => .gtc
  | '2' => .auctionOpen
  | '3' => .immediateOrCancel
  | '4' => .fillOrKill
  | '5' => .ext
  | '7' => .auctionClose
  | 'R' => .day
  | _ => .unknown

def toOrdType : Char → OrderType
  | '1' => .market
  | '2' => .limit
  | '3' => .stop
  | '4' => .stop
  | 'P' => .midpointPeg
  | _ => .unknown

/-- Fixed point, four places. -/
def priceToDouble (p : Nat) : Rat := p / 10000

-- ================================================================ process

/-- The states in which sequenced messages are handled. -/
inductive State
  | replay
  | active
  deriving DecidableEq

/-- A message as it is read: the state the session is in, and the time. -/
structure Reading where
  state : State
  ts : Timestamp
  message : SequencedMessage

structure Process (ι : Type) where
  om : OrderManager ℕ ι
  state : State
  /-- `m_persist_state->data()->inbound_seqnum`, by matching unit. -/
  inboundSeqnum : Nat → Nat

/-- The session moved to another state. -/
def Process.inState (p : Process ι) (state : State) : Process ι :=
  { p with state := state }

inductive Effect (ι : Type)
  | storeSeqnum (h : MessageHeader)
  /-- `adopt_orphan_order` in memory. -/
  | adopt (sessionName : Bytes) (localID : Nat) (op : Option (Order ι))
  | logAdopted (localID : Nat)
  /-- `on_acknowledged` and the others in memory. -/
  | update (e : Event ℕ)
  | log (e : Event ℕ)

/-- The effects that append to the order log. -/
def Effect.logs : Effect ι → Bool
  | .logAdopted _ | .log _ => true
  | _ => false

variable [DecidableEq ι]

def Process.perform (p : Process ι) : Effect ι → Process ι
  | .storeSeqnum h =>
      { p with
        inboundSeqnum :=
          Function.update p.inboundSeqnum h.matchingUnit h.sequenceNumber }
  | .adopt sessionName localID op =>
      { p with om := p.om.applyOrphan sessionName localID op }
  | .logAdopted localID =>
      { p with om := p.om.append (logOrderSent (p.om.order localID)) }
  | .update e => { p with om := p.om.update e }
  | .log e => { p with om := p.om.logReport e }

/-- Effects, in order. -/
abbrev Process.performAll (p : Process ι) (es : List (Effect ι)) :
    Process ι :=
  Lib.run Process.perform p es

end BOE20

open BOE20

-- =============================================================== handlers

/-- What a session is configured with: `m_symbol_inst_cache`,
`create_cl_ord_id`, and the clock at the creation of orders. -/
structure BOE20Session (ι : Type) where
  name : Bytes
  market : MIC
  findInstrument : Bytes → Option ι
  createClOrdID : Order ι → Bytes
  now : Timestamp

namespace BOE20Session

variable (s : BOE20Session ι)

/-- `on_create_replay_order`: orders for another market are not created. -/
def onCreateReplayOrder (a : ReplayOrder ι) : Option (Order ι) :=
  if a.market ≠ .bats then none
  else
    let op := a.build s.name [] s.now
    some { op with clientOrderID := s.createClOrdID op }

/-- `OrderSession::get_order`: not the orders of other sessions. -/
def getOrder (om : OrderManager ℕ ι) (localID : Nat) : Option ℕ :=
  match om.orderAt localID with
  | some op => if (om.order op).session = some s.name then some op else none
  | none => none

variable {s} in
theorem getOrder_eq_some {om : OrderManager ℕ ι} {l w : ℕ} :
    s.getOrder om l = some w
      ↔ om.orderAt l = some w ∧ (om.order w).session = some s.name := by
  unfold getOrder
  cases hat : om.orderAt l with
  | none => simp
  | some p =>
      simp only [Option.some.injEq]
      constructor
      · intro h
        split at h
        case isTrue hs =>
          obtain rfl := Option.some.inj h
          exact ⟨rfl, hs⟩
        case isFalse => cases h
      · rintro ⟨rfl, hs⟩
        rw [if_pos hs]

/-- A call of the order manager: in memory, then in the log. -/
def report (e : Event ℕ) : List (Effect ι) := [.update e, .log e]

/-- `handle_riskbot_reject`. -/
def handleRiskbotReject (p : Process ι) (ts : Timestamp)
    (m : SequencedMessage) (op : Option ℕ) : List (Effect ι) :=
  match p.state, op with
  | .replay, _ => [.adopt s.name m.clOrdID.localID none]
  | .active, none => []
  | .active, some op => report (.rejected op ts m.transactionTime)

/-- The order of an acknowledgment nobody knows, in `REPLAY`. -/
def handleOrphan (ts : Timestamp) (m : SequencedMessage) (orderID : Nat)
    (opt : AckFields) : List (Effect ι) :=
  let localID := m.clOrdID.localID
  match s.findInstrument opt.symbol with
  | none => []
  | some inst =>
      let op := s.onCreateReplayOrder {
        ts := ts
        instrument := inst
        market := s.market
        localAccount := 0
        localID := localID
        price := priceToDouble opt.price
        size := u32 opt.leavesQty
        side := toSide opt.side
        tif := toTif opt.timeInForce
        type := toOrdType opt.ordType
        userdata := 0
        size_lt := u32_lt _ }
      .adopt s.name localID op ::
        match op with
        | none => []
        | some _ => .logAdopted localID :: report
            (.acknowledged localID orderID opt.leavesQty ts
              m.transactionTime)

/-- `handle_msg(OrderAcknowledgment)`, after the sequence number. -/
def handleOrderAcknowledgment (p : Process ι) (ts : Timestamp)
    (m : SequencedMessage) (orderID : Nat) (opt : AckFields) :
    List (Effect ι) :=
  let op := s.getOrder p.om m.clOrdID.localID
  if m.clOrdID.brokerLoc = hprRejectBrokerLoc
      ∧ opt.orderQty = hprRejectOrderSize
      ∧ opt.symbol = hprRejectSymbol then
    s.handleRiskbotReject p ts m op
  else
    match op, p.state with
    | some op, _ =>
        report (.acknowledged op orderID opt.leavesQty ts
          m.transactionTime)
    | none, .replay => s.handleOrphan ts m orderID opt
    | none, .active => []

/-- `handle_msg`, after the sequence number, for the messages that work on
a known order alone. -/
def handleKnown (om : OrderManager ℕ ι) (ts : Timestamp)
    (m : SequencedMessage) (op : ℕ) : List (Effect ι) :=
  let o := om.order op
  let cancel := fun size : Nat =>
    report (ι := ι) (.cancelled op size ts m.transactionTime)
  match m.body with
  | .orderAcknowledgment .. => []
  | .orderExecution lastShares lastPx =>
      report (.fill op lastShares (priceToDouble lastPx) ts
        m.transactionTime .unknown)
  | .orderCancelled leavesQty =>
      -- an order of the risk bot's may still get its cancel
      if o.state ≠ .remotelyRejected then
        cancel (u32 ((o.openSize : Int) - leavesQty))
      else []
  | .orderModified leavesQty =>
      if leavesQty ≠ o.openSize then
        cancel (u32 ((o.openSize : Int) - leavesQty))
      else []
  | .orderRestated orderQty leavesQty =>
      if leavesQty = 0 then cancel orderQty else []
  | .tradeCancelOrCorrect => []

/-- The effects of `handle_msg`. -/
def effects (p : Process ι) (ts : Timestamp) (m : SequencedMessage) :
    List (Effect ι) :=
  .storeSeqnum m.header ::
    match m.body with
    | .orderAcknowledgment orderID opt =>
        s.handleOrderAcknowledgment p ts m orderID opt
    | _ =>
        match s.getOrder p.om m.clOrdID.localID with
        | some op => handleKnown p.om ts m op
        | none => []

/-- `handle_msg`, to its end. -/
def handle [DecidableEq ι] (p : Process ι) (r : Reading) : Process ι :=
  let p := p.inState r.state
  p.performAll (s.effects p r.ts r.message)

end BOE20Session

-- ================================================================ restarts

namespace BOE20

variable [DecidableEq ι]

/-- What does not change from one process to the next: the session, how
replayed orders are created, the order manager as it is constructed, and
the messages of the exchange in the order it sends them. -/
structure Site (ι : Type) where
  session : BOE20Session ι
  create : CreateReplayOrder ι
  fresh : OrderManager ℕ ι
  sent : List SequencedMessage

/-- The messages above the numbers of the login request, which is what the
exchange replays and goes on with. -/
def redelivered (inboundSeqnum : Nat → Nat) (sent : List SequencedMessage) :
    List SequencedMessage :=
  Lib.above (fun m => m.header.matchingUnit)
    (fun m => m.header.sequenceNumber) inboundSeqnum sent

/-- The process, and what it will read on its connection. -/
structure Link (ι : Type) where
  process : Process ι
  awaiting : List SequencedMessage

inductive Move
  /-- The next message is read, at the given time. -/
  | handle (ts : Timestamp)
  | replayComplete
  /-- The process dies after `k` effects of the next message, is started
  again and logs in. -/
  | crash (ts : Timestamp) (k : Nat)

/-- A new process: constructed, the log replayed, logged in. -/
def Site.restart (u : Site ι) (p : Process ι) : Process ι :=
  let log := p.om.orderlog ++ u.fresh.orderlog
  { p with
    om := { u.fresh.replay u.create log with orderlog := log }
    state := .replay }

namespace Link

/-- The process at the moment it dies. -/
def interrupted (u : Site ι) (l : Link ι) (ts : Timestamp) (k : Nat) :
    Process ι :=
  match l.awaiting with
  | [] => l.process
  | m :: _ =>
      l.process.performAll ((u.session.effects l.process ts m).take k)

def step (u : Site ι) (l : Link ι) : Move → Link ι
  | .handle ts =>
      match l.awaiting with
      | [] => l
      | m :: ms =>
          ⟨l.process.performAll (u.session.effects l.process ts m), ms⟩
  | .replayComplete =>
      { l with process := l.process.inState .active }
  | .crash ts k =>
      let p := u.restart (l.interrupted u ts k)
      ⟨p, redelivered p.inboundSeqnum u.sent⟩

/-- The same moves of a process that never dies: where the other one
crashes it finishes the message, if it has begun it, and reconnects. -/
def calm (u : Site ι) (l : Link ι) : Move → Link ι
  | .handle ts => l.step u (.handle ts)
  | .replayComplete => l.step u .replayComplete
  | .crash ts k =>
      let l := if k = 0 then l else l.step u (.handle ts)
      { l with process := l.process.inState .replay }

-- ================================================================== guards

/-- The next message is about an order of `K` that the session has. -/
def Known (u : Site ι) (K : Finset ℕ) (l : Link ι) : Move → Prop
  | .handle _ | .crash _ _ =>
      match l.awaiting with
      | [] => True
      | m :: _ =>
          m.clOrdID.localID ∈ K
            ∧ u.session.getOrder l.process.om m.clOrdID.localID
              = some m.clOrdID.localID
  | .replayComplete => True

/-- A crash that tears no message: the sequence number has not been
stored, or all of the message is in the log. -/
def Whole (u : Site ι) (l : Link ι) : Move → Prop
  | .crash ts k =>
      match l.awaiting with
      | [] => True
      | m :: _ => k = 0 ∨ ∀ e ∈ (u.session.effects l.process ts m).drop k,
          e.logs = false
  | _ => True

instance (u : Site ι) (K : Finset ℕ) (l : Link ι) (e : Move) :
    Decidable (l.Known u K e) := by
  unfold Known
  split
  · split <;> infer_instance
  · split <;> infer_instance
  · infer_instance

instance (u : Site ι) (l : Link ι) (e : Move) :
    Decidable (l.Whole u e) := by
  unfold Whole
  split
  · split <;> infer_instance
  · infer_instance

end Link

end BOE20

end TradingEngine.OE
