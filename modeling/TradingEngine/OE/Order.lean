/-
`oe/Order.hpp`, `oe/Order.cpp`: the order object, its constructor, the
predicates `OrderManager` asks of it and the base validation.

An `Order` is generic in the instrument index `ι`; `instrument` stands
for the `Instrument *` and `session` for the `OrderSession *`, by the
session's name (names are the unique keys of `m_sessions`). What only a
derived order carries, its own `validate()` included, is an answer of
the environment at `send` (`OrderManager.lean`).
-/
import TradingEngine.OE.Types

namespace TradingEngine.OE

variable {ι : Type}

/-- The members of `Order` that the order manager, the risk checks and
the order log read. -/
structure Order (ι : Type) where
  instrument : ι
  market : MIC
  originalPrice : Rat
  price : Rat
  size : Nat
  side : Side
  tif : TimeInForce
  type : OrderType
  userdata : Nat
  creationTime : Timestamp
  state : OrderState
  session : Option Bytes
  sentTime : Timestamp
  lastRequestTime : Timestamp
  localAccount : Nat
  localID : Nat
  clientOrderID : Bytes
  pendingcancelNewqty : Nat
  exchangeID : Nat
  lastResponseTime : Timestamp
  filledSize : Nat
  openSize : Nat
  cancelledSize : Nat
  totalValuePaid : Rat
  lastFillFeeCode : FillFeeCode
  lastExchangeTime : Nat
  /-- `m_size` is a `const Size`. -/
  size_lt : size < 4294967296
  deriving DecidableEq

/-- The constructor's arguments, with the clock reading it takes and the
market of the derived class. -/
structure OrderParams (ι : Type) where
  instrument : ι
  market : MIC
  price : Rat
  size : Nat
  side : Side
  tif : TimeInForce
  type : OrderType
  userdata : Nat
  creationTime : Timestamp
  size_lt : size < 4294967296
  deriving DecidableEq

/-- `Order::Order`: a new order, initialized for sending. -/
def Order.create (a : OrderParams ι) : Order ι where
  instrument := a.instrument
  market := a.market
  originalPrice := a.price
  price := a.price
  size := a.size
  side := a.side
  tif := a.tif
  type := a.type
  userdata := a.userdata
  creationTime := a.creationTime
  state := .newAndUnsent
  session := none
  sentTime := ⟨0, 0⟩
  lastRequestTime := ⟨0, 0⟩
  localAccount := 0
  localID := 0
  clientOrderID := List.replicate 20 32
  pendingcancelNewqty := maxSize
  exchangeID := 0
  lastResponseTime := ⟨0, 0⟩
  filledSize := 0
  openSize := 0
  cancelledSize := 0
  totalValuePaid := 0
  lastFillFeeCode := .unknown
  lastExchangeTime := 0
  size_lt := a.size_lt

/-- A plain day limit order for BATS; a size that does not fit the type is
stored as the type stores it. -/
def OrderParams.dayLimit (instrument : ι) (side : Side) (size : Nat)
    (price : Rat) : OrderParams ι where
  instrument := instrument
  market := .bats
  price := price
  size := u32 size
  side := side
  tif := .day
  type := .limit
  userdata := 0
  creationTime := ⟨0, 0⟩
  size_lt := u32_lt size

-- =========================================================== predicates

/-- Whether the order is in a terminal state. An open size of zero
counts as terminal in any state, so an order that is sent but not yet
acknowledged (`openSize` still as constructed) does too. -/
def Order.isTerminal (o : Order ι) : Bool :=
  o.openSize == 0
    || o.state == .locallyRejected
    || o.state == .remotelyRejected
    || o.state == .cancelled
    || o.state == .filled
    || o.state == .newAndUnsent
    || o.state == .cancelReplaced
    || o.state == .unknown

/-- Whether the order is believed open with the exchange. -/
def Order.isOpen (o : Order ι) : Bool :=
  o.state != .newAndUnsent && !o.isTerminal

/-- Whether the state is `NEW_AND_UNSENT`. -/
def Order.unsent (o : Order ι) : Bool := o.state == .newAndUnsent

/-- `std::numeric_limits<Price>::epsilon()`. -/
def priceEpsilon : Rat := 1 / 4503599627370496

/-- Validates the base `Order` portion of the order. -/
def Order.validateBase (o : Order ι) : Bool :=
  o.unsent
    && decide (o.price > 0 + priceEpsilon)
    && decide (o.size > 0)
    && o.side != .unknown
    && o.tif != .unknown
    && o.type != .unknown

/-- The states `isTerminal` accepts whatever the open size is. -/
def OrderState.final : OrderState → Bool
  | .locallyRejected | .remotelyRejected | .cancelled | .filled
  | .newAndUnsent | .cancelReplaced | .unknown => true
  | _ => false

theorem Order.isTerminal_eq (o : Order ι) :
    o.isTerminal = (o.openSize == 0 || o.state.final) := by
  unfold Order.isTerminal
  cases o.state <;> cases (o.openSize == 0) <;> rfl

theorem Order.isTerminal_eq_false {o : Order ι} :
    o.isTerminal = false ↔ o.openSize ≠ 0 ∧ o.state.final = false := by
  rw [Order.isTerminal_eq]
  simp

/-- Outside the terminal states an order is open as soon as its open
size says so. -/
theorem Order.isOpen_of_not_terminal {o : Order ι}
    (h : o.isTerminal = false) : o.isOpen = true := by
  obtain ⟨-, hs⟩ := Order.isTerminal_eq_false.mp h
  unfold Order.isOpen
  rw [h]
  cases ho : o.state <;> rw [ho] at hs <;> first | rfl | cases hs

/-- What `validateBase` lets through. -/
theorem Order.validateBase_spec {o : Order ι} (h : o.validateBase = true) :
    o.state = .newAndUnsent ∧ 0 < o.price ∧ 0 < o.size
      ∧ o.side ≠ .unknown := by
  unfold Order.validateBase Order.unsent at h
  simp only [Bool.and_eq_true, beq_iff_eq, decide_eq_true_eq, bne_iff_ne,
    ne_eq] at h
  obtain ⟨⟨⟨⟨⟨hu, hp⟩, hs⟩, hside⟩, -⟩, -⟩ := h
  refine ⟨hu, ?_, hs, hside⟩
  have he : (0 : Rat) < priceEpsilon := by
    unfold priceEpsilon
    norm_num
  linarith

-- ================================================== what is outstanding

/-- The part of the order that no fill and no cancel has consumed. -/
def Order.outstanding (o : Order ι) : Int :=
  o.size - o.filledSize - o.cancelledSize

end TradingEngine.OE
