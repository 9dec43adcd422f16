/-
The order-entry vocabulary (`oe/Types.hpp`, `core/Time.hpp`): sizes,
prices, sides, order states.

# Numbers

- `Size` is `std::uint32_t`: a `Nat` whose arithmetic results are stored
  back through `u32`, so that a subtraction below zero wraps as in the
  source.
- `Quantity` is `std::int64_t`, `Price` and `Dollars` are `double`. They
  are exact integers (`Int`) and rationals (`Rat`) here: the accounting
  is stated for exact dollars, and no quantity comes near `2^63`.
- `LocalID` is a `Nat` that counts up from zero, one per send; `send`
  asserts that it is the last index of `m_orders`, so the counter cannot
  have wrapped.
- Accounts, exchange ids, exchange timestamps and user data are plain
  naturals: nothing computes with them.
-/
import Mathlib.Data.Rat.Floor
import Mathlib.Tactic.Ring
import Mathlib.Tactic.Linarith
import Mathlib.Tactic.NormNum

namespace TradingEngine.OE

-- ============================================================= numbers

/-- `std::string` and byte arrays. -/
abbrev Bytes := List UInt8

instance : LawfulBEq Bytes := inferInstance

/-- The value of an exact integer once stored in a `std::uint32_t`. -/
def u32 (z : Int) : Nat := (z % 4294967296).toNat

/-- `std::numeric_limits<Size>::max()`. -/
def maxSize : Nat := 4294967295

/-- A number of 32 bits. -/
theorem u32_lt (z : Int) : u32 z < 4294967296 := by
  unfold u32
  omega

/-- No wrap: a result that fits is stored as it is. -/
theorem u32_of_fits {z : Int} (h0 : 0 ≤ z) (h1 : z < 4294967296) :
    (u32 z : Int) = z := by
  unfold u32
  omega

/-- A sum that fits. -/
theorem u32_add_of_fits {a b : Nat} (h : a + b < 4294967296) :
    u32 ((a : Int) + b) = a + b := by
  unfold u32
  omega

/-- A difference that is not negative. -/
theorem u32_sub_of_le {a b : Nat} (ha : a < 4294967296) (hb : b ≤ a) :
    u32 ((a : Int) - b) = a - b := by
  unfold u32
  omega

/-- `core::Timestamp`: a POSIX timespec. -/
structure Timestamp where
  sec : Int
  nsec : Int
  deriving DecidableEq, Repr, Inhabited

/-- Nanoseconds, as `EquityInstrument::validate` spells them. -/
def Timestamp.nanos (t : Timestamp) : Int := t.sec * 1000000000 + t.nsec

/-- `static_cast<std::int64_t>` of a price expression: toward zero. -/
def truncate (q : Rat) : Int := q.num.tdiv q.den

-- ========================================================= enumerations

inductive Side
  | unknown
  | buy
  | sell
  | short
  | shortExempt
  deriving DecidableEq, Repr, Inhabited

/-- The enumerator's value, which `newOrder` compares against `BUY`. -/
def Side.code : Side → Nat
  | .unknown => 0
  | .buy => 1
  | .sell => 2
  | .short => 3
  | .shortExempt => 4

inductive OrderType
  | unknown
  | market
  | limit
  | stop
  | midpointPeg
  deriving DecidableEq, Repr, Inhabited

inductive TimeInForce
  | unknown
  | day
  | ext
  | gtc
  | auctionOpen
  | auctionClose
  | auctionHalt
  | timed
  | immediateOrCancel
  | fillOrKill
  deriving DecidableEq, Repr, Inhabited

/-- State of the order. Initial state: `newAndUnsent`. -/
inductive OrderState
  | unknown
  | newAndUnsent
  | locallyRejected
  | sent
  | acknowledged
  | partiallyFilled
  | filled
  | pendingCancel
  | partiallyCancelled
  | cancelled
  | pendingCancelReplace
  | cancelReplaced
  | remotelyRejected
  | cancelRejected
  deriving DecidableEq, Repr, Inhabited

/-- The fee code of a fill: `UNKNOWN`, or the exchange's liquidity flag. -/
inductive FillFeeCode
  | unknown
  | flag (code : Nat)
  deriving DecidableEq, Repr, Inhabited

/-- Market identifier codes: those that most of the modelled code names,
and the others by their place in `MIC.def.hpp`. -/
inductive MIC
  | unknown
  | bats
  | xnas
  | other (code : Nat)
  deriving DecidableEq, Repr, Inhabited

end TradingEngine.OE
