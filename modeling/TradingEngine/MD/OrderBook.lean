/-
Quotes (`md/i01_md/OrderData.hpp`) and order books.

`MD::OrderBook` and `MD::L3OrderData` are declared in headers that are not
in the repository. A book is the map from reference number to order that
its users take it for. What is best in it is a parameter, `BookBase`,
together with the two sentinel prices.
-/
import Mathlib.Logic.Function.Basic

namespace TradingEngine.MD

-- =================================================================== quotes

/-- In ten-thousandths of a dollar. -/
abbrev Price := UInt64

abbrev Size := UInt32

/-- `std::size_t`. -/
abbrev NumOrders := UInt64

structure L2Quote where
  price : Price
  size : Size
  numOrders : NumOrders
  deriving DecidableEq, Repr

structure FullL2Quote where
  bid : L2Quote
  ask : L2Quote
  deriving DecidableEq, Repr

-- =================================================================== orders

/-- `L3OrderData::Side`. -/
inductive Side
  | buy
  | sell
  deriving DecidableEq, Repr

/-- `L3OrderData::RefNum`. -/
abbrev RefNum := Nat

/-- `L3OrderData`, less its time in force and its timestamps. -/
structure L3OrderData where
  refnum : RefNum
  side : Side
  price : Price
  size : Size
  deriving DecidableEq, Repr

-- ==================================================================== books

/-- `MD::OrderBook`. -/
abbrev OrderBook := RefNum → Option L3OrderData

namespace OrderBook

/-- A new book. -/
def empty : OrderBook := fun _ => none

/-- `find`. -/
def find (b : OrderBook) (r : RefNum) : Option L3OrderData := b r

/-- `add`. -/
def add (b : OrderBook) (o : L3OrderData) : OrderBook :=
  Function.update b o.refnum (some o)

/-- `replace`: the order under `r` makes way for `o`. -/
def replace (b : OrderBook) (r : RefNum) (o : L3OrderData) : OrderBook :=
  Function.update (Function.update b r none) o.refnum (some o)

/-- `modify`, with another size. -/
def modify (b : OrderBook) (o : L3OrderData) (size : Size) : OrderBook :=
  Function.update b o.refnum (some { o with size := size })

/-- `remove`. -/
def remove (b : OrderBook) (r : RefNum) : OrderBook :=
  Function.update b r none

/-- `erase`. -/
def erase (b : OrderBook) (o : L3OrderData) : OrderBook := b.remove o.refnum

end OrderBook

/-- What else a book offers. -/
structure BookBase where
  /-- `EMPTY_BID_PRICE`. -/
  emptyBidPrice : Price
  /-- `EMPTY_ASK_PRICE`. -/
  emptyAskPrice : Price
  bestBid : OrderBook → L2Quote
  bestAsk : OrderBook → L2Quote

namespace BookBase

variable (base : BookBase)

/-- The price that stands for no quote. -/
def emptyPrice : Side → Price
  | .buy => base.emptyBidPrice
  | .sell => base.emptyAskPrice

/-- `best_bid` or `best_ask`. -/
def bestOf (b : OrderBook) : Side → L2Quote
  | .buy => base.bestBid b
  | .sell => base.bestAsk b

/-- `best`. -/
def best (b : OrderBook) : FullL2Quote := ⟨base.bestBid b, base.bestAsk b⟩

/-- What is best on a side is told from the orders of that side. -/
def SidesApart : Prop :=
  ∀ (side : Side) (b b' : OrderBook),
    (∀ r o, o.side = side → (b r = some o ↔ b' r = some o)) →
    base.bestOf b side = base.bestOf b' side

end BookBase

end TradingEngine.MD
