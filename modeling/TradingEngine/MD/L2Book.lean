/-
`md/i01_md/L2Book.hpp`: half of a book of price levels.

`L2BookHalf` is a template over the comparison of prices and the price that
stands for an empty book. Here it is over the side, which gives both: bids
are ordered by `std::greater`, asks by `std::less`. `std::map` is a
`TreeMap`, whose begin is its least key. The flags have no initializer, so
a new half book comes with any.
-/
import TradingEngine.MD.OrderBook
import TradingEngine.OE.Types
import Mathlib.Data.List.Basic

namespace TradingEngine.MD

open OE (Timestamp)

-- ==================================================================== levels

/-- `L2PriceLevel`. -/
structure L2PriceLevel where
  price : Price
  size : Size
  numOrders : NumOrders
  lastUpdated : Timestamp
  created : Timestamp
  deriving DecidableEq, Repr

namespace L2PriceLevel

/-- The constructor. -/
def make (p : Price) (s : Size) (no : NumOrders) (ts : Timestamp) :
    L2PriceLevel := ⟨p, s, no, ts, ts⟩

end L2PriceLevel

/-- `Compare<Price>`. -/
def Side.compare : Side → Price → Price → Ordering
  | .buy => fun a b => Ord.compare b a
  | .sell => fun a b => Ord.compare a b

instance (side : Side) : Std.TransCmp side.compare := by
  cases side with
  | buy =>
      exact inferInstanceAs
        (Std.TransCmp fun a b : Price => Ord.compare b a)
  | sell =>
      exact inferInstanceAs
        (Std.TransCmp fun a b : Price => Ord.compare a b)

instance (side : Side) : Std.LawfulEqCmp side.compare := by
  cases side with
  | buy =>
      exact inferInstanceAs
        (Std.LawfulEqCmp fun a b : Price => Ord.compare b a)
  | sell =>
      exact inferInstanceAs
        (Std.LawfulEqCmp fun a b : Price => Ord.compare a b)

/-- `BookHalfStorage`. -/
abbrev BookHalfStorage (side : Side) :=
  Std.TreeMap Price L2PriceLevel side.compare

-- ================================================================= half books

/-- `L2BookHalf`. -/
structure L2BookHalf (side : Side) where
  bookhalfStorage : BookHalfStorage side
  levelAdded : Bool
  levelDeleted : Bool
  deletedLevelExisted : Bool
  reducedSize : Bool

namespace L2BookHalf

variable {side : Side}

/-- A new half book, with whatever its flags are. -/
def new (added deleted existed reduced : Bool) : L2BookHalf side :=
  ⟨∅, added, deleted, existed, reduced⟩

/-- What `m_bookhalf_storage.begin()` points to, if it is not the end. -/
def begin? (storage : BookHalfStorage side) :
    Option (Price × L2PriceLevel) :=
  storage.minKey?.bind fun price =>
    storage[price]?.map fun level => (price, level)

/-- `best_quote`. -/
def bestQuote (base : BookBase) (b : L2BookHalf side) : L2Quote :=
  match begin? b.bookhalfStorage with
  | some (price, level) => ⟨price, level.size, level.numOrders⟩
  | none => ⟨base.emptyPrice side, 0, 0⟩

/-- Whether `p` is at `begin()`. -/
def atBegin (b : L2BookHalf side) (p : Price) : Bool :=
  b.bookhalfStorage.minKey? == some p

/-- `replace`, and what it returns. -/
def replace (b : L2BookHalf side) (p : Price) (s : Size) (n : NumOrders)
    (ts : Timestamp) : L2BookHalf side × Bool :=
  let b := { b with levelDeleted := s == 0, reducedSize := s == 0 }
  match b.bookhalfStorage[p]? with
  | none =>
      if s == 0 then
        ({ b with deletedLevelExisted := false }, false)
      else
        let b := { b with
          levelAdded := true
          bookhalfStorage :=
            b.bookhalfStorage.insert p (.make p s n ts) }
        (b, b.atBegin p)
  | some level =>
      let b := { b with levelAdded := false }
      if s == 0 then
        ({ b with
            bookhalfStorage := b.bookhalfStorage.erase p
            deletedLevelExisted := true },
          b.atBegin p)
      else
        let b := { b with
          reducedSize := decide (s < level.size)
          bookhalfStorage := b.bookhalfStorage.insert p
            { level with size := s, numOrders := n, lastUpdated := ts } }
        (b, b.atBegin p)

/-- `clear`. -/
def clear (b : L2BookHalf side) : L2BookHalf side :=
  { b with bookhalfStorage := ∅ }

/-- `last_order_added_level`. -/
def lastOrderAddedLevel (b : L2BookHalf side) : Bool := b.levelAdded

/-- `last_order_deleted_level`. -/
def lastOrderDeletedLevel (b : L2BookHalf side) : Bool := b.levelDeleted

/-- `last_order_deleted_existing_level`. -/
def lastOrderDeletedExistingLevel (b : L2BookHalf side) : Bool :=
  b.deletedLevelExisted

/-- `last_update_reduced_size`. -/
def lastUpdateReducedSize (b : L2BookHalf side) : Bool := b.reducedSize

-- ====================================================================== calls

/-- What is called on a half book. -/
inductive Op
  | replace (p : Price) (s : Size) (n : NumOrders) (ts : Timestamp)
  | clear
  deriving DecidableEq, Repr

/-- A call. -/
def step (b : L2BookHalf side) : Op → L2BookHalf side
  | .replace p s n ts => (b.replace p s n ts).1
  | .clear => b.clear

end L2BookHalf

end TradingEngine.MD
