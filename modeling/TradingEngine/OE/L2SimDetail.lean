/-
Functions of `oe/L2SimSession.cpp` once more, with what the model of the
session leaves out.

`exec_cross_helper` is here with its iterator, one pass of the loop at a
time, `reduce_size_from_back` with its assertion, which the handlers of
order events (`on_book_canceled`, `on_book_modified`) come to, and
`reduce_helper` with the entry that it reads through its iterator.
-/
import TradingEngine.OE.L2SimSession

namespace TradingEngine.OE

variable {ω ι : Type}

namespace L2SimSession

-- ========================================================= exec_cross_helper

/-- `exec_cross_helper` between two passes: the orders before `it`, those
from `it` on, `avail_size`, and the events that are in the queue. -/
structure ExecCross (ω : Type) where
  passed : OrderContainer ω
  it : OrderContainer ω
  avail : Nat
  events : List (SimEvent ω)

/-- One pass; `none` where the loop ends. -/
def execPass (checkPrice : ω → Bool) (esi : Nat) (ref : Rat)
    (s : ExecCross ω) : Option (ExecCross ω) :=
  match s.it with
  | [] => none
  | (p, simo) :: c =>
      if checkPrice simo.order then
        -- `reduce_size_from_front`
        let amt := min simo.sizeAhead s.avail
        let simo := { simo with sizeAhead := simo.sizeAhead - amt }
        let avail := s.avail - amt
        if avail ≠ 0 then
          let fillSize := min simo.remains avail
          let simo := { simo with remains := simo.remains - fillSize }
          -- `it` moves on where the order is erased, and `avail` stays
          some
            { passed := s.passed
              it := if simo.remains = 0 then c else (p, simo) :: c
              avail := avail
              events := s.events
                ++ [⟨.filled, simo.order, esi, fillSize, ref⟩] }
        else
          some
            { passed := s.passed ++ [(p, simo)]
              it := c
              avail := avail
              events := s.events }
      else none

-- ===================================================== reduce_size_from_back

/-- The assertion of `reduce_size_from_back`: if size ahead is 0, then
shouldn't be any delta size left. -/
def backAssert (deltaSize : Nat) (o : SimOrder ω) : Bool :=
  let amt := min o.sizeBehind deltaSize
  let sizeBehind := o.sizeBehind - amt
  let deltaSize := deltaSize - amt
  if sizeBehind = 0 ∧ deltaSize ≠ 0 then
    let amt := min o.sizeAhead deltaSize
    let sizeAhead := o.sizeAhead - amt
    sizeAhead != 0 || deltaSize == amt
  else true

/-- The assertion, for the order at a price, if there is one. -/
def assertsAt (s : L2SimSession ω ι) (esi : Nat) (side : MD.Side)
    (price : MD.Price) (deltaSize : Nat) : Bool :=
  (((s.books esi).orders (sideContainer side)).find
    (MD.toDouble price)).all (backAssert deltaSize)

/-- The size that `on_book_canceled` and `on_book_modified` take an order
event for: that of an execution in this packet, or what the order lost. -/
def deltaSize (s : L2SimSession ω ι) (refnum newSize oldSize : Nat) : Nat :=
  (s.execThisPkt refnum).getD (u32 (oldSize - newSize))

/-- Whether the assertion holds while an order event is handled. -/
def backAsserts (s : L2SimSession ω ι) (esi : Nat) : MarketEvent → Bool
  | .bookCanceled refnum side price size oldSize =>
      s.assertsAt esi side price (s.deltaSize refnum size oldSize)
  | .bookModified side newPrice newSize oldRefnum oldPrice oldSize =>
      if newPrice ≠ oldPrice then s.assertsAt esi side oldPrice oldSize
      else if newSize ≥ oldSize then s.assertsAt esi side oldPrice oldSize
      else s.assertsAt esi side oldPrice
        (s.deltaSize oldRefnum newSize oldSize)
  | _ => true

-- ============================================================= reduce_helper

/-- `it->second.remains`, of an iterator that was found at the price; `none`
where the entry is not there any more. -/
def readRemains (c : OrderContainer ω) (price : Rat) : Option Nat :=
  (c.find price).map fun simo => simo.remains

variable [DecidableEq ω]

/-- `reduce_helper`; `none` where what it returns is read from an entry that
it has erased. -/
def reduceThrough (c : OrderContainer ω) (price : Rat) (w : ω)
    (newqty : Nat) : Option Nat × OrderContainer ω :=
  match c.find price with
  | none => (some 0, c)
  | some simo =>
      if simo.order = w then
        if newqty = 0 ∨ simo.remains = newqty then
          let c := c.updateAt price fun _ => none
          (readRemains c price, c)
        else if newqty < simo.remains then
          (some newqty, c.updateAt price fun o =>
            some { o with remains := o.remains - newqty })
        else (some 0, c)
      else (some 0, c)

/-- Whether `on_order_pending_cancel` comes to read an erased entry. -/
def readsErased (s : L2SimSession ω ι) (order : ω → Order ι)
    (se : SimEvent ω) : Bool :=
  match s.orders (order se.order).localID with
  | none => false
  | some w =>
      cancelable (order se.order).state
        && (reduceThrough ((s.books se.esi).orders
          (restingContainer (order w))) (order w).price w se.size).1.isNone

end L2SimSession

end TradingEngine.OE
