/-
The book: what orders and fills do to the firm totals and the positions,
with the machinery left out.

This is the abstract model of the `Desk`. It keeps the six totals and,
of each position, everything but the locates. It has no breakers and no
mode, and it knows one way to move open size, in either direction. Each
operation of the desk acts on the book in one line (`book_onOrderAdds`,
`book_onOrderRemoves`, `book_onOrderFill`), and what only touches locates,
breakers or the mode is invisible to it.
-/
import TradingEngine.OE.Desk
import TradingEngine.OE.Instrument

namespace TradingEngine.OE

variable {ι : Type}

/-- The six totals of the firm check. -/
structure FirmTotals where
  longNotional : Rat
  shortNotional : Rat
  longOpenExposure : Rat
  shortOpenExposure : Rat
  totalRealized : Rat
  totalUnrealized : Rat
  deriving DecidableEq

structure Book (ι : Type) where
  totals : FirmTotals
  position : ι → Position

-- ============================================================== the views

def FirmRiskCheck.totals (frc : FirmRiskCheck ι) : FirmTotals :=
  ⟨frc.longNotional, frc.shortNotional, frc.longOpenExposure,
    frc.shortOpenExposure, frc.totalRealized, frc.totalUnrealized⟩

/-- A position with its locates forgotten. -/
def Position.sansLocates (pos : Position) : Position :=
  { pos with locatesRemaining := 0, locatesUsed := 0 }

def Desk.book (d : Desk ι) : Book ι :=
  ⟨d.firmRisk.totals, fun i => (d.position i).sansLocates⟩

-- ========================================================= the operations

/-- One side's open total moved. -/
def FirmTotals.moveOpen (t : FirmTotals) (s : Side) (amount : Rat) :
    FirmTotals :=
  if s = .buy then
    { t with longOpenExposure := t.longOpenExposure + amount }
  else { t with shortOpenExposure := t.shortOpenExposure - amount }

/-- One position's share in the p&l totals replaced. -/
def FirmTotals.movePnl (t : FirmTotals) (pos pos' : Position) :
    FirmTotals :=
  { t with
    longNotional := t.longNotional + (pos'.longPart - pos.longPart)
    shortNotional := t.shortNotional + (pos'.shortPart - pos.shortPart)
    totalRealized :=
      t.totalRealized + (pos'.realizedPnl - pos.realizedPnl)
    totalUnrealized :=
      t.totalUnrealized + (pos'.unrealizedPnl - pos.unrealizedPnl) }

-- ================================================ the parts of a view

namespace Position

/-- A move goes the same way whatever the locates are. -/
theorem sansLocates_moveOpen (pos : Position) (s : Side) (p : Rat)
    (n : Int) :
    (pos.moveOpen s p n).sansLocates = pos.sansLocates.moveOpen s p n := by
  unfold moveOpen
  split <;> rfl

/-- So does a purchase. -/
theorem sansLocates_buyPnl (pos : Position) (n : Nat) (price fee : Rat)
    (newPos : Int) :
    (pos.buyPnl n price fee newPos).sansLocates
      = pos.sansLocates.buyPnl n price fee newPos := by
  unfold buyPnl sansLocates
  by_cases h : pos.tradingQuantity ≥ 0
  · simp only [h, if_true]
  · by_cases h' : newPos ≤ 0 <;> simp only [h, h', if_true, if_false]

/-- And a sale. -/
theorem sansLocates_sellPnl (pos : Position) (n : Nat) (price fee : Rat)
    (newPos : Int) :
    (pos.sellPnl n price fee newPos).sansLocates
      = pos.sansLocates.sellPnl n price fee newPos := by
  unfold sellPnl sansLocates
  by_cases h : pos.tradingQuantity ≤ 0
  · simp only [h, if_true]
  · by_cases h' : newPos ≥ 0 <;> simp only [h, h', if_true, if_false]

/-- And so a fill. -/
theorem sansLocates_fill (pos : Position) (s : Side) (n : Nat)
    (price fee : Rat) :
    (pos.updateRealizedAndUnrealizedPnl s n price fee).sansLocates
      = pos.sansLocates.updateRealizedAndUnrealizedPnl s n price fee := by
  -- the last assignments of a fill read no locates
  have hsettle : ∀ (p : Position) (q : Int),
      ({ p with
          unrealized := (p.mark - p.vwap) * q
          tradingQuantity := q } : Position).sansLocates
        = { p.sansLocates with
            unrealized := (p.sansLocates.mark - p.sansLocates.vwap) * q
            tradingQuantity := q } := fun _ _ => rfl
  unfold updateRealizedAndUnrealizedPnl
  by_cases hs : s = .buy
  · simp only [hs, if_true]
    rw [hsettle, sansLocates_buyPnl]
    rfl
  · simp only [hs, if_false]
    rw [hsettle, sansLocates_sellPnl]
    rfl

end Position

theorem FirmRiskCheck.totals_refreshed (frc : FirmRiskCheck ι)
    (w : Breaker → Bool) : (frc.refreshed w).totals = frc.totals := rfl

/-- A move comes into the firm's totals. -/
theorem FirmRiskCheck.totals_moveOpen (frc : FirmRiskCheck ι) (s : Side)
    (amount : Rat) :
    (frc.moveOpen s amount).totals = frc.totals.moveOpen s amount := by
  unfold FirmRiskCheck.moveOpen FirmTotals.moveOpen
  split <;> rfl

/-- So does a change of profit and loss. -/
theorem FirmRiskCheck.totals_movePnl (frc : FirmRiskCheck ι)
    (pos pos' : Position) :
    (frc.movePnl pos pos').totals = frc.totals.movePnl pos pos' := by
  rw [movePnl_eq]
  rfl

/-- The book does not see the mode. -/
theorem Desk.book_newOrder (d : Desk ι) (op : Order ι) :
    (d.newOrder op).2.book = d.book := by
  show (⟨d.firmRisk.mode.totals, _⟩ : Book ι) = _
  rw [FirmRiskCheck.mode_eq]
  rfl

variable [DecidableEq ι]

/-- Open size of one instrument moved by `n` at price `p`. -/
def Book.moveOpen (b : Book ι) (esi : ι) (s : Side) (p : Rat) (n : Int) :
    Book ι where
  totals := b.totals.moveOpen s (n * p)
  position := Function.update b.position esi
    ((b.position esi).moveOpen s p n)

/-- The p&l side of a fill. -/
def Book.trade (b : Book ι) (esi : ι) (s : Side) (n : Nat)
    (price fee : Rat) : Book ι where
  totals := b.totals.movePnl (b.position esi)
    ((b.position esi).updateRealizedAndUnrealizedPnl s n price fee)
  position := Function.update b.position esi
    ((b.position esi).updateRealizedAndUnrealizedPnl s n price fee)

/-- A move is of one instrument. -/
theorem Book.position_moveOpen (b : Book ι) (esi : ι) (s : Side) (p : Rat)
    (n : Int) (i : ι) :
    (b.moveOpen esi s p n).position i
      = if i = esi then (b.position esi).moveOpen s p n else b.position i :=
  Function.update_apply ..

/-- And so is a trade. -/
theorem Book.position_trade (b : Book ι) (esi : ι) (s : Side) (n : Nat)
    (price fee : Rat) (i : ι) :
    (b.trade esi s n price fee).position i
      = if i = esi then
          (b.position esi).updateRealizedAndUnrealizedPnl s n price fee
        else b.position i :=
  Function.update_apply ..

-- =========================================== the desk acts on its book

namespace Desk

variable (d : Desk ι)

/-- Storing a check and one position stores their views. -/
theorem book_put (esi : ι) (r : FirmRiskCheck ι × Position) :
    (d.put esi r).book
      = ⟨r.1.totals, Function.update d.book.position esi
          r.2.sansLocates⟩ := by
  unfold book put
  congr 1
  funext i
  by_cases hi : i = esi
  · subst hi
    simp only [Function.update_self]
  · simp only [Function.update_of_ne hi]

/-- An order that is added. -/
theorem book_onOrderAdds (op : Order ι) (n : Nat) :
    (d.onOrderAdds op n).book
      = d.book.moveOpen op.instrument op.side op.price n := by
  unfold onOrderAdds
  rw [book_put, FirmRiskCheck.unsafeOnOrderAdds_eq]
  simp only [FirmRiskCheck.totals_refreshed, FirmRiskCheck.totals_moveOpen,
    Position.sansLocates_moveOpen, Book.moveOpen, Int.cast_natCast]
  rfl

/-- An order that is removed. -/
theorem book_onOrderRemoves (op : Order ι) (n : Nat) :
    (d.onOrderRemoves op n).book
      = d.book.moveOpen op.instrument op.side op.price (-n) := by
  unfold onOrderRemoves
  rw [book_put, FirmRiskCheck.unsafeOnOrderRemoves_eq]
  simp only [FirmRiskCheck.totals_refreshed, FirmRiskCheck.totals_moveOpen,
    Position.sansLocates_moveOpen, Book.moveOpen, Int.cast_neg,
    Int.cast_natCast, neg_mul]
  rfl

/-- A fill: a trade, and the size is no longer open. -/
theorem book_onOrderFill (op : Order ι) (n : Nat) (price fee : Rat) :
    (d.onOrderFill op n price fee).book
      = (d.book.trade op.instrument op.side n price fee).moveOpen
          op.instrument op.side op.price (-n) := by
  unfold onOrderFill
  rw [book_put, FirmRiskCheck.unsafeOnOrderFill_eq]
  simp only [FirmRiskCheck.totals_refreshed, FirmRiskCheck.totals_moveOpen,
    FirmRiskCheck.totals_movePnl, Position.sansLocates_moveOpen,
    Position.sansLocates_fill, Book.moveOpen, Book.trade,
    Function.update_self, Function.update_idem, Int.cast_neg,
    Int.cast_natCast, neg_mul]
  have hpos : d.book.position op.instrument
      = (d.position op.instrument).sansLocates := rfl
  rw [hpos, ← Position.sansLocates_fill]
  rfl

/-- The book does not see locates either. -/
theorem book_locates {esi : ι} {pos : Position}
    (h : pos.sansLocates = (d.position esi).sansLocates) :
    ({ d with position := Function.update d.position esi pos } :
      Desk ι).book = d.book := by
  have hput := d.book_put esi (d.firmRisk, pos)
  rw [h] at hput
  refine hput.trans ?_
  show (⟨d.firmRisk.totals, Function.update d.book.position esi
    (d.book.position esi)⟩ : Book ι) = d.book
  rw [Function.update_eq_self]
  rfl

end Desk

-- ===================================================== moving back and forth

namespace Book

/-- A removal undoes the add of the same size. -/
theorem moveOpen_undo (b : Book ι) (esi : ι) (s : Side) (p : Rat)
    (n : Int) : (b.moveOpen esi s p n).moveOpen esi s p (-n) = b := by
  have hsize : ∀ x : Int, x + n + -n = x := fun x => by omega
  have hup : ∀ x : Rat, x + n * p + -(n * p) = x := fun x => by ring
  have hdown : ∀ x : Rat, x - n * p - -(n * p) = x := fun x => by ring
  unfold moveOpen FirmTotals.moveOpen Position.moveOpen
  by_cases hs : s = .buy
  · simp only [hs, if_true, Function.update_self, Function.update_idem,
      Int.cast_neg, neg_mul, hsize, hup]
    exact congrArg (Book.mk b.totals) (Function.update_eq_self ..)
  · simp only [hs, if_false, Function.update_self, Function.update_idem,
      Int.cast_neg, neg_mul, hsize, hdown]
    exact congrArg (Book.mk b.totals) (Function.update_eq_self ..)

end Book

end TradingEngine.OE
