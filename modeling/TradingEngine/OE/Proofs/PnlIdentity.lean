/-
P&l against the cash that went in and out.

What a position has realized, less its quantity at the average price, is
the cash so far: `book`. A fill moves it by its own cash flow, whichever
branch it takes (`book_fill`), but only a fill that adds to the position
pays its fee. Buying back a short or selling a long leaves the fee out,
and so does a reversal, so the p&l is net of the fees of the entering
fills and gross of the others (`book_run`).

# Division

A fill divides by the quantity after it, when it adds to the position, and by
nothing when it takes from it. A position that a fill adds to is not empty
afterwards, as a fill has a size, so none divides by zero (`divides_of_pos`).

# Fees

Each fill moves `book` by its own cash, and the fee is missing there in the
branches that exit. So over a run the difference to what was paid is the sum
of the fees of the exits (`book_run`), and the p&l is net of all the fees if
that sum is zero.
-/
import TradingEngine.OE.Proofs.Totals

namespace TradingEngine.OE

-- ================================================================== fills

/-- What `update_realized_and_unrealized_pnl` is given. -/
structure Fill where
  side : Side
  size : Nat
  price : Rat
  fee : Rat

namespace Fill

def proceeds (f : Fill) : Rat :=
  if f.side = .buy then 0 else f.price * f.size

def cost (f : Fill) : Rat :=
  if f.side = .buy then f.price * f.size else 0

/-- The quantity after a fill. -/
def quantityAfter (f : Fill) (q : Int) : Int :=
  if f.side = .buy then q + f.size else q - f.size

/-- Against the position there is: a buy of a short, a sell of a long. -/
def Exits (f : Fill) (q : Int) : Prop :=
  if f.side = .buy then q < 0 else 0 < q

instance (f : Fill) (q : Int) : Decidable (f.Exits q) := by
  unfold Exits
  infer_instance

/-- What a fill into quantity `q` divides by, where it divides. -/
def divisor (f : Fill) (q : Int) : Option Rat :=
  if f.side = .buy then
    if q ≥ 0 then some (f.quantityAfter q) else none
  else if q ≤ 0 then some (-(f.quantityAfter q : Rat)) else none

end Fill

/-- The fees of the fills that exit, of those that start from `q`. -/
def exitFees : Int → List Fill → Rat
  | _, [] => 0
  | q, f :: fs =>
      (if f.Exits q then f.fee else 0) + exitFees (f.quantityAfter q) fs

namespace Position

def fill (pos : Position) (f : Fill) : Position :=
  pos.updateRealizedAndUnrealizedPnl f.side f.size f.price f.fee

/-- A fill that divides does not divide by zero. -/
def Divides (pos : Position) (f : Fill) : Prop :=
  f.divisor pos.tradingQuantity ≠ some 0

/-- The p&l is what the fills brought in, less what they cost and less
their fees, with the position at its mark. -/
def NetOfFees (pos : Position) (fs : List Fill) : Prop :=
  pos.realizedPnl + pos.unrealizedPnl
    = ((fs.map Fill.proceeds).sum - (fs.map Fill.cost).sum)
      - (fs.map Fill.fee).sum + pos.mark * pos.quantity

-- =============================================================== the book

/-- Realized p&l, less the position at its average price. -/
def book (pos : Position) : Rat :=
  pos.realized - pos.vwap * pos.tradingQuantity

theorem pnl_eq_book {pos : Position} (h : pos.Marked) :
    pos.realizedPnl + pos.unrealizedPnl
      = pos.book + pos.mark * pos.quantity := by
  unfold realizedPnl unrealizedPnl book quantity
  rw [h]
  ring

section Fill

variable (pos : Position) (f : Fill)

theorem marked_fill : (pos.fill f).Marked :=
  unrealized_fill pos f.side f.size f.price f.fee

theorem quantity_fill :
    (pos.fill f).tradingQuantity = f.quantityAfter pos.tradingQuantity :=
  tradingQuantity_fill pos f.side f.size f.price f.fee

/-- The new average of a fill that enters is the whole cost over the whole
quantity. -/
theorem divides_of_pos (hsize : 0 < f.size) : pos.Divides f := by
  have hpos : (0 : Int) < f.size := by omega
  unfold Divides Fill.divisor Fill.quantityAfter
  split
  case isTrue =>
    split
    case isTrue hq =>
      intro h
      have hzero : pos.tradingQuantity + f.size = 0 := by
        exact_mod_cast Option.some.inj h
      omega
    case isFalse => exact nofun
  case isFalse =>
    split
    case isTrue hq =>
      intro h
      have hzero : pos.tradingQuantity - f.size = 0 := by
        exact_mod_cast neg_eq_zero.mp (Option.some.inj h)
      omega
    case isFalse => exact nofun

/-- A buy of `n`: the cash it takes leaves the book, with the fee unless
it buys back. -/
theorem book_buyPnl (n : Nat) (hn : 0 < n) (price fee : Rat) :
    (pos.buyPnl n price fee (pos.tradingQuantity + n)).realized
        - (pos.buyPnl n price fee (pos.tradingQuantity + n)).vwap
          * ((pos.tradingQuantity + n : Int) : Rat)
      = pos.book - price * n
        - (if pos.tradingQuantity < 0 then 0 else fee) := by
  unfold buyPnl book
  dsimp only
  split
  case isTrue hq =>
    have hne : ((pos.tradingQuantity + n : Int) : Rat) ≠ 0 := by
      have : pos.tradingQuantity + n ≠ 0 := by omega
      exact_mod_cast this
    have hlong : ¬ pos.tradingQuantity < 0 := by omega
    rw [if_neg hlong, div_mul_cancel₀ _ hne]
    ring
  case isFalse hq =>
    have hshort : pos.tradingQuantity < 0 := by omega
    rw [if_pos hshort]
    split
    case isTrue hclose =>
      dsimp only
      split
      case isTrue hzero =>
        -- closed: the average is cleared with nothing left to carry it
        have hqn : (pos.tradingQuantity : Rat) = -n := by
          have : pos.tradingQuantity = -(n : Int) := by omega
          rw [this]
          push_cast
          rfl
        rw [hqn]
        ring
      case isFalse =>
        push_cast
        ring
    case isFalse =>
      push_cast
      ring

theorem book_sellPnl (n : Nat) (hn : 0 < n) (price fee : Rat) :
    (pos.sellPnl n price fee (pos.tradingQuantity - n)).realized
        - (pos.sellPnl n price fee (pos.tradingQuantity - n)).vwap
          * ((pos.tradingQuantity - n : Int) : Rat)
      = pos.book + price * n
        - (if 0 < pos.tradingQuantity then 0 else fee) := by
  unfold sellPnl book
  dsimp only
  split
  case isTrue hq =>
    have hne : -((pos.tradingQuantity - n : Int) : Rat) ≠ 0 := by
      have : pos.tradingQuantity - n ≠ 0 := by omega
      exact neg_ne_zero.mpr (by exact_mod_cast this)
    have hshort : ¬ 0 < pos.tradingQuantity := by omega
    rw [if_neg hshort, ← neg_neg ((pos.tradingQuantity - n : Int) : Rat),
      neg_neg (-((pos.tradingQuantity - n : Int) : Rat)), mul_neg,
      div_mul_cancel₀ _ hne]
    ring
  case isFalse hq =>
    have hlong : 0 < pos.tradingQuantity := by omega
    rw [if_pos hlong]
    split
    case isTrue hclose =>
      dsimp only
      split
      case isTrue hzero =>
        have hqn : (pos.tradingQuantity : Rat) = n := by
          have : pos.tradingQuantity = (n : Int) := by omega
          rw [this]
          push_cast
          rfl
        rw [hqn]
        ring
      case isFalse =>
        push_cast
        ring
    case isFalse =>
      push_cast
      ring

/-- One fill moves the book by its cash flow, less its fee if it enters. -/
theorem book_fill (hsize : 0 < f.size) :
    (pos.fill f).book = pos.book + (f.proceeds - f.cost - f.fee)
      + (if f.Exits pos.tradingQuantity then f.fee else 0) := by
  have hbuy := book_buyPnl { pos with mark := f.price } f.size hsize
    f.price f.fee
  have hsell := book_sellPnl { pos with mark := f.price } f.size hsize
    f.price f.fee
  unfold fill updateRealizedAndUnrealizedPnl Fill.proceeds Fill.cost
    Fill.Exits
  unfold book at *
  dsimp only at *
  by_cases hside : f.side = .buy
  · simp only [hside, if_true]
    rw [hbuy]
    split <;> ring
  · simp only [hside, if_false]
    rw [hsell]
    split <;> ring

end Fill

-- =================================================================== runs

/-- Over the fills of a run, from a marked position. -/
theorem book_run {pos : Position} {fs : List Fill} (hmarked : pos.Marked)
    (hsize : ∀ f ∈ fs, 0 < f.size) :
    (Lib.run fill pos fs).Marked
      ∧ (Lib.run fill pos fs).book
        = pos.book + ((fs.map Fill.proceeds).sum - (fs.map Fill.cost).sum
            - (fs.map Fill.fee).sum)
          + exitFees pos.tradingQuantity fs := by
  induction fs generalizing pos with
  | nil =>
      refine ⟨hmarked, ?_⟩
      unfold exitFees
      simp
  | cons f fs ih =>
      obtain ⟨hlast, hbook⟩ := ih (pos.marked_fill f)
        fun f' hf' => hsize f' (List.mem_cons_of_mem f hf')
      refine ⟨hlast, ?_⟩
      unfold exitFees
      rw [Lib.run_cons, hbook, pos.quantity_fill,
        pos.book_fill f (hsize f List.mem_cons_self)]
      simp only [List.map_cons, List.sum_cons]
      ring

end Position

open Position

/-- Whatever the position started with, over any fills nothing is divided
by zero, and the p&l is net of all fees exactly if the fees of the fills
against the position there was come to nothing. -/
theorem pnl_net_of_fees_iff (startq : Int) (adjClose : Rat) (fs : List Fill)
    (hsize : ∀ f ∈ fs, 0 < f.size) :
    (Lib.Admits fill Divides (Position.create startq adjClose) fs
      ∧ (Lib.run fill (Position.create startq adjClose) fs).NetOfFees fs)
    ↔ exitFees startq fs = 0 := by
  have hmarked : (Position.create startq adjClose).Marked := by
    show (0 : Rat) = (0 - 0) * (startq : Rat)
    ring
  have hstart : (Position.create startq adjClose).book = 0 := by
    show (0 : Rat) - 0 * (startq : Rat) = 0
    ring
  have hdivides : Lib.Admits fill Divides (Position.create startq adjClose)
      fs :=
    Lib.Admits.of_forall_mem fun f hf pos =>
      pos.divides_of_pos f (hsize f hf)
  obtain ⟨hlast, hbook⟩ := book_run hmarked hsize
  have hfees : exitFees (Position.create startq adjClose).tradingQuantity
      fs = exitFees startq fs := rfl
  unfold NetOfFees
  rw [pnl_eq_book hlast, hbook, hstart, hfees]
  constructor
  · intro h
    linarith [h.2]
  · intro h
    refine ⟨hdivides, ?_⟩
    rw [h]
    ring

/-- Bought and sold again at a fee of one each time. -/
theorem pnl_net_of_fees_iff_demo :
    let fs : List Fill := [⟨.buy, 10, 5, 1⟩, ⟨.buy, 10, 6, 0⟩,
      ⟨.sell, 20, 7, 0⟩]
    (Lib.run fill (Position.create 0 0) fs).NetOfFees fs := by
  intro fs
  exact ((pnl_net_of_fees_iff 0 0 fs (by decide)).mpr
    (by decide +kernel)).2

/-- Ten bought and sold at 5 with a fee of 1 each: one fee is missing. -/
theorem exit_fee_not_realized :
    let fs : List Fill := [⟨.buy, 10, 5, 1⟩, ⟨.sell, 10, 5, 1⟩]
    (∀ f ∈ fs, 0 < f.size)
      ∧ ¬ (Lib.run fill (Position.create 0 0) fs).NetOfFees fs
      ∧ (Lib.run fill (Position.create 0 0) fs).realizedPnl = -1 := by
  unfold NetOfFees
  decide +kernel

end TradingEngine.OE
