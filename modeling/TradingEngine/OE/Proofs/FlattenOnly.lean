/-
Flatten-only and the size of what it lets through.

While flattening, `new_order` looks at the sign of the position and at the
side of the order: a long position only sells, any other only buys
(`newOrder_flattens`). It never looks at the size. Only fills move a
quantity (`quantity_step`), so an order filled completely takes the
position `size` towards zero, and past it (`quantity_run`): twice the
position is the most that leaves it no larger, and from flat nothing does.

# The bound

An order of size `n` against a position of size `p` leaves `p - n`, which is
no larger than `p` as long as `n` is at most `2p`. That is a fact of
arithmetic; what has to be proved is that a completely filled order moves the
position by its size, whatever else is filled in between, and that the two
switches let through exactly the orders on the side named above.
-/
import TradingEngine.OE.Proofs.Breakers

namespace TradingEngine.OE

variable {ι : Type}

-- ============================================================== flattening

namespace Desk

/-- The firm only flattens, or the instrument does. -/
def Flattening (d : Desk ι) (esi : ι) : Prop :=
  d.firmRisk.mode.mMode = .flattenOnly
    ∨ d.firmRisk.instPermissions esi .flattenOnly = true

theorem mode_instPermissions (frc : FirmRiskCheck ι) :
    frc.mode.instPermissions = frc.instPermissions := by
  rw [FirmRiskCheck.mode_eq]

/-- What is let through while flattening goes against a long position and
along any other. -/
theorem newOrder_flattens {d : Desk ι} {op : Order ι}
    (hflat : d.Flattening op.instrument)
    (hok : (d.newOrder op).1 = true) :
    op.side = .buy ↔ (d.position op.instrument).quantity ≤ 0 := by
  have hadmits : d.firmRisk.mode.flattenAdmits (d.position op.instrument)
      op = true := by
    unfold newOrder FirmRiskCheck.newOrder at hok
    simp only [Bool.and_eq_true] at hok
    exact hok.1.1.2
  have hcheck : (d.firmRisk.mode.instPermissions op.instrument .flattenOnly
      || d.firmRisk.mode.mMode == .flattenOnly) = true := by
    rw [mode_instPermissions, Bool.or_eq_true, beq_iff_eq]
    exact hflat.symm
  unfold FirmRiskCheck.flattenAdmits at hadmits
  rw [if_pos hcheck] at hadmits
  split at hadmits
  case isTrue hlong =>
    have hside : op.side ≠ .buy := by simpa using hadmits
    constructor
    · intro h
      exact absurd h hside
    · intro h
      omega
  case isFalse hshort =>
    have hside : op.side = .buy := by simpa using hadmits
    constructor
    · intro
      omega
    · intro
      exact hside

theorem newOrder_position (d : Desk ι) (op : Order ι) :
    (d.newOrder op).2.position = d.position := rfl

end Desk

-- ================================================================== fills

namespace RiskOp

variable [DecidableEq ι]

/-- What a fill of the instrument comes to, whatever its side. -/
def filledSize (esi : ι) : RiskOp ι → Nat
  | .orderFill op size _ _ => if op.instrument = esi then size else 0
  | _ => 0

/-- The signed size a fill moves the instrument's quantity by. -/
def quantityMove (esi : ι) : RiskOp ι → Int
  | .orderFill op size _ _ =>
      if op.instrument = esi then
        if op.side = .buy then (size : Int) else -size
      else 0
  | _ => 0

/-- Fills of the instrument are on the side of the order. -/
def AlongWith (op : Order ι) : RiskOp ι → Prop
  | .orderFill op' _ _ _ =>
      op'.instrument = op.instrument → (op'.side = .buy ↔ op.side = .buy)
  | _ => True

instance (op : Order ι) (e : RiskOp ι) : Decidable (e.AlongWith op) := by
  cases e <;> unfold AlongWith <;> infer_instance

theorem AlongWith.quantityMove {op : Order ι} {e : RiskOp ι}
    (h : e.AlongWith op) :
    e.quantityMove op.instrument
      = if op.side = .buy then (e.filledSize op.instrument : Int)
        else -(e.filledSize op.instrument : Int) := by
  cases e with
  | orderFill op' size price fee =>
      unfold RiskOp.quantityMove filledSize
      by_cases hinst : op'.instrument = op.instrument
      · simp [hinst, h hinst]
      · simp [hinst]
  | _ => simp [RiskOp.quantityMove, filledSize]

end RiskOp

/-- The operations fill the order completely, with no other fill of its
instrument among them. -/
structure FilledBy [DecidableEq ι] (op : Order ι) (es : List (RiskOp ι)) :
    Prop where
  along : ∀ e ∈ es, e.AlongWith op
  size : (es.map (RiskOp.filledSize op.instrument)).sum = op.size

namespace Desk

variable [DecidableEq ι]

/-- The quantity of the one position an operation replaces. -/
theorem quantity_put (d : Desk ι) (j esi : ι)
    (r : FirmRiskCheck ι × Position) (m : Int)
    (hr : r.2.tradingQuantity = (d.position j).tradingQuantity + m) :
    ((d.put j r).position esi).tradingQuantity
      = (d.position esi).tradingQuantity + if j = esi then m else 0 := by
  by_cases hj : j = esi
  · rw [← hj, put_position_self, hr, if_pos rfl]
  · rw [put_position_of_ne d (Ne.symm hj), if_neg hj, add_zero]

/-- Only a fill moves a quantity. -/
theorem quantity_step (d : Desk ι) (esi : ι) (e : RiskOp ι) :
    ((d.step e).position esi).tradingQuantity
      = (d.position esi).tradingQuantity + e.quantityMove esi := by
  have hopen : ∀ (pos : Position) (s : Side) (p : Rat) (n : Int),
      (pos.moveOpen s p n).tradingQuantity = pos.tradingQuantity := by
    intro pos s p n
    exact congrArg Position.PnlPart.quantity (pos.pnlPart_moveOpen s p n)
  cases e with
  | orderAdds op size =>
      refine (d.quantity_put _ esi _ 0 ?_).trans
        (by simp [RiskOp.quantityMove])
      rw [FirmRiskCheck.unsafeOnOrderAdds_eq, hopen, add_zero]
  | orderRemoves op size =>
      refine (d.quantity_put _ esi _ 0 ?_).trans
        (by simp [RiskOp.quantityMove])
      rw [FirmRiskCheck.unsafeOnOrderRemoves_eq, hopen, add_zero]
  | orderFill op size price fee =>
      refine d.quantity_put _ esi _ _ ?_
      rw [FirmRiskCheck.unsafeOnOrderFill_eq, hopen,
        Position.tradingQuantity_fill]
      split
      · rfl
      · exact sub_eq_add_neg ..
  | lastSale j p =>
      refine (d.quantity_put _ esi _ 0 ?_).trans
        (by simp [RiskOp.quantityMove])
      unfold FirmRiskCheck.unsafeOnLastSaleChange
      split
      · exact (add_zero _).symm
      · exact (add_zero _).symm
  | newOrder op => exact (add_zero _).symm
  | userDisable => exact (add_zero _).symm
  | userEnable => exact (add_zero _).symm
  | userDisableStock j => exact (add_zero _).symm
  | userEnableStock j => exact (add_zero _).symm

/-- Over operations that fill along with the order. -/
theorem quantity_run {d : Desk ι} {op : Order ι} {es : List (RiskOp ι)}
    (h : ∀ e ∈ es, e.AlongWith op) :
    ((Lib.run step d es).position op.instrument).tradingQuantity
      = (d.position op.instrument).tradingQuantity
        + if op.side = .buy then
            ((es.map (RiskOp.filledSize op.instrument)).sum : Int)
          else -((es.map (RiskOp.filledSize op.instrument)).sum : Int) := by
  induction es generalizing d with
  | nil => simp
  | cons e es ih =>
      rw [Lib.run_cons, ih fun e' he' => h e' (List.mem_cons_of_mem e he'),
        quantity_step, (h e List.mem_cons_self).quantityMove, List.map_cons,
        List.sum_cons]
      split
      · push_cast
        ring
      · push_cast
        ring

end Desk

-- ================================================================= result

variable [DecidableEq ι]

/-- In flatten-only, the firm's or the instrument's, an order that is let
through and filled completely leaves the position no larger exactly if it
is of at most twice the position's size. -/
theorem flatten_only_iff (d : Desk ι) (op : Order ι)
    (hflat : d.Flattening op.instrument) (hok : (d.newOrder op).1 = true)
    (es : List (RiskOp ι)) (hes : FilledBy op es) :
    ((Lib.run Desk.step (d.newOrder op).2 es).position
        op.instrument).quantity.natAbs
      ≤ (d.position op.instrument).quantity.natAbs
    ↔ op.size ≤ 2 * (d.position op.instrument).quantity.natAbs := by
  have hside := Desk.newOrder_flattens hflat hok
  have hrun := Desk.quantity_run (d := (d.newOrder op).2) hes.along
  rw [hes.size, Desk.newOrder_position] at hrun
  unfold Position.quantity at hside ⊢
  rw [hrun]
  by_cases hbuy : op.side = .buy
  · have hshort := hside.mp hbuy
    rw [if_pos hbuy]
    omega
  · have hlong := hside.not.mp hbuy
    rw [if_neg hbuy]
    omega

/-- Over the gross notional limit with ten, twenty are sold. -/
theorem flatten_only_iff_demo :
    let buy := Order.create (OrderParams.dayLimit () .buy 10 5)
    let op := Order.create (OrderParams.dayLimit () .sell 20 5)
    let d := Lib.run Desk.step
      ⟨{ FirmRiskCheck.uniform 1000 with mGrossNotionalLimit := 50 },
        fun _ => Position.create 0 0⟩
      [.orderAdds buy 10, .orderFill buy 10 5 0]
    ((Lib.run Desk.step (d.newOrder op).2
        [.orderAdds op 20, .orderFill op 20 5 0]).position
          ()).quantity.natAbs
      ≤ (d.position ()).quantity.natAbs := by
  intro buy op d
  exact (flatten_only_iff d op (.inl (by decide +kernel))
    (by decide +kernel) [.orderAdds op 20, .orderFill op 20 5 0]
    ⟨by decide +kernel, by decide +kernel⟩).mpr (by decide +kernel)

/-- A day on which the firm comes to hold ten over its gross notional
limit: a sell of twenty-five is let through and leaves it fifteen short. -/
theorem flatten_only_overshoots :
    ∃ (cfg : FirmRiskConf) (frc : FirmRiskCheck Unit),
      FirmRiskCheck.init cfg = .ok frc ∧
      let buy := Order.create (OrderParams.dayLimit () .buy 10 5)
      let op := Order.create (OrderParams.dayLimit () .sell 25 5)
      let d := Lib.run Desk.step ⟨frc, fun _ => Position.create 0 0⟩
        [.orderAdds buy 10, .orderFill buy 10 5 0]
      let es := [.orderAdds op 25, .orderFill op 25 5 0]
      d.firmRisk.mode.mMode = .flattenOnly
        ∧ (d.newOrder op).1 = true
        ∧ FilledBy op es
        ∧ (d.position ()).quantity = 10
        ∧ ((Lib.run Desk.step (d.newOrder op).2 es).position ()).quantity
          = -15 := by
  refine ⟨{ FirmRiskConf.uniform 1000 with grossNotionalLimit := some 50 },
    { FirmRiskCheck.uniform 1000 with mGrossNotionalLimit := 50 }, rfl, ?_⟩
  refine ⟨by decide +kernel, by decide +kernel, ⟨?_, ?_⟩, by decide +kernel,
    by decide +kernel⟩
  · decide +kernel
  · decide +kernel

end TradingEngine.OE
