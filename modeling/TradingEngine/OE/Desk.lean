/-
The firm check together with the positions it moves, and the operations
on the pair as a machine of their own.

In the source every order and every instrument points at its `Position`,
and `FirmRiskCheck` reaches it through the order; here the positions are
a table by instrument index. `RiskOp` lists the public entry points of
`FirmRiskCheck`, each one critical section under its lock.
-/
import TradingEngine.OE.FirmRisk
import TradingEngine.Lib.Run

namespace TradingEngine.OE

variable {ι : Type}

structure Desk (ι : Type) where
  firmRisk : FirmRiskCheck ι
  position : ι → Position

/-- The entry points of `FirmRiskCheck` after `init`. -/
inductive RiskOp (ι : Type)
  | orderAdds (op : Order ι) (size : Nat)
  | orderRemoves (op : Order ι) (size : Nat)
  | orderFill (op : Order ι) (size : Nat) (price fee : Rat)
  | lastSale (esi : ι) (p : Rat)
  | newOrder (op : Order ι)
  | userDisable
  | userEnable
  | userDisableStock (esi : ι)
  | userEnableStock (esi : ι)

namespace Desk

/-- `new_order`: the answer, and the desk with the refreshed mode. -/
def newOrder (d : Desk ι) (op : Order ι) : Bool × Desk ι :=
  let r := d.firmRisk.newOrder (d.position op.instrument) op
  (r.1, { d with firmRisk := r.2 })

variable [DecidableEq ι]

/-- Store a check and the one position it moved. -/
def put (d : Desk ι) (esi : ι) (r : FirmRiskCheck ι × Position) : Desk ι :=
  { firmRisk := r.1
    position := Function.update d.position esi r.2 }

/-- `on_order_adds`. -/
def onOrderAdds (d : Desk ι) (op : Order ι) (addSize : Nat) : Desk ι :=
  d.put op.instrument
    (d.firmRisk.unsafeOnOrderAdds (d.position op.instrument) op addSize)

/-- `on_order_removes`. -/
def onOrderRemoves (d : Desk ι) (op : Order ι) (cancelSize : Nat) :
    Desk ι :=
  d.put op.instrument
    (d.firmRisk.unsafeOnOrderRemoves (d.position op.instrument) op
      cancelSize)

/-- `on_order_fill`. -/
def onOrderFill (d : Desk ι) (op : Order ι) (size : Nat)
    (price fee : Rat) : Desk ι :=
  d.put op.instrument
    (d.firmRisk.unsafeOnOrderFill (d.position op.instrument) op size price
      fee)

/-- `on_last_sale_change`. -/
def onLastSaleChange (d : Desk ι) (esi : ι) (p : Rat) : Desk ι :=
  d.put esi (d.firmRisk.unsafeOnLastSaleChange (d.position esi) p)

/-- One operation. -/
def step (d : Desk ι) : RiskOp ι → Desk ι
  | .orderAdds op size => d.onOrderAdds op size
  | .orderRemoves op size => d.onOrderRemoves op size
  | .orderFill op size price fee => d.onOrderFill op size price fee
  | .lastSale esi p => d.onLastSaleChange esi p
  | .newOrder op => (d.newOrder op).2
  | .userDisable => { d with firmRisk := d.firmRisk.userDisable }
  | .userEnable => { d with firmRisk := d.firmRisk.userEnable }
  | .userDisableStock esi =>
      { d with firmRisk := d.firmRisk.userDisableStock esi }
  | .userEnableStock esi =>
      { d with firmRisk := d.firmRisk.userEnableStock esi }

-- ============================================= what each operation writes

@[simp] theorem put_firmRisk (d : Desk ι) (esi : ι)
    (r : FirmRiskCheck ι × Position) : (d.put esi r).firmRisk = r.1 := rfl

@[simp] theorem put_position_self (d : Desk ι) (esi : ι)
    (r : FirmRiskCheck ι × Position) : (d.put esi r).position esi = r.2 :=
  Function.update_self ..

theorem put_position_of_ne (d : Desk ι) {esi j : ι} (hj : j ≠ esi)
    (r : FirmRiskCheck ι × Position) :
    (d.put esi r).position j = d.position j :=
  Function.update_of_ne hj ..

/-- A last sale of an instrument without a position is ignored. -/
theorem onLastSaleChange_flat (d : Desk ι) {esi : ι} (p : Rat)
    (hq : (d.position esi).tradingQuantity = 0) :
    d.onLastSaleChange esi p = d := by
  unfold onLastSaleChange FirmRiskCheck.unsafeOnLastSaleChange put
  rw [if_pos hq]
  simp

end Desk

/-- Whether the operation is one of the operator's switches. -/
def RiskOp.isSwitch : RiskOp ι → Bool
  | .userDisable | .userEnable | .userDisableStock _ | .userEnableStock _ =>
      true
  | _ => false

/-- What any other operation may do to the firm check: nothing, refresh
the mode, or move totals and refresh the bits that watch them. -/
inductive FirmMove (frc : FirmRiskCheck ι) : FirmRiskCheck ι → Prop
  | same : FirmMove frc frc
  | mode : FirmMove frc frc.mode
  | opened (s : Side) (amount : Rat) :
      FirmMove frc
        ((frc.moveOpen s amount).refreshed (FirmRiskCheck.openBits s))
  | filled (pos pos' : Position) (s : Side) (amount : Rat) :
      FirmMove frc
        (((frc.movePnl pos pos').moveOpen s amount).refreshed
          (FirmRiskCheck.fillBits s))
  | marked (pos pos' : Position) :
      FirmMove frc
        ((frc.movePnl pos pos').refreshed fun b =>
          FirmRiskCheck.notionalBits b || FirmRiskCheck.pnlBits b)

theorem Desk.firmMove_step [DecidableEq ι] (d : Desk ι) {e : RiskOp ι}
    (he : e.isSwitch = false) :
    FirmMove d.firmRisk (d.step e).firmRisk := by
  cases e with
  | orderAdds op size =>
      simp only [step, onOrderAdds, put_firmRisk,
        FirmRiskCheck.unsafeOnOrderAdds_eq]
      exact .opened ..
  | orderRemoves op size =>
      simp only [step, onOrderRemoves, put_firmRisk,
        FirmRiskCheck.unsafeOnOrderRemoves_eq]
      exact .opened ..
  | orderFill op size price fee =>
      simp only [step, onOrderFill, put_firmRisk,
        FirmRiskCheck.unsafeOnOrderFill_eq]
      exact .filled ..
  | lastSale esi p =>
      by_cases hq : (d.position esi).tradingQuantity = 0
      · show FirmMove d.firmRisk (d.onLastSaleChange esi p).firmRisk
        rw [onLastSaleChange_flat d p hq]
        exact .same
      · simp only [step, onLastSaleChange, put_firmRisk,
          FirmRiskCheck.unsafeOnLastSaleChange_eq _ _ p hq]
        exact .marked ..
  | newOrder op => exact .mode
  | userDisable => cases he
  | userEnable => cases he
  | userDisableStock esi => cases he
  | userEnableStock esi => cases he

end TradingEngine.OE
