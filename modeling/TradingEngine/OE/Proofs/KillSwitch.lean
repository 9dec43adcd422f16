/-
The operator's kill switches: when a disabled order is refused, and when
it is not.

# Two ways around the switch

- `user_disable()` sets the `userDisable` bit but drops the result of
  `update_mode` and does not mark the mode dirty. Until some total has
  moved since `init`, `new_order` goes on reading the cached `normal`.
- In `flattenOnly` mode `new_order` jumps over the stock's `USER_DISABLE`
  permission.

Everything else holds: `m_dirty_mode` is never cleared, so once a total
has moved every `new_order` recomputes the mode, and the bit comes first
in it.
-/
import TradingEngine.OE.Proofs.Breakers

namespace TradingEngine.OE

variable {ι : Type}

-- ==================================================== the switches' history

/-- The last firm-wide call was `user_disable()`. -/
def firmSwitchedOff : List (RiskOp ι) → Bool :=
  Lib.run (fun off e =>
    match e with
    | .userDisable => true
    | .userEnable => false
    | _ => off) false

/-- The last call for instrument `esi` was `user_disable(esi)`. -/
def stockSwitchedOff [DecidableEq ι] (esi : ι) : List (RiskOp ι) → Bool :=
  Lib.run (fun off e =>
    match e with
    | .userDisableStock j => if j = esi then true else off
    | .userEnableStock j => if j = esi then false else off
    | _ => off) false

/-- Whether the operation moves a total of the firm check. -/
def Desk.moves (d : Desk ι) : RiskOp ι → Bool
  | .orderAdds .. | .orderRemoves .. | .orderFill .. => true
  | .lastSale esi _ => (d.position esi).tradingQuantity != 0
  | _ => false

/-- Whether any operation of the run has moved a total. -/
def totalsMoved [DecidableEq ι] : Desk ι → List (RiskOp ι) → Bool
  | _, [] => false
  | d, e :: es => d.moves e || totalsMoved (d.step e) es

namespace FirmRiskCheck

/-- What a switch has no part in: `op` is refused for its side against
the mode, for flattening, for its price increment or for a limit, all in
the mode that the totals alone imply. -/
def refusedAnyway (frc : FirmRiskCheck ι) (pos : Position) (op : Order ι) :
    Bool :=
  let frc := frc.userEnable.mode
  !(modeAdmits frc.mMode op && frc.flattenAdmits pos op
    && nmsPriceAdmits op && frc.limitsAdmit op)

-- ================================================================= frames

/-- Trading never touches the switches. -/
theorem switches_move {frc frc' : FirmRiskCheck ι}
    (hmove : FirmMove frc frc') :
    frc'.breakers .userDisable = frc.breakers .userDisable
      ∧ frc'.instPermissions = frc.instPermissions := by
  cases hmove with
  | same => exact ⟨rfl, rfl⟩
  | mode =>
      rw [mode_eq]
      exact ⟨rfl, rfl⟩
  | opened s amount =>
      unfold moveOpen
      split <;> exact ⟨rfl, rfl⟩
  | filled pos pos' s amount =>
      rw [movePnl_eq]
      unfold moveOpen
      split <;> exact ⟨rfl, rfl⟩
  | marked pos pos' =>
      rw [movePnl_eq]
      exact ⟨rfl, rfl⟩

-- ====================================================== refusals by source

/-- `new_order` by its three sources of refusal: the firm-wide switch once
the mode is recomputed, the stock's switch outside `flattenOnly`, and
whatever no switch has a part in. -/
theorem newOrder_eq_false_iff (frc : FirmRiskCheck ι)
    (pos : Position) (op : Order ι) :
    (frc.newOrder pos op).1 = false
      ↔ (frc.breakers .userDisable = true ∧ frc.dirtyMode = true)
        ∨ (frc.instPermissions op.instrument .userDisable = true
            ∧ frc.mode.mMode ≠ .flattenOnly)
        ∨ frc.refusedAnyway pos op = true := by
  by_cases hfirm : frc.breakers .userDisable = true ∧ frc.dirtyMode = true
  · -- the recomputed mode is `disableAll`
    have hmode : frc.mode.mMode = .disableAll := by
      rw [mode_eq]
      simp only [hfirm.2, if_true, updateMode, hfirm.1]
    simp only [newOrder, hmode, modeAdmits, Bool.false_and, hfirm,
      and_self, true_or]
  · -- the mode is the one the totals imply, switch or no switch
    have hmode : frc.userEnable.mode.mMode = frc.mode.mMode := by
      rw [mode_eq, mode_eq]
      show (if frc.dirtyMode then frc.userEnable.updateMode
        else frc.mMode) = if frc.dirtyMode then frc.updateMode
        else frc.mMode
      split
      case isTrue hdirty =>
        have hbit : frc.breakers .userDisable = false := by
          simpa [hdirty] using hfirm
        have hsame : frc.userEnable = frc := by
          unfold userEnable setBreaker
          rw [← hbit, Function.update_eq_self]
        rw [hsame]
      case isFalse => rfl
    have hflat : frc.userEnable.mode.flattenAdmits pos op
        = frc.mode.flattenAdmits pos op := by
      unfold flattenAdmits
      rw [hmode, mode_eq, mode_eq]
      rfl
    have hlimits : frc.userEnable.mode.limitsAdmit op
        = frc.mode.limitsAdmit op := by
      unfold limitsAdmit
      rw [hmode, mode_eq, mode_eq]
      rfl
    have hperm : frc.mode.instPermissions = frc.instPermissions := by
      rw [mode_eq]
    simp only [refusedAnyway, hmode, hflat, hlimits, newOrder,
      stockAdmits, hperm, hfirm, false_or]
    cases modeAdmits frc.mode.mMode op <;>
      cases frc.mode.flattenAdmits pos op <;> cases nmsPriceAdmits op <;>
      cases frc.mode.limitsAdmit op <;>
      cases frc.instPermissions op.instrument .userDisable <;>
      simp

end FirmRiskCheck

variable [DecidableEq ι]

-- ============================================================ the bits

/-- The firm-wide bit is the history of the firm-wide calls. -/
theorem userDisable_run {d : Desk ι}
    (h : d.firmRisk.breakers .userDisable = false)
    (ops : List (RiskOp ι)) :
    (Lib.run Desk.step d ops).firmRisk.breakers .userDisable
      = firmSwitchedOff ops := by
  refine Lib.run_related
    (R := fun (d : Desk ι) off => d.firmRisk.breakers .userDisable = off)
    (fun d off e hR => ?_) h
  subst hR
  cases he : e.isSwitch with
  | false =>
      rw [(FirmRiskCheck.switches_move (d.firmMove_step he)).1]
      cases e <;> first | rfl | cases he
  | true => cases e <;> first | rfl | cases he

/-- A stock's permission bit is the history of the calls for it. -/
theorem permission_run {d : Desk ι} {esi : ι}
    (h : d.firmRisk.instPermissions esi .userDisable = false)
    (ops : List (RiskOp ι)) :
    (Lib.run Desk.step d ops).firmRisk.instPermissions esi .userDisable
      = stockSwitchedOff esi ops := by
  refine Lib.run_related
    (R := fun (d : Desk ι) off =>
      d.firmRisk.instPermissions esi .userDisable = off)
    (fun d off e hR => ?_) h
  subst hR
  have hset : ∀ (j : ι) (on : Bool),
      (d.firmRisk.setPermission j .userDisable on).instPermissions esi
          .userDisable
        = if j = esi then on
          else d.firmRisk.instPermissions esi .userDisable := by
    intro j on
    show Function.update d.firmRisk.instPermissions j _ esi .userDisable
      = _
    by_cases hj : j = esi
    · subst hj
      rw [Function.update_self, Function.update_self, if_pos rfl]
    · rw [Function.update_of_ne (Ne.symm hj), if_neg hj]
  cases he : e.isSwitch with
  | false =>
      rw [(FirmRiskCheck.switches_move (d.firmMove_step he)).2]
      cases e <;> first | rfl | cases he
  | true =>
      cases e with
      | userDisable => rfl
      | userEnable => rfl
      | userDisableStock j => exact hset j true
      | userEnableStock j => exact hset j false
      | _ => cases he

/-- The mode is dirty from the first move of a total on. -/
theorem dirtyMode_step (d : Desk ι) (e : RiskOp ι) :
    (d.step e).firmRisk.dirtyMode = (d.firmRisk.dirtyMode || d.moves e) := by
  cases e with
  | orderAdds op size =>
      simp only [Desk.step, Desk.onOrderAdds, Desk.put_firmRisk,
        FirmRiskCheck.unsafeOnOrderAdds_eq, Desk.moves, Bool.or_true]
      rfl
  | orderRemoves op size =>
      simp only [Desk.step, Desk.onOrderRemoves, Desk.put_firmRisk,
        FirmRiskCheck.unsafeOnOrderRemoves_eq, Desk.moves, Bool.or_true]
      rfl
  | orderFill op size price fee =>
      simp only [Desk.step, Desk.onOrderFill, Desk.put_firmRisk,
        FirmRiskCheck.unsafeOnOrderFill_eq, Desk.moves, Bool.or_true]
      rfl
  | lastSale esi p =>
      show (d.onLastSaleChange esi p).firmRisk.dirtyMode = _
      by_cases hq : (d.position esi).tradingQuantity = 0
      · rw [Desk.onLastSaleChange_flat d p hq]
        simp [Desk.moves, hq]
      · simp only [Desk.onLastSaleChange, Desk.put_firmRisk,
          FirmRiskCheck.unsafeOnLastSaleChange_eq _ _ p hq, Desk.moves,
          bne_iff_ne.mpr hq, Bool.or_true]
        rfl
  | newOrder op =>
      show d.firmRisk.mode.dirtyMode = _
      rw [FirmRiskCheck.mode_eq]
      exact (Bool.or_false _).symm
  | userDisable => exact (Bool.or_false _).symm
  | userEnable => exact (Bool.or_false _).symm
  | userDisableStock esi => exact (Bool.or_false _).symm
  | userEnableStock esi => exact (Bool.or_false _).symm

theorem dirtyMode_run (d : Desk ι) (ops : List (RiskOp ι)) :
    (Lib.run Desk.step d ops).firmRisk.dirtyMode
      = (d.firmRisk.dirtyMode || totalsMoved d ops) := by
  induction ops generalizing d with
  | nil => exact (Bool.or_false _).symm
  | cons e es ih =>
      rw [Lib.run_cons, ih, dirtyMode_step, Bool.or_assoc]
      rfl

-- ========================================================= the two leaks

/-- `user_disable()` was the last firm-wide call, or `user_disable(esi)`
the last one for the stock. -/
def switchedOff (esi : ι) (ops : List (RiskOp ι)) : Bool :=
  firmSwitchedOff ops || stockSwitchedOff esi ops

/-- A thrown kill switch, firm-wide or the stock's, makes `new_order`
refuse exactly when a total has moved since `init` (the firm-wide switch),
the mode is not `flattenOnly` (the stock's), or the order would have been
refused without it. -/
theorem kill_switch_blocks_iff {cfg : FirmRiskConf}
    {frc : FirmRiskCheck ι} (hinit : FirmRiskCheck.init cfg = .ok frc)
    (position : ι → Position) (ops : List (RiskOp ι)) (op : Order ι) :
    let d := Lib.run Desk.step ⟨frc, position⟩ ops
    (switchedOff op.instrument ops = true → (d.newOrder op).1 = false)
      ↔ (switchedOff op.instrument ops = true →
          (firmSwitchedOff ops = true
            ∧ totalsMoved ⟨frc, position⟩ ops = true)
          ∨ (stockSwitchedOff op.instrument ops = true
            ∧ d.firmRisk.mode.mMode ≠ .flattenOnly)
          ∨ d.firmRisk.refusedAnyway (d.position op.instrument) op
            = true) := by
  intro d
  have hblank := FirmRiskCheck.init_blank hinit
  have hfirm := userDisable_run (d := ⟨frc, position⟩)
    (hblank.bits .userDisable) ops
  have hstock := permission_run (d := ⟨frc, position⟩)
    (hblank.permissions op.instrument .userDisable) ops
  have hdirty := dirtyMode_run ⟨frc, position⟩ ops
  have hclean : (⟨frc, position⟩ : Desk ι).firmRisk.dirtyMode = false :=
    hblank.clean
  rw [hclean, Bool.false_or] at hdirty
  have hrefuse := FirmRiskCheck.newOrder_eq_false_iff d.firmRisk
    (d.position op.instrument) op
  rw [hfirm, hstock, hdirty] at hrefuse
  exact imp_congr_right fun _ => hrefuse

/-- One fill, then the firm-wide switch: the next order is refused. -/
theorem kill_switch_blocks_iff_demo :
    let buy := Order.create (OrderParams.dayLimit () .buy 10 5)
    let d := Lib.run Desk.step
      ⟨FirmRiskCheck.uniform 1000, fun _ => Position.create 0 0⟩
      [.orderFill buy 10 5 0, .userDisable]
    (d.newOrder buy).1 = false := by
  intro buy d
  exact (kill_switch_blocks_iff (ι := Unit)
    (FirmRiskCheck.init_uniform (l := 1000) (by norm_num) (by norm_num))
    (fun _ => Position.create 0 0)
    [.orderFill buy 10 5 0, .userDisable] buy).mpr
    (fun _ => .inl ⟨rfl, rfl⟩) rfl

/-- Both leaks, each from an `init`: an order accepted right after
`user_disable()` on a fresh day, and an order accepted for a disabled
stock while the firm is over its gross notional limit. -/
theorem kill_switch_leaks :
    (∃ (cfg : FirmRiskConf) (frc : FirmRiskCheck Unit),
      FirmRiskCheck.init cfg = .ok frc ∧
      let op := Order.create (OrderParams.dayLimit () .buy 10 5)
      let ops := [.userDisable]
      let d := Lib.run Desk.step ⟨frc, fun _ => Position.create 0 0⟩ ops
      firmSwitchedOff ops = true ∧ (d.newOrder op).1 = true)
    ∧ (∃ (cfg : FirmRiskConf) (frc : FirmRiskCheck Unit),
      FirmRiskCheck.init cfg = .ok frc ∧
      let buy := Order.create (OrderParams.dayLimit () .buy 10 5)
      let op := Order.create (OrderParams.dayLimit () .sell 10 5)
      let ops := [.orderFill buy 10 5 0, .userDisableStock ()]
      let d := Lib.run Desk.step ⟨frc, fun _ => Position.create 0 0⟩ ops
      stockSwitchedOff () ops = true ∧ (d.newOrder op).1 = true) := by
  refine ⟨⟨.uniform 1000, .uniform 1000, rfl, ?_⟩,
    ⟨{ FirmRiskConf.uniform 1000 with grossNotionalLimit := some 50 },
      { FirmRiskCheck.uniform 1000 with mGrossNotionalLimit := 50 }, rfl,
      ?_⟩⟩
  · decide +kernel
  · decide +kernel

end TradingEngine.OE
