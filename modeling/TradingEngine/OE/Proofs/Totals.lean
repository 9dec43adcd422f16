/-
The firm's notionals and p&l are the sums over the positions.

`unsafe_on_order_fill` and `unsafe_on_last_sale_change` never recompute a
total: they take the old contribution of one position out by the old sign
and put the new one in by the new sign. `movePnl` is that step, and
`longPart` / `shortPart` are the contribution of one position to each
notional, zero when the position is on the other side or flat. Then every
operation is one change of one summand.

# Runs

`SharesMoved` has two cases, and every operation is one of them
(`sharesMoved_step`): either none of the four totals and no share moves, or
one position is replaced and the totals move by the change of its shares. The
sums are over all instruments, of which there are finitely many, and
replacing one summand changes a sum by the difference. That is the step lemma
of `TotalsInv`, and the run lemma is its induction over the operations.
-/
import TradingEngine.OE.Proofs.Breakers
import TradingEngine.Lib.Total
import Mathlib.Algebra.BigOperators.Ring.Finset
import Mathlib.Data.Fintype.BigOperators

namespace TradingEngine.OE

variable {ι : Type}

-- ========================================================= contributions

namespace Position

/-- The unrealized p&l is the quantity at mark less average price. -/
def Marked (pos : Position) : Prop :=
  pos.unrealized = (pos.mark - pos.vwap) * pos.tradingQuantity

/-- All that the four totals and `Marked` read. -/
theorem shares_of_pnlPart {pos pos' : Position}
    (h : pos.pnlPart = pos'.pnlPart) :
    pos.longPart = pos'.longPart ∧ pos.shortPart = pos'.shortPart
      ∧ pos.realizedPnl = pos'.realizedPnl
      ∧ pos.unrealizedPnl = pos'.unrealizedPnl
      ∧ (pos.Marked ↔ pos'.Marked) := by
  simp only [pnlPart, PnlPart.mk.injEq] at h
  obtain ⟨hq, hr, hu, hv, hm⟩ := h
  refine ⟨?_, ?_, hr, hu, ?_⟩
  · unfold longPart notional
    rw [hq, hm]
  · unfold shortPart notional
    rw [hq, hm]
  · unfold Marked
    rw [hq, hu, hv, hm]

end Position

-- ================================================ what an operation moves

section Moves

variable [DecidableEq ι]

/-- What an operation does to the positions and the four totals: nothing,
or one position replaced and the totals moved by the change of its
shares. -/
inductive SharesMoved (d : Desk ι) : Desk ι → Prop
  | same (frc : FirmRiskCheck ι)
      (hln : frc.longNotional = d.firmRisk.longNotional)
      (hsn : frc.shortNotional = d.firmRisk.shortNotional)
      (htr : frc.totalRealized = d.firmRisk.totalRealized)
      (htu : frc.totalUnrealized = d.firmRisk.totalUnrealized) :
      SharesMoved d { d with firmRisk := frc }
  | put (esi : ι) (frc : FirmRiskCheck ι) (pos : Position)
      (hmarked : (d.position esi).Marked → pos.Marked)
      (hln : frc.longNotional
        = (d.firmRisk.movePnl (d.position esi) pos).longNotional)
      (hsn : frc.shortNotional
        = (d.firmRisk.movePnl (d.position esi) pos).shortNotional)
      (htr : frc.totalRealized
        = (d.firmRisk.movePnl (d.position esi) pos).totalRealized)
      (htu : frc.totalUnrealized
        = (d.firmRisk.movePnl (d.position esi) pos).totalUnrealized) :
      SharesMoved d (d.put esi (frc, pos))

/-- An order's open exposure moved: no share of the position changes. -/
theorem SharesMoved.moveOpen (d : Desk ι) (esi : ι) (s s' : Side)
    (p amount : Rat) (n : Int) (w : Breaker → Bool) :
    SharesMoved d (d.put esi
      ((d.firmRisk.moveOpen s amount).refreshed w,
        (d.position esi).moveOpen s' p n)) := by
  obtain ⟨hl, hs, hr, hu, hm⟩ := Position.shares_of_pnlPart
    ((d.position esi).pnlPart_moveOpen s' p n)
  refine .put esi _ _ hm.mpr ?_ ?_ ?_ ?_ <;>
    rw [FirmRiskCheck.movePnl_eq] <;>
    simp only [hl, hs, hr, hu, sub_self, add_zero] <;>
    unfold FirmRiskCheck.moveOpen FirmRiskCheck.refreshed <;>
    split <;> rfl

theorem sharesMoved_step (d : Desk ι) (e : RiskOp ι) :
    SharesMoved d (d.step e) := by
  cases e with
  | orderAdds op size =>
      show SharesMoved d (d.onOrderAdds op size)
      unfold Desk.onOrderAdds
      rw [FirmRiskCheck.unsafeOnOrderAdds_eq]
      exact .moveOpen ..
  | orderRemoves op size =>
      show SharesMoved d (d.onOrderRemoves op size)
      unfold Desk.onOrderRemoves
      rw [FirmRiskCheck.unsafeOnOrderRemoves_eq]
      exact .moveOpen ..
  | orderFill op size price fee =>
      show SharesMoved d (d.onOrderFill op size price fee)
      unfold Desk.onOrderFill
      rw [FirmRiskCheck.unsafeOnOrderFill_eq]
      -- the fill moves the shares, the removal after it none of them
      have hmarked := (d.position op.instrument).unrealized_fill op.side
        size price fee
      obtain ⟨hl, hs, hr, hu, hm⟩ := Position.shares_of_pnlPart
        (((d.position op.instrument).updateRealizedAndUnrealizedPnl op.side
          size price fee).pnlPart_moveOpen op.side op.price (-size))
      refine .put _ _ _ (fun _ => hm.mpr hmarked) ?_ ?_ ?_ ?_ <;>
        simp only [FirmRiskCheck.movePnl_eq, hl, hs, hr, hu] <;>
        unfold FirmRiskCheck.moveOpen FirmRiskCheck.refreshed <;>
        split <;> rfl
  | lastSale esi p =>
      show SharesMoved d (d.onLastSaleChange esi p)
      by_cases hq : (d.position esi).tradingQuantity = 0
      · rw [Desk.onLastSaleChange_flat d p hq]
        exact .same d.firmRisk rfl rfl rfl rfl
      · unfold Desk.onLastSaleChange
        rw [FirmRiskCheck.unsafeOnLastSaleChange_eq _ _ p hq]
        exact .put _ _ _ (fun _ => rfl) rfl rfl rfl rfl
  | newOrder op =>
      show SharesMoved d { d with firmRisk := d.firmRisk.mode }
      rw [FirmRiskCheck.mode_eq]
      exact .same _ rfl rfl rfl rfl
  | userDisable => exact .same _ rfl rfl rfl rfl
  | userEnable => exact .same _ rfl rfl rfl rfl
  | userDisableStock esi => exact .same _ rfl rfl rfl rfl
  | userEnableStock esi => exact .same _ rfl rfl rfl rfl

end Moves

-- ============================================================ the totals

variable [Fintype ι]

/-- The four firm totals are sums over the positions, and each position
is marked. -/
structure TotalsInv (d : Desk ι) : Prop where
  longNotional : d.firmRisk.longNotional = ∑ i, (d.position i).longPart
  shortNotional : d.firmRisk.shortNotional = ∑ i, (d.position i).shortPart
  realized : d.firmRisk.totalRealized = ∑ i, (d.position i).realizedPnl
  unrealized :
    d.firmRisk.totalUnrealized = ∑ i, (d.position i).unrealizedPnl
  marked : ∀ i, (d.position i).Marked

/-- The totals and the positions are all the invariant reads. -/
theorem TotalsInv.congr_firmRisk {d : Desk ι} (h : TotalsInv d)
    {frc : FirmRiskCheck ι}
    (hln : frc.longNotional = d.firmRisk.longNotional)
    (hsn : frc.shortNotional = d.firmRisk.shortNotional)
    (htr : frc.totalRealized = d.firmRisk.totalRealized)
    (htu : frc.totalUnrealized = d.firmRisk.totalUnrealized) :
    TotalsInv { d with firmRisk := frc } :=
  ⟨hln.trans h.longNotional, hsn.trans h.shortNotional,
    htr.trans h.realized, htu.trans h.unrealized, h.marked⟩

/-- A start-of-day position: any quantity, nothing marked or realized. -/
structure Position.Unmarked (pos : Position) : Prop where
  realized : pos.realized = 0
  unrealized : pos.unrealized = 0
  vwap : pos.vwap = 0
  mark : pos.mark = 0

/-- The blank totals of `init` fit unmarked positions. -/
theorem totalsInv_start {frc : FirmRiskCheck ι} (h : frc.Blank)
    {position : ι → Position} (hstart : ∀ i, (position i).Unmarked) :
    TotalsInv ⟨frc, position⟩ := by
  have hnotional : ∀ i, (position i).notional = 0 := by
    intro i
    unfold Position.notional
    rw [(hstart i).mark, zero_mul]
  refine ⟨?_, ?_, ?_, ?_, fun i => ?_⟩
  · rw [h.longNotional]
    refine (Finset.sum_eq_zero fun i _ => ?_).symm
    unfold Position.longPart
    rw [hnotional i, ite_self]
  · rw [h.shortNotional]
    refine (Finset.sum_eq_zero fun i _ => ?_).symm
    unfold Position.shortPart
    rw [hnotional i, ite_self]
  · rw [h.realized]
    exact (Finset.sum_eq_zero fun i _ => (hstart i).realized).symm
  · rw [h.unrealized]
    exact (Finset.sum_eq_zero fun i _ => (hstart i).unrealized).symm
  · show (position i).unrealized = _
    rw [(hstart i).unrealized, (hstart i).mark, (hstart i).vwap, sub_zero,
      zero_mul]

variable [DecidableEq ι]

/-- One position replaced, the totals moved by the change of its shares:
`movePnl` with whatever it is followed by that leaves the four totals
alone. -/
theorem TotalsInv.put {d : Desk ι} (h : TotalsInv d) {esi : ι}
    {frc : FirmRiskCheck ι} {pos : Position} (hmarked : pos.Marked)
    (hln : frc.longNotional
      = (d.firmRisk.movePnl (d.position esi) pos).longNotional)
    (hsn : frc.shortNotional
      = (d.firmRisk.movePnl (d.position esi) pos).shortNotional)
    (htr : frc.totalRealized
      = (d.firmRisk.movePnl (d.position esi) pos).totalRealized)
    (htu : frc.totalUnrealized
      = (d.firmRisk.movePnl (d.position esi) pos).totalUnrealized) :
    TotalsInv (d.put esi (frc, pos)) := by
  rw [FirmRiskCheck.movePnl_eq] at hln hsn htr htu
  refine ⟨?_, ?_, ?_, ?_, fun i => ?_⟩
  · show frc.longNotional = _
    rw [hln, h.longNotional]
    exact (Lib.sum_update d.position esi pos Position.longPart).symm
  · show frc.shortNotional = _
    rw [hsn, h.shortNotional]
    exact (Lib.sum_update d.position esi pos Position.shortPart).symm
  · show frc.totalRealized = _
    rw [htr, h.realized]
    exact (Lib.sum_update d.position esi pos Position.realizedPnl).symm
  · show frc.totalUnrealized = _
    rw [htu, h.unrealized]
    exact (Lib.sum_update d.position esi pos Position.unrealizedPnl).symm
  · by_cases hi : i = esi
    · rw [hi, Desk.put_position_self]
      exact hmarked
    · rw [Desk.put_position_of_ne d hi]
      exact h.marked i

/-- Every operation keeps the totals in line with the positions. -/
theorem totalsInv_step (d : Desk ι) (e : RiskOp ι) (h : TotalsInv d) :
    TotalsInv (d.step e) := by
  have hmoved := sharesMoved_step d e
  generalize d.step e = d' at hmoved ⊢
  cases hmoved with
  | same frc hln hsn htr htu => exact h.congr_firmRisk hln hsn htr htu
  | put esi frc pos hmarked hln hsn htr htu =>
      exact h.put (hmarked (h.marked esi)) hln hsn htr htu

-- ================================================================== runs

/-- Fills are of a positive size: a fill of none into a flat position
divides by zero. -/
def RiskOp.FillSized : RiskOp ι → Prop
  | .orderFill _ size _ _ => 0 < size
  | _ => True

/-- After any fills and last sales (orders sent, cancelled and switches
thrown in between or not), the firm's notionals are the sums of the
notionals of the long and of the short positions, its p&l totals are the
sums of the positions' p&l, and every position is marked. -/
theorem firm_totals_are_sums {cfg : FirmRiskConf} {frc : FirmRiskCheck ι}
    (hinit : FirmRiskCheck.init cfg = .ok frc)
    {position : ι → Position} (hstart : ∀ i, (position i).Unmarked)
    (ops : List (RiskOp ι))
    (hops : Lib.Admits Desk.step (fun _ e => e.FillSized)
      ⟨frc, position⟩ ops) :
    let d := Lib.run Desk.step ⟨frc, position⟩ ops
    d.firmRisk.longNotional
        = ∑ i with (d.position i).tradingQuantity > 0,
            (d.position i).notional
      ∧ d.firmRisk.shortNotional
        = ∑ i with (d.position i).tradingQuantity < 0,
            (d.position i).notional
      ∧ d.firmRisk.totalRealized = ∑ i, (d.position i).realizedPnl
      ∧ d.firmRisk.totalUnrealized = ∑ i, (d.position i).unrealizedPnl
      ∧ ∀ i, (d.position i).unrealizedPnl
          = ((d.position i).mark - (d.position i).vwap)
            * (d.position i).tradingQuantity := by
  intro d
  have hinv : TotalsInv d :=
    Lib.run_invariant (fun d e h _ => totalsInv_step d e h)
      (totalsInv_start (FirmRiskCheck.init_blank hinit) hstart) hops
  refine ⟨?_, ?_, hinv.realized, hinv.unrealized, hinv.marked⟩
  · rw [hinv.longNotional, Finset.sum_filter]
    rfl
  · rw [hinv.shortNotional, Finset.sum_filter]
    rfl

/-- A long, a reversal to short and a mark on one instrument, a short on
another. -/
theorem firm_totals_are_sums_demo :
    let buy := Order.create (OrderParams.dayLimit true .buy 10 5)
    let sell := Order.create (OrderParams.dayLimit true .sell 25 6)
    let short := Order.create (OrderParams.dayLimit false .short 4 10)
    let d := Lib.run Desk.step
      ⟨FirmRiskCheck.uniform 1000, fun _ => Position.create 0 0⟩
      [.orderFill buy 10 5 0, .orderFill sell 25 6 0,
        .orderFill short 4 10 0, .lastSale true 7]
    d.firmRisk.shortNotional = -145
      ∧ d.firmRisk.shortNotional
        = ∑ i with (d.position i).tradingQuantity < 0,
            (d.position i).notional := by
  intro buy sell short d
  have hflat : ∀ _ : Bool, (Position.create 0 0).Unmarked := fun _ =>
    ⟨rfl, rfl, rfl, rfl⟩
  have h := firm_totals_are_sums
    (FirmRiskCheck.init_uniform (l := 1000) (by norm_num) (by norm_num))
    hflat
    [.orderFill buy 10 5 0, .orderFill sell 25 6 0,
      .orderFill short 4 10 0, .lastSale true 7]
    ⟨Nat.succ_pos 9, Nat.succ_pos 24, Nat.succ_pos 3, trivial, trivial⟩
  exact ⟨by decide +kernel, h.2.1⟩

end TradingEngine.OE
