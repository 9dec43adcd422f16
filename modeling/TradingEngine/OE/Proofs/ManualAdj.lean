/-
A manual adjustment and the firm totals.

The firm's notionals and unrealized p&l are kept by deltas, and every
operation of the firm check moves them with the position it moves
(`sharesMoved_step`), so relations that hold go on holding whatever fills
and last sales come. `manual_position_adj` is the exception: it moves the
trading quantity and nothing that is computed from it, which goes
unnoticed only as long as the position has no mark and no average price.

# Exactly when

The adjustment leaves the totals as they were, so they are still the sums if
the adjusted position has the same shares as before
(`Position.adjusted_iff`). A share is a product of a quantity and a price,
and the unrealized part of it has the average price in it as well: only a
position without both is the same at another quantity. Later operations move
totals and positions alike, so the relations hold in the end exactly if they
do after the adjustment.
-/
import TradingEngine.OE.Proofs.Totals
import TradingEngine.OE.Trading

namespace TradingEngine.OE

variable {ω ι : Type} [Fintype ι]

/-- The firm's notionals and unrealized p&l are sums over the positions,
each of which is marked. -/
structure Consistent (d : Desk ι) : Prop where
  longNotional : d.firmRisk.longNotional = ∑ i, (d.position i).longPart
  shortNotional : d.firmRisk.shortNotional = ∑ i, (d.position i).shortPart
  unrealized :
    d.firmRisk.totalUnrealized = ∑ i, (d.position i).unrealizedPnl
  marked : ∀ i, (d.position i).Marked

variable [DecidableEq ι]

/-- Replacing a position keeps the relations exactly if the firm totals
move by the change of its shares and it is marked. -/
theorem Consistent.put_iff {d : Desk ι} (h : Consistent d) (esi : ι)
    (frc : FirmRiskCheck ι) (pos : Position) :
    Consistent (d.put esi (frc, pos))
      ↔ frc.longNotional = d.firmRisk.longNotional
            + (pos.longPart - (d.position esi).longPart)
        ∧ frc.shortNotional = d.firmRisk.shortNotional
            + (pos.shortPart - (d.position esi).shortPart)
        ∧ frc.totalUnrealized = d.firmRisk.totalUnrealized
            + (pos.unrealizedPnl - (d.position esi).unrealizedPnl)
        ∧ pos.Marked := by
  have hlong := Lib.sum_update d.position esi pos Position.longPart
  have hshort := Lib.sum_update d.position esi pos Position.shortPart
  have hpnl := Lib.sum_update d.position esi pos Position.unrealizedPnl
  rw [← h.longNotional] at hlong
  rw [← h.shortNotional] at hshort
  rw [← h.unrealized] at hpnl
  constructor
  · intro hput
    refine ⟨hput.longNotional.trans hlong, hput.shortNotional.trans hshort,
      hput.unrealized.trans hpnl, ?_⟩
    have hmarked := hput.marked esi
    rw [Desk.put_position_self] at hmarked
    exact hmarked
  · intro hall
    obtain ⟨hln, hsn, htu, hmarked⟩ := hall
    refine ⟨hln.trans hlong.symm, hsn.trans hshort.symm,
      htu.trans hpnl.symm, fun i => ?_⟩
    by_cases hi : i = esi
    · rw [hi, Desk.put_position_self]
      exact hmarked
    · rw [Desk.put_position_of_ne d hi]
      exact h.marked i

/-- Every operation of the firm check keeps the relations. -/
theorem consistent_step (d : Desk ι) (e : RiskOp ι) (h : Consistent d) :
    Consistent (d.step e) := by
  have hmoved := sharesMoved_step d e
  generalize d.step e = d' at hmoved ⊢
  cases hmoved with
  | same frc hln hsn htr htu =>
      exact ⟨hln.trans h.longNotional, hsn.trans h.shortNotional,
        htu.trans h.unrealized, h.marked⟩
  | put esi frc pos hmarked hln hsn htr htu =>
      rw [FirmRiskCheck.movePnl_eq] at hln hsn htu
      exact (h.put_iff esi frc pos).mpr
        ⟨hln, hsn, htu, hmarked (h.marked esi)⟩

-- ============================================================ adjustment

/-- The two shares are the notional, split by its sign. -/
theorem Position.longPart_add_shortPart (pos : Position) :
    pos.longPart + pos.shortPart = pos.mark * pos.tradingQuantity := by
  unfold longPart shortPart notional
  by_cases hlong : pos.tradingQuantity > 0
  · have hshort : ¬ pos.tradingQuantity < 0 := by omega
    rw [if_pos hlong, if_neg hshort, add_zero]
  · rw [if_neg hlong, zero_add]
    by_cases hshort : pos.tradingQuantity < 0
    · rw [if_pos hshort]
    · have hflat : pos.tradingQuantity = 0 := by omega
      rw [if_neg hshort, hflat, Int.cast_zero, mul_zero]

theorem Position.parts_of_mark_zero {pos : Position} (h : pos.mark = 0) :
    pos.longPart = 0 ∧ pos.shortPart = 0 := by
  unfold longPart shortPart notional
  rw [h, zero_mul]
  exact ⟨ite_self 0, ite_self 0⟩

/-- The shares of a marked position adjusted by hand stay what they were
exactly if the quantity does, or nothing is priced. -/
theorem Position.adjusted_iff {pos : Position} (hmarked : pos.Marked)
    (ds dt : Int) :
    let pos' := { pos with
      startQuantity := pos.startQuantity + ds
      tradingQuantity := pos.tradingQuantity + dt }
    (pos'.longPart = pos.longPart ∧ pos'.shortPart = pos.shortPart
        ∧ pos'.Marked)
      ↔ dt = 0 ∨ (pos.mark = 0 ∧ pos.vwap = 0) := by
  intro pos'
  constructor
  · intro hkept
    obtain ⟨hlong, hshort, hmarked'⟩ := hkept
    by_cases hdt : dt = 0
    · exact .inl hdt
    · have hne : (dt : Rat) ≠ 0 := by exact_mod_cast hdt
      have hsum : pos.mark * ((pos.tradingQuantity + dt : Int) : Rat)
          = pos.mark * pos.tradingQuantity := by
        rw [← pos.longPart_add_shortPart, ← hlong, ← hshort]
        exact pos'.longPart_add_shortPart.symm
      have hpnl : (pos.mark - pos.vwap)
            * ((pos.tradingQuantity + dt : Int) : Rat)
          = (pos.mark - pos.vwap) * pos.tradingQuantity :=
        hmarked'.symm.trans hmarked
      push_cast at hsum hpnl
      have hmark : pos.mark = 0 := by
        have hprod : pos.mark * (dt : Rat) = 0 := by linarith
        exact (mul_eq_zero.mp hprod).resolve_right hne
      have hvwap : pos.mark - pos.vwap = 0 := by
        have hprod : (pos.mark - pos.vwap) * (dt : Rat) = 0 := by linarith
        exact (mul_eq_zero.mp hprod).resolve_right hne
      exact .inr ⟨hmark, by linarith⟩
  · intro hcase
    cases hcase with
    | inl hdt =>
        have hsame : pos' = { pos with
            startQuantity := pos.startQuantity + ds } := by
          simp [pos', hdt]
        rw [hsame]
        exact ⟨rfl, rfl, hmarked⟩
    | inr hzero =>
        obtain ⟨hl, hs⟩ := Position.parts_of_mark_zero hzero.1
        have hzero' : pos'.mark = 0 := hzero.1
        obtain ⟨hl', hs'⟩ := Position.parts_of_mark_zero hzero'
        refine ⟨hl'.trans hl.symm, hs'.trans hs.symm, ?_⟩
        have hpnl : pos.unrealized = 0 := by
          rw [hmarked, hzero.1, hzero.2, sub_zero, zero_mul]
        show pos.unrealized = (pos.mark - pos.vwap) * _
        rw [hpnl, hzero.1, hzero.2, sub_zero, zero_mul]

/-- Whatever fills and last sales come after it, a manual adjustment keeps
the firm totals the sums over the positions exactly if it leaves the
trading quantity alone or the position has neither mark nor average price
yet. -/
theorem manual_adj_consistent_iff (om : OrderManager ω ι)
    (h : Consistent om.desk) (esi : Option ι) (ds dt : Int) :
    (∀ es, Lib.Admits Desk.step (fun _ e => e.FillSized)
          (om.manualPositionAdj esi ds dt).desk es →
        Consistent (Lib.run Desk.step
          (om.manualPositionAdj esi ds dt).desk es))
    ↔ ∀ i ∈ esi, dt = 0 ∨ ((om.desk.position i).mark = 0
        ∧ (om.desk.position i).vwap = 0) := by
  have hrun : (∀ es, Lib.Admits Desk.step (fun _ e => e.FillSized)
          (om.manualPositionAdj esi ds dt).desk es →
        Consistent (Lib.run Desk.step
          (om.manualPositionAdj esi ds dt).desk es))
      ↔ Consistent (om.manualPositionAdj esi ds dt).desk := by
    constructor
    · intro hall
      exact hall [] True.intro
    · intro hadj es hes
      exact Lib.run_invariant (fun d e h _ => consistent_step d e h) hadj
        hes
  rw [hrun]
  cases esi with
  | none =>
      constructor
      · intro _ i hi
        cases hi
      · intro _
        exact h
  | some esi =>
      have hput : Consistent (om.manualPositionAdj (some esi) ds dt).desk
          ↔ _ := h.put_iff esi om.desk.firmRisk
        { om.desk.position esi with
          startQuantity := (om.desk.position esi).startQuantity + ds
          tradingQuantity := (om.desk.position esi).tradingQuantity + dt }
      have hsame : ∀ {x y z : Rat}, x = x + (y - z) ↔ y = z := by
        intro x y z
        constructor
        · intro heq
          linarith
        · intro heq
          linarith
      have hshares := Position.adjusted_iff (h.marked esi) ds dt
      rw [hput, hsame, hsame]
      constructor
      · intro hall i hi
        cases hi
        exact hshares.mp ⟨hall.1, hall.2.1, hall.2.2.2⟩
      · intro hall
        obtain ⟨hl, hs, hm⟩ := hshares.mpr (hall esi rfl)
        refine ⟨hl, hs, ?_, hm⟩
        show _ = _ + (Position.unrealizedPnl _ - Position.unrealizedPnl _)
        exact (add_eq_left.mpr (sub_self _)).symm

/-- A start-of-day position corrected, then traded and marked. -/
theorem manual_adj_consistent_iff_demo :
    let om : OrderManager Bool Unit := .start (.plain fun _ =>
      .dayLimit () .buy 10 5)
    let buy := Order.create (OrderParams.dayLimit () .buy 10 5)
    Consistent (Lib.run Desk.step (om.manualPositionAdj (some ()) 7 7).desk
      [.orderFill buy 10 5 0, .lastSale () 6]) := by
  intro om buy
  have hstart : Consistent om.desk :=
    ⟨by decide +kernel, by decide +kernel, by decide +kernel,
      by unfold Position.Marked; decide +kernel⟩
  exact (manual_adj_consistent_iff om hstart (some ()) 7 7).mpr
    (by decide +kernel) _
    ⟨Nat.succ_pos 9, True.intro, True.intro⟩

/-- Ten bought at 5, then five more by hand: the firm still counts ten. -/
theorem manual_adj_breaks_totals :
    let c : OrderManagerConf Bool Unit := .plain fun _ =>
      .dayLimit () .buy 10 5
    let es : List (Event Bool) :=
      [.send true [66] .taken, .fill true 10 5 ⟨1, 0⟩ 1 .unknown]
    let t := Lib.run Trading.step (Trading.start c) es
    Lib.Admits Trading.step Trading.Orderly (Trading.start c) es
      ∧ Consistent t.om.desk
      ∧ ¬ Consistent (t.om.manualPositionAdj (some ()) 0 5).desk := by
  intro c es t
  refine ⟨by decide +kernel, ⟨by decide +kernel, by decide +kernel,
    by decide +kernel, ?_⟩, fun h => ?_⟩
  · unfold Position.Marked
    decide +kernel
  · exact absurd h.longNotional (by decide +kernel)

end TradingEngine.OE
