/-
The circuit breakers track the totals: in every state reached from
`init`, each automatic breaker bit is its predicate on the current
totals, and an order passes `new_order` only while both loss breakers
are clear.

# Why no path forgets a bit

A total moves in four functions, and each refreshes only some bits. The
bits left alone by an order's add, remove or fill are those of the other
side, whose total the order does not move (`tripped_moveOpen`); a last
sale moves p&l and notionals only (`tripped_movePnl`).

# Why the cached mode cannot be stale

`mode` recomputes only when dirty. Whatever moves a total marks the mode
dirty, so a clean mode means that no total has moved since `init`
(`Settled`).
-/
import TradingEngine.OE.Desk

namespace TradingEngine.OE

variable {ι : Type}

namespace FirmRiskCheck

-- =============================================================== limits

/-- Every limit is above zero, as a usable configuration has them. -/
structure LimitsPositive (frc : FirmRiskCheck ι) : Prop where
  realizedLoss : 0 < frc.mRealizedLossLimit
  unrealizedLoss : 0 < frc.mUnrealizedLossLimit
  grossNotional : 0 < frc.mGrossNotionalLimit
  netNotional : 0 < frc.mNetNotionalLimit
  longOpenExposure : 0 < frc.mLongOpenExposureLimit
  shortOpenExposure : 0 < frc.mShortOpenExposureLimit
  grossOpenExposure : 0 < frc.mGrossOpenExposureLimit

/-- One limit for all. -/
theorem limitsPositive_uniform {l : Rat} (h : 0 < l) :
    (uniform l : FirmRiskCheck ι).LimitsPositive :=
  ⟨h, h, h, h, h, h, h⟩

-- ============================================================ the tracking

/-- Every automatic bit is its predicate. -/
def Tracks (frc : FirmRiskCheck ι) : Prop :=
  ∀ b, b ≠ .userDisable → frc.breakers b = frc.tripped b

/-- With zero totals and positive limits no predicate holds. -/
theorem Blank.tracks {frc : FirmRiskCheck ι} (h : frc.Blank)
    (hpos : frc.LimitsPositive) : frc.Tracks := by
  intro b hb
  rw [h.bits b]
  symm
  have hgn : frc.grossNotional = 0 := by
    unfold grossNotional
    rw [h.longNotional, h.shortNotional, sub_zero]
  have hnn : frc.absNetNotional = 0 := by
    have hn : frc.netNotional = 0 := by
      unfold netNotional
      rw [h.longNotional, h.shortNotional, add_zero]
    unfold absNetNotional
    rw [hn, neg_zero, ite_self]
  have hgo : frc.grossOpenExposure = 0 := by
    unfold grossOpenExposure
    rw [h.longOpen, h.shortOpen, sub_zero]
  cases b with
  | realizedLoss =>
      refine decide_eq_false (not_le.mpr ?_)
      rw [h.realized]
      exact neg_lt_zero.mpr hpos.realizedLoss
  | unrealizedLoss =>
      refine decide_eq_false (not_le.mpr ?_)
      rw [h.unrealized]
      exact neg_lt_zero.mpr hpos.unrealizedLoss
  | grossNotional =>
      refine decide_eq_false (not_le.mpr ?_)
      rw [hgn]
      exact hpos.grossNotional
  | netNotional =>
      refine decide_eq_false (not_le.mpr ?_)
      rw [hnn]
      exact hpos.netNotional
  | longOpen =>
      refine decide_eq_false (not_le.mpr ?_)
      rw [h.longOpen]
      exact hpos.longOpenExposure
  | shortOpen =>
      refine decide_eq_false (not_le.mpr ?_)
      rw [h.shortOpen]
      exact neg_lt_zero.mpr hpos.shortOpenExposure
  | grossOpen =>
      refine decide_eq_false (not_le.mpr ?_)
      rw [hgo]
      exact hpos.grossOpenExposure
  | userDisable => exact absurd rfl hb

/-- An open-exposure move leaves the predicates of the unwatched bits
alone. -/
theorem tripped_moveOpen (frc : FirmRiskCheck ι) (s : Side) (amount : Rat)
    {b : Breaker} (hb : openBits s b = false) :
    (frc.moveOpen s amount).tripped b = frc.tripped b := by
  unfold moveOpen
  by_cases hs : s = .buy
  · subst hs
    rw [if_pos rfl]
    cases b with
    | longOpen => cases hb
    | grossOpen => cases hb
    | _ => rfl
  · rw [if_neg hs]
    cases b with
    | shortOpen => exact absurd (bne_eq_false_iff_eq.mp hb) hs
    | grossOpen => cases hb
    | _ => rfl

/-- A change of profit and loss trips none but the breakers that look at it. -/
theorem tripped_movePnl (frc : FirmRiskCheck ι) (pos pos' : Position)
    {b : Breaker} (hn : notionalBits b = false) (hp : pnlBits b = false) :
    (frc.movePnl pos pos').tripped b = frc.tripped b := by
  rw [movePnl_eq]
  cases b with
  | realizedLoss => cases hp
  | unrealizedLoss => cases hp
  | grossNotional => cases hn
  | netNotional => cases hn
  | _ => rfl

/-- It sets none itself. -/
@[simp] theorem breakers_movePnl (frc : FirmRiskCheck ι)
    (pos pos' : Position) :
    (frc.movePnl pos pos').breakers = frc.breakers := by
  rw [movePnl_eq]

/-- Nor does a move. -/
@[simp] theorem breakers_moveOpen (frc : FirmRiskCheck ι) (s : Side)
    (amount : Rat) : (frc.moveOpen s amount).breakers = frc.breakers := by
  unfold moveOpen
  split <;> rfl

/-- A refresh restores the tracking as soon as the unwatched bits were
in line. -/
theorem tracks_refreshed {frc : FirmRiskCheck ι} {w : Breaker → Bool}
    (h : ∀ b, b ≠ .userDisable → w b = false →
      frc.breakers b = frc.tripped b) : (frc.refreshed w).Tracks := by
  intro b hb
  rw [tripped_refreshed]
  show (if w b then _ else _) = _
  cases hw : w b with
  | true => rfl
  | false => exact h b hb hw

/-- The user's breaker has no total to follow. -/
theorem tracks_setBreaker {frc : FirmRiskCheck ι} (h : frc.Tracks)
    (on : Bool) : (frc.setBreaker .userDisable on).Tracks := by
  intro b hb
  have hbit : (frc.setBreaker .userDisable on).breakers b
      = frc.breakers b := Function.update_of_ne hb ..
  rw [hbit, h b hb]
  cases b <;> rfl

/-- Asking for the mode refreshes what is dirty. -/
theorem tracks_mode {frc : FirmRiskCheck ι} (h : frc.Tracks) :
    frc.mode.Tracks := by
  unfold mode
  split
  · intro b hb
    show frc.breakers b = _
    rw [h b hb]
    cases b <;> rfl
  · exact h

/-- The invariant, over any move of the firm's totals. -/
theorem tracks_move {frc frc' : FirmRiskCheck ι}
    (hmove : FirmMove frc frc') (h : frc.Tracks) : frc'.Tracks := by
  cases hmove with
  | same => exact h
  | mode => exact tracks_mode h
  | opened s amount =>
      refine tracks_refreshed fun b hb hw => ?_
      rw [breakers_moveOpen, tripped_moveOpen _ _ _ hw]
      exact h b hb
  | filled pos pos' s amount =>
      refine tracks_refreshed fun b hb hw => ?_
      unfold fillBits at hw
      simp only [Bool.or_eq_false_iff] at hw
      obtain ⟨⟨ho, hn⟩, hp⟩ := hw
      rw [breakers_moveOpen, breakers_movePnl, tripped_moveOpen _ _ _ ho,
        tripped_movePnl _ _ _ hn hp]
      exact h b hb
  | marked pos pos' =>
      refine tracks_refreshed fun b hb hw => ?_
      simp only [Bool.or_eq_false_iff] at hw
      obtain ⟨hn, hp⟩ := hw
      rw [breakers_movePnl, tripped_movePnl _ _ _ hn hp]
      exact h b hb

-- ================================================================ the mode

/-- A clean mode means that neither loss breaker has been touched. -/
def Settled (frc : FirmRiskCheck ι) : Prop :=
  frc.dirtyMode = false →
    frc.breakers .realizedLoss = false
      ∧ frc.breakers .unrealizedLoss = false

/-- And what is settled stays so. -/
theorem settled_move {frc frc' : FirmRiskCheck ι}
    (hmove : FirmMove frc frc') (h : frc.Settled) : frc'.Settled := by
  intro hclean
  cases hmove with
  | same => exact h hclean
  | mode =>
      unfold mode at hclean ⊢
      split at hclean
      case isTrue hdirty =>
        rw [hdirty] at hclean
        cases hclean
      case isFalse hdirty =>
        rw [if_neg hdirty]
        exact h hclean
  | opened s amount => cases hclean
  | filled pos pos' s amount => cases hclean
  | marked pos pos' => cases hclean

/-- The refreshed mode lets nothing through while a loss bit is set. -/
theorem newOrder_loss_bits {frc : FirmRiskCheck ι} (hset : frc.Settled)
    {pos : Position} {op : Order ι} (h : (frc.newOrder pos op).1 = true) :
    frc.breakers .realizedLoss = false
      ∧ frc.breakers .unrealizedLoss = false := by
  have hadm : modeAdmits frc.mode.mMode op = true := by
    simp only [newOrder, Bool.and_eq_true] at h
    exact h.1.1.1.1
  cases hdirty : frc.dirtyMode with
  | false => exact hset hdirty
  | true =>
      have hmode : frc.mode.mMode = frc.updateMode := by
        unfold mode
        rw [if_pos hdirty]
      rw [hmode] at hadm
      unfold updateMode at hadm
      split at hadm
      case isTrue => cases hadm
      case isFalse =>
        split at hadm
        case isTrue => cases hadm
        case isFalse hloss =>
          simpa only [Bool.not_eq_true, Bool.or_eq_false_iff] using hloss

end FirmRiskCheck

-- ================================================================== runs

/-- What a run from `init` keeps. -/
def BreakersInv (d : Desk ι) : Prop :=
  d.firmRisk.Tracks ∧ d.firmRisk.Settled

variable [DecidableEq ι]

/-- The step lemma over every operation of the desk. -/
theorem breakersInv_step (d : Desk ι) (e : RiskOp ι) (h : BreakersInv d) :
    BreakersInv (d.step e) := by
  cases he : e.isSwitch with
  | false =>
      have hmove := d.firmMove_step he
      exact ⟨FirmRiskCheck.tracks_move hmove h.1,
        FirmRiskCheck.settled_move hmove h.2⟩
  | true =>
      cases e with
      | userDisable =>
          exact ⟨FirmRiskCheck.tracks_setBreaker h.1 true, h.2⟩
      | userEnable =>
          exact ⟨FirmRiskCheck.tracks_setBreaker h.1 false, h.2⟩
      | userDisableStock esi => exact h
      | userEnableStock esi => exact h
      | _ => cases he

/-- After any operations from `init`, every automatic breaker bit is its
predicate on the current totals, and an order passes `new_order` only
while both losses are inside their limits. -/
theorem breakers_track_totals {cfg : FirmRiskConf} {frc : FirmRiskCheck ι}
    (hinit : FirmRiskCheck.init cfg = .ok frc) (hpos : frc.LimitsPositive)
    (position : ι → Position) (ops : List (RiskOp ι)) :
    let d := Lib.run Desk.step ⟨frc, position⟩ ops
    (∀ b, b ≠ .userDisable →
      d.firmRisk.breakers b = d.firmRisk.tripped b)
    ∧ ∀ op, (d.newOrder op).1 = true →
      d.firmRisk.totalRealized > d.firmRisk.realizedLossLimit
        ∧ d.firmRisk.totalUnrealized > d.firmRisk.unrealizedLossLimit := by
  intro d
  have hblank := FirmRiskCheck.init_blank hinit
  have hinv : BreakersInv d := by
    refine Lib.run_induction breakersInv_step ⟨hblank.tracks hpos, ?_⟩
    intro _
    exact ⟨hblank.bits _, hblank.bits _⟩
  obtain ⟨htracks, hset⟩ := hinv
  refine ⟨htracks, fun op hop => ?_⟩
  obtain ⟨hr, hu⟩ := FirmRiskCheck.newOrder_loss_bits hset hop
  rw [htracks .realizedLoss (by decide)] at hr
  rw [htracks .unrealizedLoss (by decide)] at hu
  exact ⟨not_le.mp (of_decide_eq_false hr),
    not_le.mp (of_decide_eq_false hu)⟩

/-- Limits of 1000 each, one buy of ten at 5 sent and filled: the order
after it passes, and both losses are inside their limits. -/
theorem breakers_track_totals_demo :
    let op := Order.create (OrderParams.dayLimit () .buy 10 5)
    let d := Lib.run Desk.step
      ⟨FirmRiskCheck.uniform 1000, fun _ => Position.create 0 0⟩
      [.orderAdds op 10, .orderFill op 10 5 0, .lastSale () 4]
    (d.newOrder op).1 = true
      ∧ d.firmRisk.totalRealized > d.firmRisk.realizedLossLimit
      ∧ d.firmRisk.totalUnrealized > d.firmRisk.unrealizedLossLimit := by
  intro op d
  have hpass : (d.newOrder op).1 = true := by decide +kernel
  have h := breakers_track_totals (ι := Unit)
    (FirmRiskCheck.init_uniform (l := 1000) (by norm_num) (by norm_num))
    (FirmRiskCheck.limitsPositive_uniform (by norm_num))
    (fun _ => Position.create 0 0)
    [.orderAdds op 10, .orderFill op 10 5 0, .lastSale () 4]
  exact ⟨hpass, h.2 op hpass⟩

end TradingEngine.OE
