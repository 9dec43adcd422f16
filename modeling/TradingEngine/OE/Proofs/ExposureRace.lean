/-
The open-exposure limits, with many threads in `send`.

`new_order` compares the open totals plus the order against the limits in
one critical section, and `on_order_adds` adds the order in another. What
another thread adds in between is in no comparison, so two orders that
fit one by one may pass the check together and then both be added.

# When the limits hold

Everything but `on_order_adds` eases the totals or leaves them
(`OpenRisk.Eases`), and what fits keeps fitting while they ease. Hence the
limits hold after every turn if and only if each order is added in time:
no other order was added since its own check, or there is room for it
still.
-/
import TradingEngine.OE.SendThreads
import TradingEngine.OE.Proofs.Send

namespace TradingEngine.OE

variable {ω ι : Type}

-- ========================================================== what is at risk

/-- The open totals and their limits. -/
structure OpenRisk where
  long : Rat
  short : Rat
  longLimit : Rat
  shortLimit : Rat
  grossLimit : Rat

def FirmRiskCheck.openRisk (frc : FirmRiskCheck ι) : OpenRisk :=
  ⟨frc.longOpenExposure, frc.shortOpenExposure, frc.longOpenExposureLimit,
    frc.shortOpenExposureLimit, frc.grossOpenExposureLimit⟩

namespace OpenRisk

/-- Strictly inside all three limits. -/
structure Inside (r : OpenRisk) : Prop where
  gross : r.long - r.short < r.grossLimit
  long : r.long < r.longLimit
  short : r.shortLimit < r.short

/-- The totals moved on one side. -/
def move (r : OpenRisk) (s : Side) (amount : Rat) : OpenRisk :=
  if s = .buy then { r with long := r.long + amount }
  else { r with short := r.short - amount }

/-- The comparisons of `new_order` with the three limits. -/
def Room (r : OpenRisk) (o : Order ι) : Prop :=
  r.long - r.short + FirmRiskCheck.orderNotional o < r.grossLimit
    ∧ if o.side = .buy then
        r.long + FirmRiskCheck.orderNotional o < r.longLimit
      else r.shortLimit < r.short - FirmRiskCheck.orderNotional o

instance (r : OpenRisk) (o : Order ι) : Decidable (r.Room o) := by
  unfold Room
  infer_instance

/-- The totals are as far from the limits, or farther. -/
structure Eases (r r' : OpenRisk) : Prop where
  long : r'.long ≤ r.long
  short : r.short ≤ r'.short
  longLimit : r'.longLimit = r.longLimit
  shortLimit : r'.shortLimit = r.shortLimit
  grossLimit : r'.grossLimit = r.grossLimit

/-- Nothing moves. -/
theorem Eases.refl (r : OpenRisk) : r.Eases r :=
  ⟨le_refl _, le_refl _, rfl, rfl, rfl⟩

/-- Taking away eases. -/
theorem eases_move (r : OpenRisk) (s : Side) {amount : Rat}
    (h : 0 ≤ amount) : r.Eases (r.move s (-amount)) := by
  unfold move
  split
  · refine ⟨?_, le_refl _, rfl, rfl, rfl⟩
    show r.long + -amount ≤ r.long
    linarith
  · refine ⟨le_refl _, ?_, rfl, rfl, rfl⟩
    show r.short ≤ r.short - -amount
    linarith

/-- Easing stays within the limits. -/
theorem Eases.inside {r r' : OpenRisk} (h : r.Eases r') (hr : r.Inside) :
    r'.Inside := by
  obtain ⟨hl, hs, hll, hsl, hgl⟩ := h
  obtain ⟨hgross, hlong, hshort⟩ := hr
  refine ⟨?_, ?_, ?_⟩
  · rw [hgl]
    linarith
  · rw [hll]
    linarith
  · rw [hsl]
    linarith

/-- And leaves room for what there was room for. -/
theorem Eases.room {r r' : OpenRisk} (h : r.Eases r') {o : Order ι}
    (hr : r.Room o) : r'.Room o := by
  obtain ⟨hl, hs, hll, hsl, hgl⟩ := h
  obtain ⟨hgross, hside⟩ := hr
  unfold Room
  rw [hll, hsl, hgl]
  refine ⟨by linarith, ?_⟩
  by_cases hbuy : o.side = .buy
  · rw [if_pos hbuy] at hside ⊢
    linarith
  · rw [if_neg hbuy] at hside ⊢
    linarith

/-- Adding an order stays inside the limits exactly when there is room. -/
theorem inside_move_iff {r : OpenRisk} (hr : r.Inside) (o : Order ι) :
    (r.move o.side (FirmRiskCheck.orderNotional o)).Inside ↔ r.Room o := by
  obtain ⟨hgross, hlong, hshort⟩ := hr
  unfold move Room
  by_cases hbuy : o.side = .buy
  · rw [if_pos hbuy, if_pos hbuy]
    constructor
    · rintro ⟨hg, hl, -⟩
      exact ⟨by dsimp only at hg; linarith, hl⟩
    · rintro ⟨hg, hl⟩
      exact ⟨by dsimp only; linarith, hl, hshort⟩
  · rw [if_neg hbuy, if_neg hbuy]
    constructor
    · rintro ⟨hg, -, hs⟩
      exact ⟨by dsimp only at hg; linarith, hs⟩
    · rintro ⟨hg, hs⟩
      exact ⟨by dsimp only; linarith, hlong, hs⟩

end OpenRisk

/-- Orders that ask for the same room. -/
structure Order.SameRoom (o o' : Order ι) : Prop where
  price : o'.price = o.price
  size : o'.size = o.size
  buy : o'.side = .buy ↔ o.side = .buy

/-- An order that is not touched. -/
theorem Order.SameRoom.refl (o : Order ι) : o.SameRoom o :=
  ⟨rfl, rfl, Iff.rfl⟩

/-- Room for one is room for the other. -/
theorem Order.SameRoom.room {o o' : Order ι} (h : o.SameRoom o')
    {r : OpenRisk} (hr : r.Room o) : r.Room o' := by
  unfold OpenRisk.Room FirmRiskCheck.orderNotional at hr ⊢
  simp only [h.price, h.size, h.buy]
  exact hr

-- ==================================================== the desk's totals

namespace FirmRiskCheck

/-- Breakers are not what is open. -/
theorem openRisk_refreshed (frc : FirmRiskCheck ι) (w : Breaker → Bool) :
    (frc.refreshed w).openRisk = frc.openRisk := rfl

/-- Nor is the mode. -/
theorem openRisk_mode (frc : FirmRiskCheck ι) :
    frc.mode.openRisk = frc.openRisk := by
  rw [mode_eq]
  rfl

/-- A move goes to its side. -/
theorem openRisk_moveOpen (frc : FirmRiskCheck ι) (s : Side)
    (amount : Rat) :
    (frc.moveOpen s amount).openRisk = frc.openRisk.move s amount := by
  unfold moveOpen OpenRisk.move
  split <;> rfl

/-- Profit and loss is not open. -/
theorem openRisk_movePnl (frc : FirmRiskCheck ι) (pos pos' : Position) :
    (frc.movePnl pos pos').openRisk = frc.openRisk := by
  rw [movePnl_eq]
  rfl

/-- An order that passes found room. -/
theorem room_of_newOrder {frc : FirmRiskCheck ι} {pos : Position}
    {op : Order ι} (h : (frc.newOrder pos op).1 = true) :
    frc.openRisk.Room op := by
  rw [← frc.openRisk_mode]
  unfold newOrder at h
  simp only [Bool.and_eq_true] at h
  have hlimits := h.2
  unfold limitsAdmit at hlimits
  simp only [Bool.and_eq_true, decide_eq_true_eq] at hlimits
  obtain ⟨⟨-, hgross⟩, hside⟩ := hlimits
  refine ⟨hgross, ?_⟩
  by_cases hbuy : op.side = .buy
  · rw [if_pos hbuy] at hside ⊢
    simp only [Bool.and_eq_true, decide_eq_true_eq] at hside
    exact hside.2
  · rw [if_neg hbuy] at hside ⊢
    simp only [Bool.and_eq_true, decide_eq_true_eq] at hside
    exact hside.2

end FirmRiskCheck

namespace Desk

variable [DecidableEq ι] (d : Desk ι) (op : Order ι) (n : Nat)

/-- The open totals the desk keeps. -/
def openRisk (d : Desk ι) : OpenRisk := d.firmRisk.openRisk

/-- An order that is added. -/
theorem openRisk_onOrderAdds :
    (d.onOrderAdds op n).openRisk
      = d.openRisk.move op.side (n * op.price) := by
  unfold openRisk onOrderAdds
  rw [put_firmRisk, FirmRiskCheck.unsafeOnOrderAdds_eq,
    FirmRiskCheck.openRisk_refreshed, FirmRiskCheck.openRisk_moveOpen]

/-- An order that is removed. -/
theorem openRisk_onOrderRemoves :
    (d.onOrderRemoves op n).openRisk
      = d.openRisk.move op.side (-(n * op.price)) := by
  unfold openRisk onOrderRemoves
  rw [put_firmRisk, FirmRiskCheck.unsafeOnOrderRemoves_eq,
    FirmRiskCheck.openRisk_refreshed, FirmRiskCheck.openRisk_moveOpen]

/-- An order that is filled, at its own price. -/
theorem openRisk_onOrderFill (price fee : Rat) :
    (d.onOrderFill op n price fee).openRisk
      = d.openRisk.move op.side (-(n * op.price)) := by
  unfold openRisk onOrderFill
  rw [put_firmRisk, FirmRiskCheck.unsafeOnOrderFill_eq,
    FirmRiskCheck.openRisk_refreshed, FirmRiskCheck.openRisk_moveOpen,
    FirmRiskCheck.openRisk_movePnl]

end Desk

-- ============================================================ the stages

/-- Past `validate_base`, which asks for a positive price. -/
def SendStage.validated : SendStage → Bool
  | .idle | .validate | .localReject | .done false => false
  | _ => true

/-- Between the check and the addition. -/
def SendStage.between : SendStage → Bool
  | .instrumentCheck | .addOpen => true
  | _ => false

-- ============================================================ one report

variable [DecidableEq ω] [DecidableEq ι]

namespace SendThreads

/-- A report writes its order, which goes on asking for the same room, and
eases the totals or leaves them. -/
theorem report_spec {om : OrderManager ω ι} {e : Event ω} {w : ω}
    (he : reported e = some w) (hprice : 0 ≤ (om.order w).price) :
    (∃ o, (report om e).order = Function.update om.order w o
      ∧ (om.order w).SameRoom o)
    ∧ om.desk.openRisk.Eases (report om e).desk.openRisk := by
  have hsame : ∀ o : Order ι, o.SameRoom o := Order.SameRoom.refl
  have hamount : ∀ n : Nat, 0 ≤ (n : Rat) * (om.order w).price := fun n =>
    mul_nonneg (Nat.cast_nonneg n) hprice
  cases e with
  | send v session a => cases he
  | destroy v onlyIfTerminal sessionDestroys => cases he
  | cancel v newqty a =>
      obtain rfl := Option.some.inj he
      show (∃ o, (om.cancel v newqty a).2.order = _ ∧ _)
        ∧ OpenRisk.Eases _ (om.cancel v newqty a).2.desk.openRisk
      rcases om.cancel_cases v newqty a with heq | ⟨-, -, heq⟩
      · rw [heq]
        exact ⟨⟨_, (Function.update_eq_self ..).symm, hsame _⟩, .refl _⟩
      · rw [heq]
        exact ⟨⟨_, rfl, rfl, rfl, Iff.rfl⟩, .refl _⟩
  | acknowledged v exchangeID size ts exts =>
      obtain rfl := Option.some.inj he
      exact ⟨⟨_, rfl, rfl, rfl, Iff.rfl⟩, .refl _⟩
  | rejected v ts exts =>
      obtain rfl := Option.some.inj he
      refine ⟨⟨_, rfl, rfl, rfl, Iff.rfl⟩, ?_⟩
      show OpenRisk.Eases _ (om.desk.onOrderRemoves _ _).openRisk
      rw [Desk.openRisk_onOrderRemoves]
      exact OpenRisk.eases_move _ _ (hamount _)
  | fill v size price ts exts feeCode =>
      obtain rfl := Option.some.inj he
      refine ⟨⟨_, rfl, rfl, rfl, Iff.rfl⟩, ?_⟩
      show OpenRisk.Eases _ (Desk.onOrderFill _ _ _ _ _).openRisk
      rw [Desk.openRisk_onOrderFill]
      exact OpenRisk.eases_move _ _ (hamount _)
  | cancelled v size ts exts =>
      obtain rfl := Option.some.inj he
      refine ⟨⟨orderUpdateOnCancel (om.order v) size ts exts, rfl, ?_⟩, ?_⟩
      · rw [orderUpdateOnCancel_eq]
        exact ⟨rfl, rfl, Iff.rfl⟩
      · show OpenRisk.Eases _ (Desk.onOrderRemoves _ _ _).openRisk
        rw [Desk.openRisk_onOrderRemoves, orderUpdateOnCancel_eq]
        exact OpenRisk.eases_move _ _ (hamount _)
  | cancelRejected v ts exts =>
      obtain rfl := Option.some.inj he
      exact ⟨⟨_, rfl, rfl, rfl, Iff.rfl⟩, .refl _⟩

-- ============================================================ the invariant

structure RaceInv (t : SendThreads ω ι) : Prop where
  inside : t.om.desk.openRisk.Inside
  priced : ∀ w, (t.stage w).validated = true → 0 ≤ (t.om.order w).price
  /-- A thread that nobody came between has room for its order. -/
  room : ∀ w, (t.stage w).between = true →
    t.checked w ≤ t.adds
    ∧ (t.checked w = t.adds → t.om.desk.openRisk.Room (t.om.order w))

omit [DecidableEq ι] in
/-- A turn that adds nothing and writes one order. -/
theorem RaceInv.next {t t' : SendThreads ω ι} (h : RaceInv t) {w : ω}
    {o : Order ι}
    (horder : t'.om.order = Function.update t.om.order w o)
    (hsame : (t.om.order w).SameRoom o)
    (heases : t.om.desk.openRisk.Eases t'.om.desk.openRisk)
    (hadds : t'.adds = t.adds)
    (hchecked : ∀ v, v ≠ w → t'.checked v = t.checked v)
    (hstage : ∀ v, v ≠ w → t'.stage v = t.stage v)
    (hpriced : (t'.stage w).validated = true → 0 ≤ (t.om.order w).price)
    (hroom : (t'.stage w).between = true →
      t'.checked w ≤ t.adds
      ∧ (t'.checked w = t.adds → t.om.desk.openRisk.Room (t.om.order w))) :
    RaceInv t' := by
  refine ⟨heases.inside h.inside, fun v hv => ?_, fun v hv => ?_⟩
  · rw [horder]
    by_cases hne : v = w
    · subst hne
      rw [Function.update_self, hsame.price]
      exact hpriced hv
    · rw [Function.update_of_ne hne]
      rw [hstage v hne] at hv
      exact h.priced v hv
  · rw [hadds, horder]
    by_cases hne : v = w
    · subst hne
      obtain ⟨hle, hfits⟩ := hroom hv
      rw [Function.update_self]
      exact ⟨hle, fun hnow => heases.room (hsame.room (hfits hnow))⟩
    · rw [Function.update_of_ne hne, hchecked v hne]
      rw [hstage v hne] at hv
      obtain ⟨hle, hfits⟩ := h.room v hv
      exact ⟨hle, fun hnow => heases.room (hfits hnow)⟩

/-- The order is added in time. -/
def InTime (t : SendThreads ω ι) : Turn ω → Prop
  | .send w => t.stage w = .addOpen →
      t.checked w = t.adds ∨ t.om.desk.openRisk.Room (t.om.order w)
  | .report _ => True

end SendThreads

-- ================================================================ one turn

namespace SendThreads

variable {calls : ω → SendCall} {t : SendThreads ω ι}

omit [DecidableEq ι] in
/-- A thread leaves a section that added nothing. -/
theorem RaceInv.goto (h : RaceInv t) {w : ω} {s : SendStage}
    {om : OrderManager ω ι} {o : Order ι}
    (horder : om.order = Function.update t.om.order w o)
    (hsame : (t.om.order w).SameRoom o)
    (heases : t.om.desk.openRisk.Eases om.desk.openRisk)
    (hvalidated : s.validated = true → 0 ≤ (t.om.order w).price)
    (hbetween : s.between = true →
      t.checked w ≤ t.adds
      ∧ (t.checked w = t.adds → t.om.desk.openRisk.Room (t.om.order w))) :
    RaceInv (t.goto w s om) := by
  have hself : (t.goto w s om).stage w = s := Function.update_self ..
  refine h.next horder hsame heases rfl (fun _ _ => rfl)
    (fun v hv => Function.update_of_ne hv ..) ?_ ?_
  · rw [hself]
    exact hvalidated
  · rw [hself]
    exact hbetween

omit [DecidableEq ι] in
/-- A thread outside the window notes the number of additions. -/
theorem RaceInv.recheck (h : RaceInv t) {w : ω}
    (hout : (t.stage w).between = false) :
    RaceInv { t with checked := Function.update t.checked w t.adds } := by
  refine ⟨h.inside, h.priced, fun v hv => ?_⟩
  have hne : v ≠ w := by
    rintro rfl
    rw [hout] at hv
    cases hv
  show Function.update t.checked w t.adds v ≤ t.adds
    ∧ (Function.update t.checked w t.adds v = t.adds → _)
  rw [Function.update_of_ne hne]
  exact h.room v hv

/-- The turns of one thread that add nothing. -/
theorem raceInv_advance (h : RaceInv t) {w : ω}
    (hstage : t.stage w ≠ .addOpen) : RaceInv (t.advance calls w) := by
  have hself : t.om.order = Function.update t.om.order w (t.om.order w) :=
    (Function.update_eq_self ..).symm
  have hrefl := Order.SameRoom.refl (t.om.order w)
  have hold : (t.stage w).validated = true → 0 ≤ (t.om.order w).price :=
    h.priced w
  have hstay := h.room w
  unfold advance
  cases hs : t.stage w with
  | idle =>
      exact h.goto rfl ⟨rfl, rfl, Iff.rfl⟩ (.refl _) (fun hn => by cases hn)
        (fun hn => by cases hn)
  | validate =>
      dsimp only
      cases hv : t.om.validates w (calls w).answer with
      | true =>
          unfold OrderManager.validates at hv
          rw [Bool.and_eq_true] at hv
          obtain ⟨-, hprice, -⟩ := Order.validateBase_spec hv.1
          exact h.goto hself hrefl (.refl _) (fun _ => le_of_lt hprice)
            (fun hn => by cases hn)
      | false =>
          exact h.goto hself hrefl (.refl _) (fun hn => by cases hn)
            (fun hn => by cases hn)
  | riskCheck =>
      dsimp only
      have heases : t.om.desk.openRisk.Eases
          (t.om.riskCheck w).2.desk.openRisk := by
        show OpenRisk.Eases _ t.om.desk.firmRisk.mode.openRisk
        rw [FirmRiskCheck.openRisk_mode]
        exact .refl _
      rw [hs] at hold
      have h' : RaceInv { t with
          checked := Function.update t.checked w t.adds } :=
        h.recheck (by rw [hs]; rfl)
      cases hr : (t.om.riskCheck w).1 with
      | true =>
          refine h'.goto (s := .instrumentCheck) hself hrefl heases
            (fun _ => hold rfl) (fun _ => ?_)
          show Function.update t.checked w t.adds w ≤ t.adds ∧ _
          rw [Function.update_self]
          unfold OrderManager.riskCheck at hr
          simp only [Bool.and_eq_true] at hr
          exact ⟨le_refl _, fun _ =>
            FirmRiskCheck.room_of_newOrder hr.1.1⟩
      | false =>
          exact h'.goto (s := .localReject) hself hrefl heases
            (fun hn => by cases hn) (fun hn => by cases hn)
  | instrumentCheck =>
      dsimp only
      obtain ⟨side, hside, horder, -⟩ := t.om.instrumentCheck_spec w
      rw [hs] at hold hstay
      cases hr : (t.om.instrumentCheck w).1 with
      | true =>
          exact h.goto (s := .addOpen) horder ⟨rfl, rfl, hside.buy⟩
            (.refl _) (fun _ => hold rfl) (fun _ => hstay rfl)
      | false =>
          exact h.goto (s := .localReject) horder ⟨rfl, rfl, hside.buy⟩
            (.refl _) (fun hn => by cases hn) (fun hn => by cases hn)
  | addOpen => exact absurd hs hstage
  | sessionSend =>
      dsimp only
      rw [hs] at hold
      cases (calls w).answer.sent with
      | true =>
          exact h.goto (s := .markSent) rfl ⟨rfl, rfl, Iff.rfl⟩ (.refl _)
            (fun _ => hold rfl) (fun hn => by cases hn)
      | false =>
          exact h.goto (s := .removeOpen) rfl ⟨rfl, rfl, Iff.rfl⟩ (.refl _)
            (fun _ => hold rfl) (fun hn => by cases hn)
  | markSent =>
      rw [hs] at hold
      have hgoto : RaceInv (t.goto w (.done true) (t.om.markSent w)) :=
        h.goto rfl ⟨rfl, rfl, Iff.rfl⟩ (.refl _) (fun _ => hold rfl)
          (fun hn => by cases hn)
      obtain ⟨hin, hpriced, hroom⟩ := hgoto
      exact ⟨hin, hpriced, hroom⟩
  | removeOpen =>
      rw [hs] at hold
      refine h.goto hself hrefl ?_ (fun hn => by cases hn)
        (fun hn => by cases hn)
      show OpenRisk.Eases _ (t.om.desk.onOrderRemoves _ _).openRisk
      rw [Desk.openRisk_onOrderRemoves]
      exact OpenRisk.eases_move _ _
        (mul_nonneg (Nat.cast_nonneg _) (hold rfl))
  | localReject =>
      exact h.goto rfl ⟨rfl, rfl, Iff.rfl⟩ (.refl _)
        (fun hn => by cases hn) (fun hn => by cases hn)
  | done r => exact h

/-- The turn that adds. -/
theorem openRisk_addOpen {w : ω} (hstage : t.stage w = .addOpen) :
    (t.advance calls w).om.desk.openRisk
      = t.om.desk.openRisk.move (t.om.order w).side
          (FirmRiskCheck.orderNotional (t.om.order w)) := by
  unfold advance
  rw [hstage]
  show (t.om.desk.onOrderAdds _ _).openRisk = _
  rw [Desk.openRisk_onOrderAdds]
  rfl

/-- A turn ends inside the limits exactly when nothing is added out of
time. -/
theorem inside_turn_iff (h : RaceInv t) {e : Turn ω} (hok : t.Locks e) :
    (t.turn calls e).om.desk.openRisk.Inside ↔ t.InTime e := by
  cases e with
  | send w =>
      show (t.advance calls w).om.desk.openRisk.Inside ↔ _
      by_cases hstage : t.stage w = .addOpen
      · rw [openRisk_addOpen hstage, OpenRisk.inside_move_iff h.inside]
        constructor
        · exact fun hroom _ => .inr hroom
        · intro htime
          rcases htime hstage with hnow | hroom
          · exact (h.room w (by rw [hstage]; rfl)).2 hnow
          · exact hroom
      · exact iff_of_true (raceInv_advance h hstage).inside
          fun hn => absurd hn hstage
  | report e =>
      refine iff_of_true ?_ trivial
      unfold Locks at hok
      cases hw : reported e with
      | none => simp [hw] at hok
      | some w =>
          simp only [hw] at hok
          have hprice := h.priced w (by rw [hok.1]; rfl)
          exact (report_spec hw hprice).2.inside h.inside

/-- Turns in time keep the invariant. -/
theorem raceInv_turn (h : RaceInv t) {e : Turn ω} (hok : t.Locks e)
    (htime : t.InTime e) : RaceInv (t.turn calls e) := by
  have hin : (t.turn calls e).om.desk.openRisk.Inside :=
    (inside_turn_iff h hok).mpr htime
  cases e with
  | send w =>
      by_cases hstage : t.stage w = .addOpen
      · -- whoever is between the check and the addition was come between
        have hadvance : t.turn calls (.send w)
            = { t.goto w .sessionSend
                  (t.om.addOpen w (calls w).session) with
                adds := t.adds + 1 } := by
          show t.advance calls w = _
          unfold advance
          rw [hstage]
        rw [hadvance] at hin ⊢
        have hother : ∀ v, v ≠ w → Function.update t.stage w
            .sessionSend v = t.stage v := fun v hv =>
          Function.update_of_ne hv ..
        refine ⟨hin, fun v hv => ?_, fun v hv => ?_⟩
        · show 0 ≤ (Function.update t.om.order w _ v).price
          by_cases hne : v = w
          · subst hne
            rw [Function.update_self]
            exact h.priced v (by rw [hstage]; rfl)
          · rw [Function.update_of_ne hne]
            refine h.priced v ?_
            rw [← hother v hne]
            exact hv
        · have hne : v ≠ w := by
            rintro rfl
            have hv : (Function.update t.stage v SendStage.sessionSend
              v).between = true := hv
            rw [Function.update_self] at hv
            cases hv
          obtain ⟨hle, -⟩ := h.room v (by rw [← hother v hne]; exact hv)
          show t.checked v ≤ t.adds + 1 ∧ (t.checked v = t.adds + 1 → _)
          exact ⟨by omega, fun he => by omega⟩
      · exact raceInv_advance h hstage
  | report e =>
      unfold Locks at hok
      cases hw : reported e with
      | none => simp [hw] at hok
      | some w =>
          simp only [hw] at hok
          have hprice := h.priced w (by rw [hok.1]; rfl)
          obtain ⟨⟨o, horder, hsame⟩, heases⟩ := report_spec hw hprice
          refine h.next horder hsame heases rfl (fun _ _ => rfl)
            (fun _ _ => rfl) (fun _ => hprice) fun hn => ?_
          have hn : (t.stage w).between = true := hn
          rw [hok.1] at hn
          cases hn

end SendThreads

-- ================================================================= result

/-- All three open exposures strictly inside their limits. -/
def FirmRiskCheck.WithinOpenLimits (frc : FirmRiskCheck ι) : Prop :=
  frc.grossOpenExposure < frc.grossOpenExposureLimit
    ∧ frc.longOpenExposure < frc.longOpenExposureLimit
    ∧ frc.shortOpenExposureLimit < frc.shortOpenExposure

instance (frc : FirmRiskCheck ι) : Decidable frc.WithinOpenLimits :=
  inferInstanceAs (Decidable (_ ∧ _ ∧ _))

omit [DecidableEq ι] in
theorem FirmRiskCheck.withinOpenLimits_iff (frc : FirmRiskCheck ι) :
    frc.WithinOpenLimits ↔ frc.openRisk.Inside :=
  ⟨fun ⟨hg, hl, hs⟩ => ⟨hg, hl, hs⟩, fun ⟨hg, hl, hs⟩ => ⟨hg, hl, hs⟩⟩

namespace SendThreads

/-- No thread is in `send`, and what was sent had a positive price, as
`validate_base` asks. -/
structure Resting (t : SendThreads ω ι) : Prop where
  stage : ∀ w, t.stage w = .idle ∨ ∃ r, t.stage w = .done r
  priced : ∀ w, t.stage w = .done true → 0 < (t.om.order w).price

instance (t : SendThreads ω ι) : (e : Turn ω) → Decidable (t.InTime e)
  | .send .. | .report .. => by
      unfold InTime
      infer_instance

/-- From any resting state inside the limits, and for any order of turns
the locks allow: the open exposures are inside their limits after every
turn if and only if every order that is added is added in time. -/
theorem open_limits_hold_iff (calls : ω → SendCall)
    (t : SendThreads ω ι) (hrest : t.Resting)
    (hin : t.om.desk.firmRisk.WithinOpenLimits) (turns : List (Turn ω))
    (hturns : Lib.Admits (turn calls) Locks t turns) :
    Lib.Admits (turn calls)
        (fun t e => (t.turn calls e).om.desk.firmRisk.WithinOpenLimits) t
        turns
      ↔ Lib.Admits (turn calls) InTime t turns := by
  refine Lib.admits_iff_of_step (I := RaceInv) (fun t e h hok => ?_)
    (fun t e h hok htime => raceInv_turn h hok htime) ?_ hturns
  · rw [FirmRiskCheck.withinOpenLimits_iff]
    exact inside_turn_iff h hok
  · refine ⟨(FirmRiskCheck.withinOpenLimits_iff _).mp hin, fun w hw => ?_,
      fun w hw => ?_⟩
    · rcases hrest.stage w with hs | ⟨r, hs⟩
      · rw [hs] at hw
        cases hw
      · cases r with
        | true => exact le_of_lt (hrest.priced w hs)
        | false =>
            rw [hs] at hw
            cases hw
    · rcases hrest.stage w with hs | ⟨r, hs⟩ <;>
      · rw [hs] at hw
        cases hw

/-- One thread after the other. -/
theorem open_limits_hold_iff_demo :
    let c : OrderManagerConf Bool Bool := .plain fun w =>
      .dayLimit w .buy 6000 10
    let calls : Bool → SendCall := fun _ => ⟨[66], .taken⟩
    let turns : List (Turn Bool) :=
      List.replicate 7 (.send true) ++ List.replicate 4 (.send false)
    Lib.Admits (turn calls)
      (fun t e => (t.turn calls e).om.desk.firmRisk.WithinOpenLimits)
      (start c) turns := by
  intro c calls turns
  exact (open_limits_hold_iff calls (start c)
    ⟨fun _ => .inl rfl, fun _ h => by cases h⟩ (by decide +kernel) turns
    (by decide +kernel)).mpr (by decide +kernel)

/-- Two orders of 60000 dollars each on two instruments, under limits of
100000: both are checked, then both are added. -/
theorem open_limits_overrun :
    let c : OrderManagerConf Bool Bool := .plain fun w =>
      .dayLimit w .buy 6000 10
    let calls : Bool → SendCall := fun _ => ⟨[66], .taken⟩
    let turns : List (Turn Bool) :=
      List.replicate 4 (.send true) ++ List.replicate 4 (.send false)
        ++ [.send true, .send false]
    let t := Lib.run (turn calls) (start c) turns
    (start c).om.desk.firmRisk.WithinOpenLimits
      ∧ Lib.Admits (turn calls) Locks (start c) turns
      ∧ t.om.desk.firmRisk.grossOpenExposure = 120000
      ∧ t.om.desk.firmRisk.grossOpenExposureLimit = 100000
      ∧ t.om.desk.firmRisk.longOpenExposureLimit
        < t.om.desk.firmRisk.longOpenExposure := by
  decide +kernel

end SendThreads

end TradingEngine.OE
