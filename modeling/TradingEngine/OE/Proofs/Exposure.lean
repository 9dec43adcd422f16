/-
Open-exposure accounting: the open size and exposure of every instrument,
and the firm's open totals, are those of the orders that are sent and not
rejected.

One quantity is kept in four places: on the order (what is outstanding),
as the position's open size, as its open exposure and in the firm's
totals. `openShare` is the part of an order's outstanding size in the
four open members of a position; it is additive in the size, so each
event is one of three changes of one summand: an order joins
(`Accounted.join`), changes (`Accounted.change`) or leaves
(`Accounted.leave`).
-/
import TradingEngine.OE.Proofs.Send
import TradingEngine.OE.Trading
import TradingEngine.Lib.Total
import Mathlib.Algebra.BigOperators.Ring.Finset
import Mathlib.Data.Fintype.BigOperators
import Mathlib.Algebra.BigOperators.Pi
import Mathlib.Algebra.Order.BigOperators.Group.Finset

namespace TradingEngine.OE

variable {ω ι : Type}

-- ================================================================ shares

/-- Long size, short size, long exposure and short exposure. -/
abbrev OpenVec := Int × Int × Rat × Rat

/-- What `n` open at price `p` on side `s` adds to the open members. -/
def openShare (s : Side) (p : Rat) (n : Int) : OpenVec :=
  if s = .buy then (n, 0, n * p, 0) else (0, n, 0, -(n * p))

def Position.openVec (pos : Position) : OpenVec :=
  (pos.openLongSize, pos.openShortSize, pos.openLongExposure,
    pos.openShortExposure)

/-- The firm's two open totals, in the last two places. -/
def FirmTotals.openPair (t : FirmTotals) : Rat × Rat :=
  (t.longOpenExposure, t.shortOpenExposure)

theorem openShare_zero (s : Side) (p : Rat) : openShare s p 0 = 0 := by
  unfold openShare
  split <;> simp

theorem openShare_add (s : Side) (p : Rat) (m n : Int) :
    openShare s p (m + n) = openShare s p m + openShare s p n := by
  unfold openShare
  split
  · refine Prod.ext rfl (Prod.ext rfl (Prod.ext ?_ (add_zero _).symm))
    show ((m + n : Int) : Rat) * p = m * p + n * p
    push_cast
    ring
  · refine Prod.ext rfl (Prod.ext rfl (Prod.ext (add_zero _).symm ?_))
    show -(((m + n : Int) : Rat) * p) = -(m * p) + -(n * p)
    push_cast
    ring

theorem openShare_neg (s : Side) (p : Rat) (n : Int) :
    openShare s p (-n) = -openShare s p n := by
  have h := openShare_add s p n (-n)
  rw [add_neg_cancel, openShare_zero] at h
  exact eq_neg_of_add_eq_zero_right h.symm

theorem Position.openVec_moveOpen (pos : Position) (s : Side) (p : Rat)
    (n : Int) :
    (pos.moveOpen s p n).openVec = pos.openVec + openShare s p n := by
  unfold Position.moveOpen openShare
  split
  · refine Prod.ext rfl (Prod.ext (add_zero _).symm
      (Prod.ext rfl (add_zero _).symm))
  · refine Prod.ext (add_zero _).symm (Prod.ext rfl
      (Prod.ext (add_zero _).symm ?_))
    exact sub_eq_add_neg ..

theorem Position.openVec_fill (pos : Position) (s : Side) (n : Nat)
    (price fee : Rat) :
    (pos.updateRealizedAndUnrealizedPnl s n price fee).openVec
      = pos.openVec := by
  obtain ⟨r, v, h⟩ := pos.updateRealizedAndUnrealizedPnl_shape s n price fee
  rw [h]
  rfl

theorem FirmTotals.openPair_moveOpen (t : FirmTotals) (s : Side) (p : Rat)
    (n : Int) :
    (t.moveOpen s (n * p)).openPair
      = t.openPair + (openShare s p n).2.2 := by
  unfold FirmTotals.moveOpen openShare
  split
  · exact Prod.ext rfl (add_zero _).symm
  · exact Prod.ext (add_zero _).symm (sub_eq_add_neg ..)

section Book

variable [DecidableEq ι]

/-- The open members of every instrument after a move. -/
theorem Book.openVec_moveOpen (b : Book ι) (esi : ι) (s : Side) (p : Rat)
    (n : Int) (i : ι) :
    ((b.moveOpen esi s p n).position i).openVec
      = (b.position i).openVec
        + if i = esi then openShare s p n else 0 := by
  rw [Book.position_moveOpen]
  by_cases hi : i = esi
  · rw [if_pos hi, if_pos hi, Position.openVec_moveOpen, hi]
  · rw [if_neg hi, if_neg hi, add_zero]

theorem Book.openVec_trade (b : Book ι) (esi : ι) (s : Side) (n : Nat)
    (price fee : Rat) (i : ι) :
    ((b.trade esi s n price fee).position i).openVec
      = (b.position i).openVec := by
  rw [Book.position_trade]
  by_cases hi : i = esi
  · rw [if_pos hi, Position.openVec_fill, hi]
  · rw [if_neg hi]

end Book

-- ============================================================= accounting

variable [DecidableEq ι]

/-- An order's part in the open members of instrument `i`. -/
def Order.share (o : Order ι) (i : ι) : OpenVec :=
  if i = o.instrument then openShare o.side o.price o.outstanding else 0

/-- The terms an order's share is counted at. -/
def Order.terms (o : Order ι) : ι × Side × Rat :=
  (o.instrument, o.side, o.price)

variable [Fintype ι]

/-- The book accounts for the orders of `L`, and the firm's totals for the
book. -/
structure Accounted (b : Book ι) (L : Finset ω) (order : ω → Order ι) :
    Prop where
  position : ∀ i, (b.position i).openVec = ∑ w ∈ L, (order w).share i
  firm : b.totals.openPair = ∑ i, (b.position i).openVec.2.2

namespace Accounted

variable {b b' : Book ι} {L : Finset ω} {order order' : ω → Order ι} {w : ω}

/-- The firm's totals follow any move of one position. -/
theorem firm_moveOpen
    (h : b.totals.openPair = ∑ i, (b.position i).openVec.2.2)
    (esi : ι) (s : Side) (p : Rat) (n : Int) :
    (b.moveOpen esi s p n).totals.openPair
      = ∑ i, ((b.moveOpen esi s p n).position i).openVec.2.2 := by
  have hsum := Lib.sum_update b.position esi
    ((b.position esi).moveOpen s p n) (fun pos => pos.openVec.2.2)
  have hdiff : ((b.position esi).moveOpen s p n).openVec.2.2
      - (b.position esi).openVec.2.2 = (openShare s p n).2.2 := by
    rw [Position.openVec_moveOpen]
    exact add_sub_cancel_left ..
  rw [hdiff] at hsum
  refine Eq.trans ?_ hsum.symm
  rw [← h]
  exact b.totals.openPair_moveOpen s p n

/-- A trade moves no open member. -/
theorem trade (h : Accounted b L order) (esi : ι) (s : Side) (n : Nat)
    (price fee : Rat) :
    Accounted (b.trade esi s n price fee) L order := by
  refine ⟨fun i => ?_, ?_⟩
  · rw [Book.openVec_trade]
    exact h.position i
  · refine Eq.trans (h.firm : _) ?_
    exact Finset.sum_congr rfl fun i _ => by rw [Book.openVec_trade]

/-- No share changed: an acknowledgement, a cancel request, anything that
happens to other orders. -/
theorem still (h : Accounted b L order)
    (hrest : ∀ v ∈ L, ∀ i, (order' v).share i = (order v).share i) :
    Accounted b L order' := by
  refine ⟨fun i => ?_, h.firm⟩
  rw [h.position i]
  exact (Finset.sum_congr rfl fun v hv => hrest v hv i).symm

variable [DecidableEq ω]

/-- An order that counts with its whole outstanding size joins. -/
theorem join (h : Accounted b L order) (order' : ω → Order ι)
    (hw : w ∉ L) (hrest : ∀ v ∈ L, order' v = order v) :
    Accounted (b.moveOpen (order' w).instrument (order' w).side
      (order' w).price (order' w).outstanding) (insert w L) order' := by
  refine ⟨fun i => ?_, firm_moveOpen h.firm ..⟩
  rw [Book.openVec_moveOpen, h.position i]
  refine (Lib.sum_join (f := fun v => (order v).share i)
    (g := fun v => (order' v).share i) hw fun v hv => ?_).symm
  rw [hrest v hv]

/-- An order's outstanding size changes by `n`, its terms stay. -/
theorem change (h : Accounted b L order) (hw : w ∈ L) {n : Int}
    (hrest : ∀ v ∈ L, v ≠ w → order' v = order v)
    (hterms : (order' w).terms = (order w).terms)
    (hn : (order' w).outstanding = (order w).outstanding + n) :
    Accounted (b.moveOpen (order w).instrument (order w).side
      (order w).price n) L order' := by
  refine ⟨fun i => ?_, firm_moveOpen h.firm ..⟩
  simp only [Order.terms, Prod.mk.injEq] at hterms
  obtain ⟨hi, hs, hp⟩ := hterms
  rw [Book.openVec_moveOpen, h.position i,
    Lib.sum_change (g := fun v => (order' v).share i) hw fun v hv hne => by
      rw [hrest v hv hne]]
  congr 1
  unfold Order.share
  rw [hi, hs, hp, hn]
  by_cases hesi : i = (order w).instrument
  · rw [if_pos hesi, if_pos hesi, if_pos hesi, openShare_add,
      add_sub_cancel_left]
  · rw [if_neg hesi, if_neg hesi, if_neg hesi, sub_zero]

/-- An order leaves with all that was outstanding on it. -/
theorem leave (h : Accounted b L order) (order' : ω → Order ι)
    (hw : w ∈ L) (hrest : ∀ v ∈ L, v ≠ w → order' v = order v) :
    Accounted (b.moveOpen (order w).instrument (order w).side
      (order w).price (-(order w).outstanding)) (L.erase w) order' := by
  refine ⟨fun i => ?_, firm_moveOpen h.firm ..⟩
  rw [Book.openVec_moveOpen, h.position i,
    Lib.sum_leave (f := fun v => (order v).share i)
      (g := fun v => (order' v).share i) hw fun v hv hne => by
      rw [hrest v hv hne], sub_eq_add_neg]
  congr 1
  unfold Order.share
  by_cases hesi : i = (order w).instrument
  · rw [if_pos hesi, if_pos hesi, openShare_neg]
  · rw [if_neg hesi, if_neg hesi, neg_zero]

end Accounted

-- ======================================================== the invariant

variable [DecidableEq ω]

/-- What an orderly day keeps. -/
structure ExposureInv (t : Trading ω ι) : Prop where
  sent_seen : t.sent ⊆ t.seen
  rejected_sent : t.rejected ⊆ t.sent
  /-- Nothing happens to an order before it is sent. -/
  fresh : ∀ w ∉ t.seen,
    (t.om.order w).filledSize = 0 ∧ (t.om.order w).cancelledSize = 0
  /-- Fills and cancels stay within the size. -/
  within : ∀ w ∈ t.sent,
    (t.om.order w).filledSize + (t.om.order w).cancelledSize
      ≤ (t.om.order w).size
  known : ∀ w ∈ t.sent, (t.om.order w).side ≠ .unknown
  accounted : Accounted t.om.book t.live t.om.order

namespace ExposureInv

variable {t t' : Trading ω ι} {w : ω} {o : Order ι}

theorem live_seen (h : ExposureInv t) {v : ω} (hv : v ∈ t.live) :
    v ∈ t.seen :=
  h.sent_seen (Finset.mem_sdiff.mp hv).1

/-- One sent order was written to, its terms as before and its counts
within its size; the accounting is the caller's. -/
theorem update (h : ExposureInv t) (hseen : t'.seen = t.seen)
    (hsent : t'.sent = t.sent) (hrej : t'.rejected ⊆ t.sent)
    (horder : t'.om.order = Function.update t.om.order w o)
    (hw : w ∈ t.sent) (hterms : o.terms = (t.om.order w).terms)
    (hwithin : o.filledSize + o.cancelledSize ≤ o.size)
    (hacc : Accounted t'.om.book t'.live t'.om.order) :
    ExposureInv t' := by
  simp only [Order.terms, Prod.mk.injEq] at hterms
  refine ⟨?_, by rw [hsent]; exact hrej, fun v hv => ?_, fun v hv => ?_,
    fun v hv => ?_, hacc⟩
  · rw [hsent, hseen]
    exact h.sent_seen
  · rw [hseen] at hv
    have hne : v ≠ w := fun heq => hv (heq ▸ h.sent_seen hw)
    rw [horder, Function.update_of_ne hne]
    exact h.fresh v hv
  · rw [hsent] at hv
    rw [horder]
    by_cases hne : v = w
    · rw [hne, Function.update_self]
      exact hwithin
    · rw [Function.update_of_ne hne]
      exact h.within v hv
  · rw [hsent] at hv
    rw [horder]
    by_cases hne : v = w
    · rw [hne, Function.update_self, hterms.2.1]
      exact h.known w hw
    · rw [Function.update_of_ne hne]
      exact h.known v hv

/-- An order was written to without a change of terms or counts, and the
book was not: an acknowledgement or a cancel request. -/
theorem touch (h : ExposureInv t) (hseen : t'.seen = t.seen)
    (hsent : t'.sent = t.sent) (hrej : t'.rejected = t.rejected)
    (horder : t'.om.order = Function.update t.om.order w o)
    (hterms : o.terms = (t.om.order w).terms)
    (hcounts : (o.size, o.filledSize, o.cancelledSize)
      = ((t.om.order w).size, (t.om.order w).filledSize,
        (t.om.order w).cancelledSize))
    (hbook : t'.om.book = t.om.book) : ExposureInv t' := by
  simp only [Order.terms, Prod.mk.injEq] at hterms hcounts
  obtain ⟨hi, hs, hp⟩ := hterms
  obtain ⟨hz, hf, hc⟩ := hcounts
  have hval : ∀ v, t'.om.order v = t.om.order v ∨
      (v = w ∧ t'.om.order v = o) := by
    intro v
    rw [horder]
    by_cases hne : v = w
    · right
      rw [hne, Function.update_self]
      exact ⟨rfl, rfl⟩
    · left
      rw [Function.update_of_ne hne]
  refine ⟨?_, ?_, fun v hv => ?_, fun v hv => ?_, fun v hv => ?_, ?_⟩
  · rw [hsent, hseen]
    exact h.sent_seen
  · rw [hsent, hrej]
    exact h.rejected_sent
  · rw [hseen] at hv
    rcases hval v with heq | ⟨rfl, heq⟩
    · rw [heq]
      exact h.fresh v hv
    · rw [heq, hf, hc]
      exact h.fresh v hv
  · rw [hsent] at hv
    rcases hval v with heq | ⟨rfl, heq⟩
    · rw [heq]
      exact h.within v hv
    · rw [heq, hf, hc, hz]
      exact h.within v hv
  · rw [hsent] at hv
    rcases hval v with heq | ⟨rfl, heq⟩
    · rw [heq]
      exact h.known v hv
    · rw [heq, hs]
      exact h.known v hv
  · have hlive : t'.live = t.live := by
      unfold Trading.live
      rw [hsent, hrej]
    rw [hbook, hlive]
    refine h.accounted.still fun v _ i => ?_
    rcases hval v with heq | ⟨rfl, heq⟩
    · rw [heq]
    · rw [heq]
      unfold Order.share Order.outstanding
      rw [hi, hs, hp, hz, hf, hc]

end ExposureInv

/-- An accepted order joins, with its whole size outstanding; a refused
one leaves everything as it was. -/
theorem exposureInv_send {t : Trading ω ι} (h : ExposureInv t) {w : ω}
    (session : Bytes) (a : OrderManager.SendAnswer) (hw : w ∉ t.seen) :
    ExposureInv (t.step (.send w session a)) := by
  have hnotsent : w ∉ t.sent := fun hs => hw (h.sent_seen hs)
  have hnotrej : w ∉ t.rejected := fun hr => hnotsent (h.rejected_sent hr)
  have hnotlive : w ∉ t.live := fun hl => hw (h.live_seen hl)
  obtain ⟨hf, hc⟩ := h.fresh w hw
  -- the other orders stay as they are
  have hrest : ∀ v, v ≠ w →
      (t.om.send w session a).2.order v = t.om.order v :=
    fun v hv => t.step_order_of_ne (e := .send w session a) (Ne.symm hv)
  have hfresh : ∀ v ∉ insert w t.seen,
      ((t.om.send w session a).2.order v).filledSize = 0
        ∧ ((t.om.send w session a).2.order v).cancelledSize = 0 := by
    intro v hv
    rw [Finset.mem_insert, not_or] at hv
    rw [hrest v hv.1]
    exact h.fresh v hv.2
  have hsame : ∀ v ∈ t.sent,
      (t.om.send w session a).2.order v = t.om.order v :=
    fun v hv => hrest v fun heq => hnotsent (heq ▸ hv)
  rcases t.om.send_spec w session a with ⟨hr, side, hacc⟩ | ⟨hr, href⟩
  · have hstep : t.step (.send w session a)
        = { t with
            om := (t.om.send w session a).2
            seen := insert w t.seen
            sent := insert w t.sent } := by
      show { t with om := _, seen := _, sent := if _ then _ else _ } = _
      rw [hr, if_pos rfl]
    have hself : (t.om.send w session a).2.order w
        = { t.om.order w with
            localID := t.om.localID + 1
            side := side
            session := some session
            sentTime := a.sentTime
            clientOrderID := a.clientOrderID
            state := .sent } := by
      rw [hacc.order, Function.update_self]
    generalize t.om.send w session a = r at *
    rw [hstep]
    refine ⟨Finset.insert_subset_insert w h.sent_seen,
      h.rejected_sent.trans (Finset.subset_insert w t.sent),
      hfresh, fun v hv => ?_, fun v hv => ?_, ?_⟩
    · show (r.2.order v).filledSize + _ ≤ (r.2.order v).size
      rcases Finset.mem_insert.mp hv with rfl | hv
      · rw [hself]
        show (t.om.order v).filledSize + (t.om.order v).cancelledSize ≤ _
        omega
      · rw [hsame v hv]
        exact h.within v hv
    · show (r.2.order v).side ≠ .unknown
      rcases Finset.mem_insert.mp hv with rfl | hv
      · rw [hself]
        obtain ⟨-, -, -, hside⟩ := Order.validateBase_spec hacc.valid
        exact fun hu => hside (hacc.side_kept.unknown hu)
      · rw [hsame v hv]
        exact h.known v hv
    · have hlive : insert w t.sent \ t.rejected = insert w t.live :=
        Finset.insert_sdiff_of_notMem _ hnotrej
      have hjoin := h.accounted.join r.2.order hnotlive
        fun v hv => hrest v fun heq => hnotlive (heq ▸ hv)
      have hout : (r.2.order w).outstanding = (t.om.order w).size := by
        rw [hself]
        show ((t.om.order w).size : Int) - (t.om.order w).filledSize
          - (t.om.order w).cancelledSize = _
        omega
      rw [hout, hself] at hjoin
      show Accounted r.2.book (insert w t.sent \ t.rejected) r.2.order
      rw [hlive, hacc.book]
      exact hjoin
  · have hstep : t.step (.send w session a)
        = { t with
            om := (t.om.send w session a).2
            seen := insert w t.seen } := by
      show { t with om := _, seen := _, sent := if _ then _ else _ } = _
      rw [hr]
      rfl
    have hbook := href.book
    generalize t.om.send w session a = r at *
    rw [hstep]
    refine ⟨h.sent_seen.trans (Finset.subset_insert w t.seen),
      h.rejected_sent, hfresh, fun v hv => ?_, fun v hv => ?_, ?_⟩
    · show (r.2.order v).filledSize + _ ≤ (r.2.order v).size
      rw [hsame v hv]
      exact h.within v hv
    · show (r.2.order v).side ≠ .unknown
      rw [hsame v hv]
      exact h.known v hv
    · show Accounted r.2.book t.live r.2.order
      rw [hbook]
      refine h.accounted.still fun v hv i => ?_
      rw [hrest v fun heq => hnotlive (heq ▸ hv)]

/-- Every admissible event keeps the accounting. -/
theorem exposureInv_step (t : Trading ω ι) (e : Event ω)
    (h : ExposureInv t) (hok : t.Orderly e) : ExposureInv (t.step e) := by
  cases e with
  | send w session a => exact exposureInv_send h session a hok
  | cancel w newqty a =>
      rcases t.om.cancel_cases w newqty a with heq | ⟨-, -, heq⟩
      · show ExposureInv { t with om := (t.om.cancel w newqty a).2 }
        rw [heq]
        exact h
      · refine h.touch (w := w)
          (o := OrderManager.pendingCancelOrder (t.om.order w) newqty a)
          rfl rfl rfl ?_ rfl rfl ?_
        · show (t.om.cancel w newqty a).2.order = _
          rw [heq]
          rfl
        · show (t.om.cancel w newqty a).2.book = _
          rw [heq]
          rfl
  | destroy w onlyIfTerminal sessionDestroys => exact hok.elim
  | acknowledged w exchangeID size ts exts =>
      exact h.touch (w := w) rfl rfl rfl rfl rfl rfl rfl
  | rejected w ts exts =>
      obtain ⟨hsent, hnotrej, hf, hc⟩ := hok
      have hlive : w ∈ t.live := Finset.mem_sdiff.mpr ⟨hsent, hnotrej⟩
      have hw := h.within w hsent
      refine h.update (w := w) rfl rfl ?_ rfl hsent rfl hw ?_
      · exact Finset.insert_subset hsent h.rejected_sent
      · have hleave := h.accounted.leave
          (t.om.onRejected w ts exts).order hlive
          fun v _ hne => Function.update_of_ne hne ..
        have hout : (t.om.order w).outstanding = (t.om.order w).size := by
          unfold Order.outstanding
          omega
        have hsd : t.sent \ insert w t.rejected = t.live.erase w := by
          rw [Finset.sdiff_insert]
          rfl
        show Accounted (t.om.onRejected w ts exts).book
          (t.sent \ insert w t.rejected) _
        rw [hsd, OrderManager.book_onRejected, ← hout]
        exact hleave
  | fill w size price ts exts feeCode =>
      obtain ⟨hsent, hnotrej, hsize⟩ := hok
      have hlive : w ∈ t.live := Finset.mem_sdiff.mpr ⟨hsent, hnotrej⟩
      have hw := h.within w hsent
      unfold Order.outstanding at hsize
      have hfilled := filledSize_fill (o := t.om.order w) (n := size)
        (by omega) price ts exts feeCode
      refine h.update (w := w) rfl rfl h.rejected_sent rfl hsent rfl ?_ ?_
      · rw [hfilled]
        show _ + (t.om.order w).cancelledSize ≤ (t.om.order w).size
        omega
      · show Accounted (t.om.onFill w size price ts exts feeCode).book _ _
        rw [OrderManager.book_onFill]
        refine (h.accounted.trade ..).change hlive
          (fun v _ hne => Function.update_of_ne hne ..) ?_ ?_
        · show (Function.update t.om.order w _ w).terms = _
          rw [Function.update_self]
          rfl
        · show (Function.update t.om.order w _ w).outstanding = _
          rw [Function.update_self, outstanding_fill (by omega)]
          exact sub_eq_add_neg ..
  | cancelled w size ts exts =>
      obtain ⟨hsent, hnotrej, hsize⟩ := hok
      have hlive : w ∈ t.live := Finset.mem_sdiff.mpr ⟨hsent, hnotrej⟩
      have hw := h.within w hsent
      unfold Order.outstanding at hsize
      have hcancelled := cancelledSize_cancel (o := t.om.order w)
        (n := size) (by omega) ts exts
      have hterms : (orderUpdateOnCancel (t.om.order w) size ts exts).terms
          = (t.om.order w).terms := by
        rw [orderUpdateOnCancel_eq]
        rfl
      refine h.update (w := w) rfl rfl h.rejected_sent rfl hsent hterms ?_ ?_
      · rw [hcancelled, size_cancel, filledSize_cancel]
        omega
      · show Accounted (t.om.onCancel w size ts exts).book _ _
        rw [OrderManager.book_onCancel]
        refine h.accounted.change hlive
          (fun v _ hne => Function.update_of_ne hne ..) ?_ ?_
        · show (Function.update t.om.order w _ w).terms = _
          rw [Function.update_self]
          exact hterms
        · show (Function.update t.om.order w _ w).outstanding = _
          rw [Function.update_self, outstanding_cancel (by omega)]
          exact sub_eq_add_neg ..
  | cancelRejected w ts exts =>
      exact h.touch (w := w) rfl rfl rfl rfl rfl rfl rfl

omit [DecidableEq ω] in
/-- A fresh order manager accounts for no order at all. -/
theorem accounted_start {ω' : Type} (c : OrderManagerConf ω ι)
    (order : ω' → Order ι) :
    Accounted (OrderManager.start c).book (∅ : Finset ω') order := by
  obtain ⟨sessions, records, hstart, -⟩ := OrderManager.start_frame c
  have hvec : ∀ i,
      ((OrderManager.start c).book.position i).openVec = 0 := by
    intro i
    rw [hstart]
    rfl
  have hblank := FirmRiskCheck.init_blank c.firmRisk_init
  refine ⟨fun i => ?_, ?_⟩
  · rw [hvec i, Finset.sum_empty]
  · have hzero : ∀ i ∈ Finset.univ,
        (((OrderManager.start c).book).position i).openVec.2.2 = 0 := by
      intro i _
      rw [hvec i]
      rfl
    rw [Finset.sum_eq_zero hzero, hstart]
    exact Prod.ext hblank.longOpen hblank.shortOpen

theorem exposureInv_start (c : OrderManagerConf ω ι) :
    ExposureInv (Trading.start c) := by
  refine ⟨Finset.Subset.refl _, Finset.Subset.refl _, fun w _ => ?_,
    fun w hw => absurd hw (Finset.notMem_empty w),
    fun w hw => absurd hw (Finset.notMem_empty w),
    accounted_start c (OrderManager.start c).order⟩
  obtain ⟨sessions, records, hstart, -⟩ := OrderManager.start_frame c
  show ((OrderManager.start c).order w).filledSize = 0
    ∧ ((OrderManager.start c).order w).cancelledSize = 0
  rw [hstart]
  exact ⟨rfl, rfl⟩

-- ============================================================ assertions

/-- The position covers every live order: its open size on the order's
side is at least what is outstanding on it. -/
theorem ExposureInv.covers {t : Trading ω ι} (h : ExposureInv t) (i : ι) :
    0 ≤ (t.om.desk.position i).openLongSize
      ∧ 0 ≤ (t.om.desk.position i).openShortSize
      ∧ ∀ w ∈ t.live, (t.om.order w).instrument = i →
          (t.om.order w).outstanding
            ≤ if (t.om.order w).side = .buy then
                (t.om.desk.position i).openLongSize
              else (t.om.desk.position i).openShortSize := by
  have hpos := h.accounted.position i
  have hlong : (t.om.desk.position i).openLongSize
      = ∑ w ∈ t.live, ((t.om.order w).share i).1 := by
    have := congrArg Prod.fst hpos
    rwa [Prod.fst_sum] at this
  have hshort : (t.om.desk.position i).openShortSize
      = ∑ w ∈ t.live, ((t.om.order w).share i).2.1 := by
    have := congrArg (fun v : OpenVec => v.2.1) hpos
    simp only [Prod.snd_sum, Prod.fst_sum] at this
    exact this
  have hnonneg : ∀ w ∈ t.live, 0 ≤ (t.om.order w).outstanding := by
    intro w hw
    have := h.within w (Finset.mem_sdiff.mp hw).1
    unfold Order.outstanding
    omega
  have hshare : ∀ w ∈ t.live, 0 ≤ ((t.om.order w).share i).1
      ∧ 0 ≤ ((t.om.order w).share i).2.1 := by
    intro w hw
    have := hnonneg w hw
    unfold Order.share openShare
    split
    · split
      · exact ⟨this, le_refl _⟩
      · exact ⟨le_refl _, this⟩
    · exact ⟨le_refl _, le_refl _⟩
  refine ⟨?_, ?_, fun w hw hi => ?_⟩
  · rw [hlong]
    exact Finset.sum_nonneg fun w hw => (hshare w hw).1
  · rw [hshort]
    exact Finset.sum_nonneg fun w hw => (hshare w hw).2
  · by_cases hside : (t.om.order w).side = .buy
    · rw [if_pos hside, hlong]
      have hle := Finset.single_le_sum
        (f := fun v => ((t.om.order v).share i).1)
        (fun v hv => (hshare v hv).1) hw
      have hself : ((t.om.order w).share i).1
          = (t.om.order w).outstanding := by
        unfold Order.share openShare
        rw [if_pos hi.symm, if_pos hside]
      rw [← hself]
      exact hle
    · rw [if_neg hside, hshort]
      have hle := Finset.single_le_sum
        (f := fun v => ((t.om.order v).share i).2.1)
        (fun v hv => (hshare v hv).2) hw
      have hself : ((t.om.order w).share i).2.1
          = (t.om.order w).outstanding := by
        unfold Order.share openShare
        rw [if_pos hi.symm, if_neg hside]
      rw [← hself]
      exact hle

/-- No `sub_open_*` assertion fails. -/
theorem exposureInv_asserts (t : Trading ω ι) (e : Event ω)
    (h : ExposureInv t) (hok : t.Orderly e) : t.AssertsHold e := by
  -- an event of size `n` on a live order
  have hevent : ∀ w ∈ t.live, ∀ n : Nat,
      (n : Int) ≤ (t.om.order w).outstanding →
      FirmRiskCheck.removesAssert
        (t.om.desk.position (t.om.order w).instrument) (t.om.order w)
        n := by
    intro w hw n hn
    obtain ⟨-, -, hcover⟩ := h.covers (t.om.order w).instrument
    have hle := hcover w hw rfl
    unfold FirmRiskCheck.removesAssert Position.subOpenBuysAssert
      Position.subOpenSellsAssert
    split at hle
    case isTrue hside =>
      rw [if_pos hside]
      omega
    case isFalse hside =>
      rw [if_neg hside]
      omega
  cases e with
  | send w session a =>
      let om₁ := t.om.takeLocalID w
      let om₂ := (om₁.riskCheck w).2
      let om₃ := (om₂.instrumentCheck w).2
      obtain ⟨side, -, horder, hbook, -⟩ := om₂.instrumentCheck_spec w
      have hbook' : om₃.book = t.om.book :=
        hbook.trans (t.om.desk.book_newOrder _)
      obtain ⟨hlong, hshort, -⟩ := h.covers (om₃.order w).instrument
      -- the size just added is there to be removed
      have hadd : ((om₃.addOpen w session).book.position
          (om₃.order w).instrument)
          = (t.om.book.position (om₃.order w).instrument).moveOpen
              (om₃.order w).side (om₃.order w).price
              (om₃.order w).size := by
        rw [OrderManager.book_addOpen, Book.position_moveOpen, if_pos rfl,
          hbook']
      have ho : (om₃.addOpen w session).order w
          = { om₃.order w with session := some session } :=
        Function.update_self ..
      have hl := congrArg Position.openLongSize hadd
      have hs := congrArg Position.openShortSize hadd
      show FirmRiskCheck.removesAssert
        ((om₃.addOpen w session).desk.position
          ((om₃.addOpen w session).order w).instrument)
        ((om₃.addOpen w session).order w)
        ((om₃.addOpen w session).order w).size
      rw [ho]
      unfold FirmRiskCheck.removesAssert Position.subOpenBuysAssert
        Position.subOpenSellsAssert
      unfold Position.moveOpen at hl hs
      by_cases hside : (om₃.order w).side = .buy
      · rw [if_pos hside] at hl ⊢
        have hold : (t.om.book.position (om₃.order w).instrument
          ).openLongSize ≥ 0 := hlong
        show (om₃.addOpen w session |>.book.position
          (om₃.order w).instrument).openLongSize ≥ _
        rw [hl]
        show _ + ((om₃.order w).size : Int) ≥ (om₃.order w).size
        omega
      · rw [if_neg hside] at hs ⊢
        have hold : (t.om.book.position (om₃.order w).instrument
          ).openShortSize ≥ 0 := hshort
        show (om₃.addOpen w session |>.book.position
          (om₃.order w).instrument).openShortSize ≥ _
        rw [hs]
        show _ + ((om₃.order w).size : Int) ≥ (om₃.order w).size
        omega
  | cancel w newqty a => trivial
  | destroy w onlyIfTerminal sessionDestroys => trivial
  | acknowledged w exchangeID size ts exts => trivial
  | rejected w ts exts =>
      obtain ⟨hsent, hnotrej, hf, hc⟩ := hok
      refine hevent w (Finset.mem_sdiff.mpr ⟨hsent, hnotrej⟩) _ ?_
      unfold Order.outstanding
      omega
  | fill w size price ts exts feeCode =>
      obtain ⟨hsent, hnotrej, hsize⟩ := hok
      exact hevent w (Finset.mem_sdiff.mpr ⟨hsent, hnotrej⟩) size hsize
  | cancelled w size ts exts =>
      obtain ⟨hsent, hnotrej, hsize⟩ := hok
      exact hevent w (Finset.mem_sdiff.mpr ⟨hsent, hnotrej⟩) size hsize
  | cancelRejected w ts exts => trivial

-- ================================================================== runs

/-- Nothing is left open on the order: it was rejected, or fills and
cancels have used up its size. -/
def Trading.Finished (t : Trading ω ι) (w : ω) : Prop :=
  w ∈ t.rejected ∨ (t.om.order w).outstanding = 0

/-- The four members of one instrument, each as a sum of its own. -/
theorem ExposureInv.sums {t : Trading ω ι} (h : ExposureInv t) (i : ι) :
    (t.om.desk.position i).openLongSize
        = ∑ w ∈ t.live with (t.om.order w).instrument = i
            ∧ (t.om.order w).side = .buy, (t.om.order w).outstanding
    ∧ (t.om.desk.position i).openShortSize
        = ∑ w ∈ t.live with (t.om.order w).instrument = i
            ∧ EquityInstrument.sells (t.om.order w),
            (t.om.order w).outstanding
    ∧ (t.om.desk.position i).openLongExposure
        = ∑ w ∈ t.live with (t.om.order w).instrument = i
            ∧ (t.om.order w).side = .buy,
            (t.om.order w).outstanding * (t.om.order w).price
    ∧ (t.om.desk.position i).openShortExposure
        = -∑ w ∈ t.live with (t.om.order w).instrument = i
            ∧ EquityInstrument.sells (t.om.order w),
            (t.om.order w).outstanding * (t.om.order w).price := by
  have hpos := h.accounted.position i
  have hshare : ∀ w ∈ t.live, (t.om.order w).share i
      = (if (t.om.order w).instrument = i ∧ (t.om.order w).side = .buy then
            (t.om.order w).outstanding else 0,
          if (t.om.order w).instrument = i
              ∧ EquityInstrument.sells (t.om.order w) then
            (t.om.order w).outstanding else 0,
          if (t.om.order w).instrument = i ∧ (t.om.order w).side = .buy then
            (t.om.order w).outstanding * (t.om.order w).price else 0,
          -(if (t.om.order w).instrument = i
              ∧ EquityInstrument.sells (t.om.order w) then
            (t.om.order w).outstanding * (t.om.order w).price else 0)) := by
    intro w hw
    have hknown := h.known w (Finset.mem_sdiff.mp hw).1
    have hsells := EquityInstrument.sells_iff_ne_buy hknown
    unfold Order.share openShare
    by_cases hi : (t.om.order w).instrument = i
    · by_cases hs : (t.om.order w).side = .buy <;>
        simp [hi, hs, hsells]
    · simp only [hi, Ne.symm hi, if_false, false_and, neg_zero]
      rfl
  rw [Finset.sum_congr rfl hshare] at hpos
  simp only [Position.openVec, Prod.ext_iff, Prod.fst_sum, Prod.snd_sum,
    Finset.sum_neg_distrib, ← Finset.sum_filter] at hpos
  exact hpos

/-- Open-exposure accounting. After every orderly run, each instrument's
open sizes and exposures are the sums over its live orders, the firm's
open totals are the sums over the instruments, no `sub_open_*` assertion
has failed on the way, and once every sent order is finished all of them
are zero. -/
theorem open_exposure_accounting (c : OrderManagerConf ω ι)
    (es : List (Event ω))
    (hes : Lib.Admits Trading.step Trading.Orderly (Trading.start c) es) :
    let t := Lib.run Trading.step (Trading.start c) es
    (∀ i,
      (t.om.desk.position i).openLongSize
          = ∑ w ∈ t.live with (t.om.order w).instrument = i
              ∧ (t.om.order w).side = .buy, (t.om.order w).outstanding
      ∧ (t.om.desk.position i).openShortSize
          = ∑ w ∈ t.live with (t.om.order w).instrument = i
              ∧ EquityInstrument.sells (t.om.order w),
              (t.om.order w).outstanding
      ∧ (t.om.desk.position i).openLongExposure
          = ∑ w ∈ t.live with (t.om.order w).instrument = i
              ∧ (t.om.order w).side = .buy,
              (t.om.order w).outstanding * (t.om.order w).price
      ∧ (t.om.desk.position i).openShortExposure
          = -∑ w ∈ t.live with (t.om.order w).instrument = i
              ∧ EquityInstrument.sells (t.om.order w),
              (t.om.order w).outstanding * (t.om.order w).price)
    ∧ t.om.desk.firmRisk.longOpenExposure
        = ∑ i, (t.om.desk.position i).openLongExposure
    ∧ t.om.desk.firmRisk.shortOpenExposure
        = ∑ i, (t.om.desk.position i).openShortExposure
    ∧ Lib.Admits Trading.step Trading.AssertsHold (Trading.start c) es
    ∧ ((∀ w ∈ t.sent, t.Finished w) →
        (∀ i, (t.om.desk.position i).openVec = 0)
        ∧ t.om.desk.firmRisk.longOpenExposure = 0
        ∧ t.om.desk.firmRisk.shortOpenExposure = 0) := by
  intro t
  have hinv : ExposureInv t :=
    Lib.run_invariant exposureInv_step (exposureInv_start c) hes
  have hfirm := hinv.accounted.firm
  simp only [FirmTotals.openPair, Prod.ext_iff, Prod.fst_sum,
    Prod.snd_sum] at hfirm
  obtain ⟨hlong, hshort⟩ := hfirm
  refine ⟨hinv.sums, hlong, hshort, ?_, fun hfinished => ?_⟩
  · exact Lib.Admits.mono_of exposureInv_step exposureInv_asserts
      (exposureInv_start c) hes
  · have hzero : ∀ i, (t.om.desk.position i).openVec = 0 := by
      intro i
      refine (hinv.accounted.position i).trans
        (Finset.sum_eq_zero fun w hw => ?_)
      obtain ⟨hsent, hnotrej⟩ := Finset.mem_sdiff.mp hw
      unfold Order.share
      rw [(hfinished w hsent).resolve_left hnotrej, openShare_zero, ite_self]
    have hexp : ∀ i, (t.om.desk.position i).openLongExposure = 0
        ∧ (t.om.desk.position i).openShortExposure = 0 := by
      intro i
      have hvec := hzero i
      simp only [Position.openVec, Prod.mk_eq_zero] at hvec
      exact hvec.2.2
    exact ⟨hzero,
      hlong.trans (Finset.sum_eq_zero fun i _ => (hexp i).1),
      hshort.trans (Finset.sum_eq_zero fun i _ => (hexp i).2)⟩

/-- Ten bought at 5, four of them filled; seven sold at 6, rejected. -/
theorem open_exposure_accounting_demo :
    let c : OrderManagerConf Bool Unit := .plain fun w =>
      if w then .dayLimit () .buy 10 5 else .dayLimit () .sell 7 6
    let t := Lib.run Trading.step (Trading.start c)
      [.send true [66] .taken, .send false [66] .taken,
        .acknowledged true 1 10 ⟨1, 0⟩ 1, .rejected false ⟨1, 0⟩ 1,
        .fill true 4 5 ⟨2, 0⟩ 2 .unknown]
    t.om.desk.firmRisk.longOpenExposure = 30
      ∧ t.om.desk.firmRisk.longOpenExposure
        = ∑ i, (t.om.desk.position i).openLongExposure := by
  intro c t
  have h := open_exposure_accounting c
    [.send true [66] .taken, .send false [66] .taken,
      .acknowledged true 1 10 ⟨1, 0⟩ 1, .rejected false ⟨1, 0⟩ 1,
      .fill true 4 5 ⟨2, 0⟩ 2 .unknown] (by decide +kernel)
  exact ⟨by decide +kernel, h.2.1⟩

end TradingEngine.OE
