/-
The position limit, with several orders open at once.

`EquityInstrument::validate` holds the current position plus the one new
order against the limit and looks past the orders that are open already,
although its own locates check, a few lines further down, counts them. So
two orders that fit one by one may fill beyond the limit together.

# When the limit holds

`Position.reach` is the position with every open order of one side filled.
A fill keeps it on its own side, a cancel or reject takes away from it,
and only an accepted order adds to it. Hence the limit holds whatever
fills, if and only if each accepted order fits on top of the orders open
on its side (`RoomFor`). The other direction fills everything that is
open (`exists_fillOut`).
-/
import TradingEngine.OE.Proofs.Exposure

namespace TradingEngine.OE

variable {ω ι : Type}

-- ================================================================= reach

/-- The open size on the side of `s`. -/
def Position.openOn (pos : Position) (s : Side) : Int :=
  if s = .buy then pos.openLongSize else pos.openShortSize

/-- The position with every open order on the side of `s` filled. -/
def Position.reach (pos : Position) (s : Side) : Int :=
  if s = .buy then pos.tradingQuantity + pos.openLongSize
  else pos.tradingQuantity - pos.openShortSize

/-- How `n` bought or sold on side `s` moves a quantity. -/
def Side.signed (s : Side) (n : Int) : Int := if s = .buy then n else -n

/-- Two sides on the same side of the book. -/
def Side.Along (s s' : Side) : Prop := s = .buy ↔ s' = .buy

instance (s s' : Side) : Decidable (s.Along s') :=
  inferInstanceAs (Decidable (s = .buy ↔ s' = .buy))

namespace Side

variable {s s' : Side}

theorem signed_add (s : Side) (m n : Int) :
    s.signed (m + n) = s.signed m + s.signed n := by
  unfold signed
  split <;> omega

theorem signed_signed (s : Side) (n : Int) : s.signed (s.signed n) = n := by
  unfold signed
  split <;> omega

theorem signed_le_natAbs (s : Side) (n : Int) : s.signed n ≤ n.natAbs := by
  unfold signed
  split <;> omega

theorem Along.signed (h : s.Along s') (n : Int) : s.signed n = s'.signed n :=
  if_congr h rfl rfl

theorem Along.reach (h : s.Along s') (pos : Position) :
    pos.reach s = pos.reach s' :=
  if_congr h rfl rfl

/-- A side that is not along is the other one. -/
theorem signed_of_not_along (h : ¬ s.Along s') (n : Int) :
    s.signed n = -s'.signed n := by
  unfold Along at h
  unfold signed
  by_cases hs : s = .buy
  · have hs' : s' ≠ .buy := fun heq => h (iff_of_true hs heq)
    rw [if_pos hs, if_neg hs', Int.neg_neg]
  · have hs' : s' = .buy := by
      by_contra hne
      exact h (iff_of_false hs hne)
    rw [if_neg hs, if_pos hs']

end Side

/-- At the start of the day nothing is open. -/
theorem reach_start (c : OrderManagerConf ω ι) (i : ι) (s : Side) :
    ((Trading.start c).om.book.position i).reach s
      = c.startQuantity i := by
  obtain ⟨sessions, records, hstart, -⟩ := OrderManager.start_frame c
  show ((OrderManager.start c).book.position i).reach s = _
  rw [hstart]
  unfold Position.reach
  split
  · exact add_zero _
  · exact sub_zero _

section Book

variable [DecidableEq ι] (b : Book ι) (esi : ι) (s : Side) (i : ι)
  (s' : Side)

theorem reach_moveOpen (p : Rat) (n : Int) :
    ((b.moveOpen esi s p n).position i).reach s'
      = (b.position i).reach s'
        + if i = esi ∧ s.Along s' then s'.signed n else 0 := by
  rw [Book.position_moveOpen]
  unfold Position.moveOpen Position.reach Side.Along Side.signed
  by_cases hi : i = esi
  · subst hi
    by_cases hs : s = .buy <;> by_cases hs' : s' = .buy <;>
      simp [hs, hs'] <;> omega
  · simp [hi]

theorem reach_trade (n : Nat) (price fee : Rat) :
    ((b.trade esi s n price fee).position i).reach s'
      = (b.position i).reach s' + if i = esi then s.signed n else 0 := by
  rw [Book.position_trade]
  unfold Position.reach Side.signed
  by_cases hi : i = esi
  · subst hi
    have hq := (b.position i).tradingQuantity_fill s n price fee
    have hvec := (b.position i).openVec_fill s n price fee
    simp only [Position.openVec, Prod.mk.injEq] at hvec
    obtain ⟨hl, hs, -, -⟩ := hvec
    rw [if_pos rfl, hq, hl, hs]
    split <;> split <;> simp <;> omega
  · simp [hi]

end Book

-- =========================================================== the condition

variable [DecidableEq ι] [DecidableEq ω]

/-- The order fits on top of the orders open on its side, if the
instrument is `i` and the order is accepted. -/
def Trading.RoomFor (c : OrderManagerConf ω ι) (i : ι) (t : Trading ω ι) :
    Event ω → Prop
  | .send w session a =>
      (t.om.order w).instrument = i → (t.om.send w session a).1 = true →
        ((t.om.desk.position i).reach (t.om.order w).side
          + (t.om.order w).side.signed (t.om.order w).size).natAbs
          ≤ (c.instrument i).positionLimit
  | _ => True

instance (c : OrderManagerConf ω ι) (i : ι) (t : Trading ω ι) :
    (e : Event ω) → Decidable (t.RoomFor c i e)
  | .send .. | .cancel .. | .destroy .. | .acknowledged .. | .rejected ..
  | .fill .. | .cancelled .. | .cancelRejected .. => by
      unfold Trading.RoomFor
      infer_instance

-- ===================================================== inside the limit

/-- Neither side's reach is beyond the limit. -/
structure Position.InReach (L : Nat) (pos : Position) : Prop where
  long : pos.reach .buy ≤ L
  short : -(L : Int) ≤ pos.reach .sell

/-- The quantity lies between the two reaches. -/
theorem Position.InReach.natAbs_le {L : Nat} {pos : Position}
    (h : pos.InReach L) (hl : 0 ≤ pos.openLongSize)
    (hs : 0 ≤ pos.openShortSize) : pos.tradingQuantity.natAbs ≤ L := by
  have hlong : pos.tradingQuantity + pos.openLongSize ≤ L := h.long
  have hshort : -(L : Int) ≤ pos.tradingQuantity - pos.openShortSize :=
    h.short
  omega

/-- What an event adds to the reach of the side of `s'`. -/
def Trading.reachGain (t : Trading ω ι) (i : ι) (s' : Side) :
    Event ω → Int
  | .send w session a =>
      if (t.om.send w session a).1 = true
          ∧ i = (t.om.order w).instrument
          ∧ (t.om.order w).side.Along s' then
        s'.signed (t.om.order w).size
      else 0
  | .rejected w _ _ =>
      if i = (t.om.order w).instrument ∧ (t.om.order w).side.Along s' then
        s'.signed (-(t.om.order w).size)
      else 0
  | .fill w size _ _ _ _ =>
      (if i = (t.om.order w).instrument then
        (t.om.order w).side.signed size else 0)
      + if i = (t.om.order w).instrument
          ∧ (t.om.order w).side.Along s' then
        s'.signed (-size)
      else 0
  | .cancelled w size _ _ =>
      if i = (t.om.order w).instrument ∧ (t.om.order w).side.Along s' then
        s'.signed (-size)
      else 0
  | _ => 0

/-- An order of another instrument adds nothing. -/
theorem reachGain_of_ne {t : Trading ω ι} {i : ι} {e : Event ω} (s' : Side)
    (hi : ¬ (t.om.order e.about).instrument = i) :
    t.reachGain i s' e = 0 := by
  have hne : ∀ {p : Prop}, ¬(i = (t.om.order e.about).instrument ∧ p) :=
    fun hand => hi hand.1.symm
  cases e with
  | send w session a => exact if_neg fun hall => hne hall.2
  | fill w size price ts exts feeCode =>
      have hi : i ≠ (t.om.order w).instrument := Ne.symm hi
      show (if _ then _ else 0) + (if _ then _ else (0 : Int)) = 0
      rw [if_neg hi, if_neg fun hand => hi hand.1, add_zero]
  | cancelled w size ts exts => exact if_neg hne
  | rejected w ts exts => exact if_neg hne
  | _ => rfl

theorem reach_step (t : Trading ω ι) (e : Event ω) (i : ι) (s' : Side) :
    ((t.step e).om.book.position i).reach s'
      = (t.om.book.position i).reach s' + t.reachGain i s' e := by
  cases e with
  | send w session a =>
      show ((t.om.send w session a).2.book.position i).reach s' = _
      rcases t.om.send_spec w session a with ⟨hr, side, hacc⟩ | ⟨hr, href⟩
      · have halong : side.Along s' ↔ (t.om.order w).side.Along s' := by
          unfold Side.Along
          rw [hacc.side_kept.buy]
        rw [hacc.book, reach_moveOpen]
        simp only [Trading.reachGain, hr, true_and, halong]
      · rw [href.book]
        simp [Trading.reachGain, hr]
  | cancel w newqty a =>
      show ((t.om.cancel w newqty a).2.book.position i).reach s' = _
      rcases t.om.cancel_cases w newqty a with heq | ⟨-, -, heq⟩
      · rw [heq]
        exact (add_zero _).symm
      · rw [heq]
        exact (add_zero _).symm
  | destroy w onlyIfTerminal sessionDestroys =>
      show ((t.om.destroy w onlyIfTerminal sessionDestroys).2.book.position
        i).reach s' = _
      rcases t.om.destroy_cases w onlyIfTerminal sessionDestroys with
        heq | ⟨-, heq⟩ | ⟨-, heq⟩ <;>
      · rw [heq]
        exact (add_zero _).symm
  | acknowledged w exchangeID size ts exts => exact (add_zero _).symm
  | rejected w ts exts =>
      show ((t.om.onRejected w ts exts).book.position i).reach s' = _
      rw [OrderManager.book_onRejected, reach_moveOpen]
      rfl
  | fill w size price ts exts feeCode =>
      show ((t.om.onFill w size price ts exts feeCode).book.position
        i).reach s' = _
      rw [OrderManager.book_onFill, reach_moveOpen, reach_trade, add_assoc]
      rfl
  | cancelled w size ts exts =>
      show ((t.om.onCancel w size ts exts).book.position i).reach s' = _
      rw [OrderManager.book_onCancel, reach_moveOpen]
      rfl
  | cancelRejected w ts exts => exact (add_zero _).symm

/-- A fill moves the reach of a side to the other side, if at all. -/
theorem signed_fill_le (s s' : Side) (n : Nat) :
    s'.signed (s.signed n + if s.Along s' then s'.signed (-n) else 0)
      ≤ 0 := by
  rw [Side.signed_add]
  by_cases h : s.Along s'
  · rw [if_pos h, h.signed, Side.signed_signed, Side.signed_signed]
    omega
  · rw [if_neg h, Side.signed_of_not_along h]
    unfold Side.signed
    split <;> omega

/-- Only an accepted order adds to the reach, and as it has room for it. -/
theorem signed_reach_step_le {c : OrderManagerConf ω ι} {i : ι}
    {t : Trading ω ι} {e : Event ω} (hroom : t.RoomFor c i e) (s' : Side)
    (h : s'.signed ((t.om.book.position i).reach s')
      ≤ (c.instrument i).positionLimit) :
    s'.signed (((t.step e).om.book.position i).reach s')
      ≤ (c.instrument i).positionLimit := by
  have hzero : s'.signed 0 = 0 := by
    unfold Side.signed
    split <;> rfl
  -- what takes open size away adds nothing
  have htake : ∀ (p : Prop) [Decidable p] (n : Nat),
      s'.signed (if p then s'.signed (-n) else 0) ≤ 0 := by
    intro p _ n
    split
    · rw [Side.signed_signed]
      omega
    · exact Int.le_of_eq hzero
  rw [reach_step, Side.signed_add]
  unfold Trading.reachGain
  cases e with
  | send w session a =>
      dsimp only
      split
      case isTrue hacc =>
        obtain ⟨hr, hi, hs⟩ := hacc
        have hle := hroom hi.symm hr
        rw [hs.reach, hs.signed] at hle
        have habs := s'.signed_le_natAbs ((t.om.desk.position i).reach s'
          + s'.signed (t.om.order w).size)
        rw [Side.signed_add] at habs
        exact Int.le_trans habs (Int.ofNat_le.mpr hle)
      case isFalse =>
        rw [hzero]
        omega
  | rejected w ts exts =>
      have hgain := htake (i = (t.om.order w).instrument
        ∧ (t.om.order w).side.Along s') (t.om.order w).size
      dsimp only
      omega
  | fill w size price ts exts feeCode =>
      dsimp only
      by_cases hi : i = (t.om.order w).instrument
      · have hgain := signed_fill_le (t.om.order w).side s' size
        simp only [hi, true_and, if_true]
        rw [← hi]
        omega
      · simp only [hi, false_and, if_false, add_zero, hzero]
        exact h
  | cancelled w size ts exts =>
      have hgain := htake (i = (t.om.order w).instrument
        ∧ (t.om.order w).side.Along s') size
      dsimp only
      omega
  | _ =>
      dsimp only
      omega

/-- With room for every accepted order, no event leaves the limit. -/
theorem inReach_step {c : OrderManagerConf ω ι} {i : ι} {t : Trading ω ι}
    {e : Event ω} (hroom : t.RoomFor c i e)
    (h : (t.om.book.position i).InReach (c.instrument i).positionLimit) :
    ((t.step e).om.book.position i).InReach
      (c.instrument i).positionLimit := by
  have hshort := h.short
  refine ⟨signed_reach_step_le hroom .buy h.long, ?_⟩
  have hle : -((t.step e).om.book.position i).reach .sell
      ≤ (c.instrument i).positionLimit :=
    signed_reach_step_le hroom .sell (by
      show -(t.om.book.position i).reach .sell ≤ _
      omega)
  omega

-- ============================================================== fill out

def Event.IsFill : Event ω → Prop
  | .fill .. => True
  | _ => False

theorem Event.IsFill.roomFor {e : Event ω} (he : e.IsFill)
    (c : OrderManagerConf ω ι) (i : ι) (t : Trading ω ι) :
    t.RoomFor c i e := by
  cases e with
  | fill w size price ts exts feeCode => trivial
  | _ => exact he.elim

/-- A fill of an order of the side of `s` turns open size into quantity. -/
theorem fill_along (t : Trading ω ι) {i : ι} {s : Side} {w : ω}
    (hi : i = (t.om.order w).instrument)
    (halong : (t.om.order w).side.Along s) (m : Nat) (price : Rat)
    (ts : Timestamp) (exts : Nat) (feeCode : FillFeeCode) :
    ((t.step (.fill w m price ts exts feeCode)).om.book.position i).openOn s
        = (t.om.book.position i).openOn s - m
      ∧ ((t.step (.fill w m price ts exts feeCode)).om.book.position
          i).reach s = (t.om.book.position i).reach s := by
  have hopen : ∀ pos : Position,
      pos.openOn s = s.signed (pos.reach s - pos.tradingQuantity) := by
    intro pos
    unfold Position.openOn Position.reach Side.signed
    split <;> omega
  have hreach : ((t.step (.fill w m price ts exts feeCode)).om.book.position
      i).reach s = (t.om.book.position i).reach s := by
    rw [reach_step]
    unfold Trading.reachGain
    dsimp only
    rw [if_pos hi, if_pos ⟨hi, halong⟩, halong.signed]
    unfold Side.signed
    split <;> omega
  have hq : ((t.step (.fill w m price ts exts feeCode)).om.book.position
      i).tradingQuantity
      = (t.om.book.position i).tradingQuantity + s.signed m := by
    show ((t.om.onFill w m price ts exts feeCode).book.position
      i).tradingQuantity = _
    rw [OrderManager.book_onFill, Book.position_moveOpen, if_pos hi,
      ← hi, ← halong.signed]
    have hpnl := ((t.om.book.trade i (t.om.order w).side m price
      0).position i).pnlPart_moveOpen (t.om.order w).side
      (t.om.order w).price (-m)
    refine (congrArg Position.PnlPart.quantity hpnl).trans ?_
    show ((t.om.book.trade i (t.om.order w).side m price 0).position
      i).tradingQuantity = _
    rw [Book.position_trade, if_pos rfl, Position.tradingQuantity_fill]
    unfold Side.signed
    split <;> omega
  refine ⟨?_, hreach⟩
  rw [hopen, hopen, hreach, hq]
  unfold Side.signed
  split <;> omega

variable [Fintype ι]

/-- Open size on a side is some live order's. -/
theorem ExposureInv.exists_open {t : Trading ω ι} (h : ExposureInv t)
    {i : ι} {s : Side} (hpos : 0 < (t.om.book.position i).openOn s) :
    ∃ w ∈ t.live, i = (t.om.order w).instrument
      ∧ (t.om.order w).side.Along s ∧ 0 < (t.om.order w).outstanding := by
  obtain ⟨hlong, hshort, -⟩ := h.sums i
  have hsells : ∀ w, EquityInstrument.sells (t.om.order w) = true →
      (t.om.order w).side ≠ .buy := by
    intro w hw hbuy
    unfold EquityInstrument.sells at hw
    rw [hbuy] at hw
    cases hw
  have hnonneg : ∀ w ∈ t.live, 0 ≤ (t.om.order w).outstanding := by
    intro w hw
    have := h.within w (Finset.mem_sdiff.mp hw).1
    unfold Order.outstanding
    omega
  unfold Position.openOn at hpos
  by_cases hs : s = .buy
  · rw [if_pos hs] at hpos
    have hne : (t.om.desk.position i).openLongSize ≠ 0 := ne_of_gt hpos
    rw [hlong] at hne
    obtain ⟨w, hw, hout⟩ := Finset.exists_ne_zero_of_sum_ne_zero hne
    obtain ⟨hlive, hi, hside⟩ := Finset.mem_filter.mp hw
    have := hnonneg w hlive
    exact ⟨w, hlive, hi.symm, ⟨fun _ => hs, fun _ => hside⟩, by omega⟩
  · rw [if_neg hs] at hpos
    have hne : (t.om.desk.position i).openShortSize ≠ 0 := ne_of_gt hpos
    rw [hshort] at hne
    obtain ⟨w, hw, hout⟩ := Finset.exists_ne_zero_of_sum_ne_zero hne
    obtain ⟨hlive, hi, hsell⟩ := Finset.mem_filter.mp hw
    have := hnonneg w hlive
    exact ⟨w, hlive, hi.symm,
      ⟨fun hb => absurd hb (hsells w hsell), fun hb => absurd hb hs⟩,
      by omega⟩

/-- From any accounted state there are fills, each of a live order and
within what is outstanding, after which the quantity is the reach. -/
theorem exists_fillOut (i : ι) (s : Side) (n : Nat) :
    ∀ {t : Trading ω ι}, ExposureInv t →
      (t.om.book.position i).openOn s = n →
      ∃ fills, Lib.Admits Trading.step Trading.Orderly t fills
        ∧ (∀ e ∈ fills, e.IsFill)
        ∧ ((Lib.run Trading.step t fills).om.book.position
            i).tradingQuantity = (t.om.book.position i).reach s := by
  -- the open size drops with every fill
  induction n using Nat.strong_induction_on with
  | _ n ih =>
      intro t h hopen
      by_cases hn : n = 0
      · refine ⟨[], trivial, by simp, ?_⟩
        show (t.om.book.position i).tradingQuantity = _
        unfold Position.openOn at hopen
        unfold Position.reach
        by_cases hs : s = .buy
        · rw [if_pos hs] at hopen ⊢
          omega
        · rw [if_neg hs] at hopen ⊢
          omega
      · obtain ⟨w, hlive, hi, halong, hout⟩ :=
          h.exists_open (i := i) (s := s) (by omega)
        obtain ⟨hsent, hnotrej⟩ := Finset.mem_sdiff.mp hlive
        let m := (t.om.order w).outstanding.toNat
        let e : Event ω := .fill w m 0 ⟨0, 0⟩ 0 .unknown
        have hm : (m : Int) = (t.om.order w).outstanding := by omega
        have hok : t.Orderly e := ⟨hsent, hnotrej, by omega⟩
        have hinv := exposureInv_step t e h hok
        obtain ⟨hopen', hreach⟩ := fill_along t hi halong m 0 ⟨0, 0⟩ 0
          .unknown
        -- the open size covers the order
        have hle : (m : Int) ≤ (t.om.book.position i).openOn s := by
          obtain ⟨-, -, hcover⟩ := h.covers i
          have hc := hcover w hlive hi.symm
          unfold Position.openOn
          rw [hm]
          simp only [show (t.om.order w).side = .buy ↔ s = .buy from halong]
            at hc
          exact hc
        obtain ⟨fills, hadm, hfills, hq⟩ := ih (n - m) (by omega) hinv (by
          rw [hopen']
          omega)
        refine ⟨e :: fills, ⟨hok, hadm⟩, ?_, ?_⟩
        · intro e' he'
          rcases List.mem_cons.mp he' with rfl | he'
          · trivial
          · exact hfills e' he'
        · rw [Lib.run_cons, hq, hreach]

-- ================================================================== runs

/-- Whatever fills, in whatever order, at whatever point of the run: the
quantity of `i` stays within its limit. -/
def Trading.LimitKept (c : OrderManagerConf ω ι) (i : ι)
    (t : Trading ω ι) (es : List (Event ω)) : Prop :=
  ∀ pre fills, pre <+: es →
    Lib.Admits Trading.step Trading.Orderly
      (Lib.run Trading.step t pre) fills →
    (∀ e ∈ fills, e.IsFill) →
    ((Lib.run Trading.step t (pre ++ fills)).om.desk.position
      i).tradingQuantity.natAbs ≤ (c.instrument i).positionLimit

/-- From an accounted state within reach of the limit, a run with room for
each accepted order ends inside the limit. -/
theorem natAbs_le_of_roomFor {c : OrderManagerConf ω ι} {i : ι}
    {t : Trading ω ι} {es : List (Event ω)} (h : ExposureInv t)
    (hreach : (t.om.book.position i).InReach (c.instrument i).positionLimit)
    (hes : Lib.Admits Trading.step Trading.Orderly t es)
    (hroom : Lib.Admits Trading.step (Trading.RoomFor c i) t es) :
    ((Lib.run Trading.step t es).om.desk.position
      i).tradingQuantity.natAbs ≤ (c.instrument i).positionLimit := by
  obtain ⟨hinv, hin⟩ := Lib.run_invariant
    (I := fun t => ExposureInv t
      ∧ (t.om.book.position i).InReach (c.instrument i).positionLimit)
    (fun t e hI hok =>
      ⟨exposureInv_step t e hI.1 hok.1, inReach_step hok.2 hI.2⟩)
    ⟨h, hreach⟩ (Lib.admits_and.mpr ⟨hes, hroom⟩)
  obtain ⟨hlong, hshort, -⟩ := hinv.covers i
  exact hin.natAbs_le hlong hshort

/-- If whatever fills after an accepted order keeps the limit, then there
was room for the order. -/
theorem roomFor_of_limitKept {c : OrderManagerConf ω ι} {i : ι}
    {t : Trading ω ι} {e : Event ω} (h : ExposureInv t)
    (hok : t.Orderly e) (hkept : t.LimitKept c i [e]) :
    t.RoomFor c i e := by
  cases e with
  | send w session a =>
      intro hi hr
      let s := (t.om.order w).side
      have hinv := exposureInv_step t (.send w session a) h hok
      have hopen : 0 ≤ ((t.step (.send w session a)).om.book.position
          i).openOn s := by
        obtain ⟨hlong, hshort, -⟩ := hinv.covers i
        unfold Position.openOn
        split
        · exact hlong
        · exact hshort
      -- fill everything that is open on the side of the order
      obtain ⟨fills, hadm, hfills, hq⟩ := exists_fillOut i s _
        hinv (Int.toNat_of_nonneg hopen).symm
      have hle := hkept [.send w session a] fills (List.prefix_refl _) hadm
        hfills
      have hgain : t.reachGain i s (.send w session a)
          = s.signed (t.om.order w).size := by
        unfold Trading.reachGain
        dsimp only
        rw [if_pos ⟨hr, hi.symm, Iff.rfl⟩]
      have hquantity : ((Lib.run Trading.step t
          ([.send w session a] ++ fills)).om.desk.position
          i).tradingQuantity
          = (t.om.desk.position i).reach s
            + s.signed (t.om.order w).size := by
        rw [Lib.run_append]
        refine hq.trans ?_
        rw [reach_step, hgain]
        rfl
      rw [hquantity] at hle
      exact hle
  | _ => trivial

/-- The limit is kept from an accounted state within reach of it exactly
when there is room for each accepted order. -/
theorem limitKept_iff (c : OrderManagerConf ω ι) (i : ι) :
    ∀ {t : Trading ω ι} {es : List (Event ω)}, ExposureInv t →
      (t.om.book.position i).InReach (c.instrument i).positionLimit →
      Lib.Admits Trading.step Trading.Orderly t es →
      (t.LimitKept c i es
        ↔ Lib.Admits Trading.step (Trading.RoomFor c i) t es) := by
  intro t es h hreach hes
  constructor
  · intro hkept
    induction es generalizing t with
    | nil => exact True.intro
    | cons e es ih =>
        have hroom : t.RoomFor c i e := by
          refine roomFor_of_limitKept h hes.1 fun pre fills hpre => ?_
          exact hkept pre fills
            (hpre.trans (List.prefix_append [e] es))
        refine ⟨hroom, ih (exposureInv_step t e h hes.1)
          (inReach_step hroom hreach) hes.2 fun pre fills hpre => ?_⟩
        exact hkept (e :: pre) fills (List.prefix_cons_inj e |>.mpr hpre)
  · rintro hroom pre fills ⟨rest, rfl⟩ hadm hfills
    obtain ⟨hpre, -⟩ := Lib.admits_append.mp hes
    obtain ⟨hroomPre, -⟩ := Lib.admits_append.mp hroom
    refine natAbs_le_of_roomFor h hreach
      (Lib.admits_append.mpr ⟨hpre, hadm⟩)
      (Lib.admits_append.mpr ⟨hroomPre, ?_⟩)
    exact Lib.Admits.of_forall_mem fun e he t => (hfills e he).roomFor c i t

-- ================================================================= result

/-- From a start inside the limit, the trading quantity of an instrument
keeps its limit through the whole day, whatever of what was accepted fills
and in whatever order, if and only if each accepted order fits on top of
the orders open on its side. -/
theorem position_limit_iff (c : OrderManagerConf ω ι) (i : ι)
    (es : List (Event ω))
    (hes : Lib.Admits Trading.step Trading.Orderly (Trading.start c) es)
    (hstart : (c.startQuantity i).natAbs
      ≤ (c.instrument i).positionLimit) :
    (Trading.start c).LimitKept c i es
      ↔ Lib.Admits Trading.step (Trading.RoomFor c i) (Trading.start c)
          es := by
  refine limitKept_iff c i (exposureInv_start c) ⟨?_, ?_⟩ hes
  · rw [reach_start]
    omega
  · rw [reach_start]
    omega

/-- A fill keeps what the run left room for. -/
theorem position_limit_iff_demo :
    let c : OrderManagerConf Bool Unit := .plain fun _ =>
      .dayLimit () .buy 5000 1
    (Trading.start c).LimitKept c ()
      [.send true [66] .taken, .send false [66] .taken,
        .fill true 5000 1 ⟨1, 0⟩ 1 .unknown] := by
  intro c
  exact (position_limit_iff c () _ (by decide +kernel)
    (by decide +kernel)).mpr (by decide +kernel)

/-- Two orders of 6000 are both accepted under a limit of 10000. -/
theorem position_limit_exceeded :
    let c : OrderManagerConf Bool Unit := .plain fun _ =>
      .dayLimit () .buy 6000 1
    let es : List (Event Bool) :=
      [.send true [66] .taken, .send false [66] .taken,
        .fill true 6000 1 ⟨1, 0⟩ 1 .unknown,
        .fill false 6000 1 ⟨2, 0⟩ 2 .unknown]
    (c.startQuantity ()).natAbs ≤ (c.instrument ()).positionLimit
      ∧ Lib.Admits Trading.step Trading.Orderly (Trading.start c) es
      ∧ (c.instrument ()).positionLimit
        < ((Lib.run Trading.step (Trading.start c) es).om.desk.position
            ()).tradingQuantity.natAbs := by
  decide +kernel

end TradingEngine.OE
