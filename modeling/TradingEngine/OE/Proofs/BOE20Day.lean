/-
What a BOE session makes of the open quantities the exchange reports.

# The invariant

An order the exchange acknowledged has the open size the exchange says,
and that is also what fills and cancels have left of its size (`Agrees`).
With the accounting of open exposure this gives the three results: the
open size, the bound on what is filled and cancelled, and a position that
carries nothing of a closed order (`Gone`).

# Where it breaks

Each handler works out its own amount. All of them agree with the
exchange but one: a restatement to zero cancels the whole quantity of the
order, and any other restatement nothing (`RestatesWhole`).

The position counts open shares in 32 bits. With 2^32 or more of them open
on one side of an instrument the member holds the rest modulo 2^32, and
the assertion that it covers what a message takes off fails although
there is plenty (`Covered`). A closed order is out of the member all the
same, since what one order adds and takes is less than 2^32 (`gone_iff`).

`Conserves` holds of a message exactly if both conditions do.
-/
import TradingEngine.OE.BOE20Day
import TradingEngine.OE.Proofs.Exposure

namespace TradingEngine.OE

open BOE20

-- ============================================================= one order

section Order

variable {ι : Type} {o : Order ι} {n : Nat}

/-- The order's own account of what is open: `n` by its open size and by
its counts, and nobody rejected it. -/
structure Order.Agrees (o : Order ι) (n : Nat) : Prop where
  openSize : o.openSize = n
  outstanding : o.outstanding = n
  state : o.state ≠ .remotelyRejected

/-- What is open of an order fits its size. -/
theorem Order.Agrees.le_size (h : o.Agrees n) :
    o.filledSize + o.cancelledSize + n = o.size := by
  have hout := h.outstanding
  unfold Order.outstanding at hout
  omega

/-- The open size is no more than the size, and fits 32 bits. -/
theorem Order.Agrees.openSize_lt (h : o.Agrees n) :
    o.openSize < 4294967296 := by
  have hsize := h.le_size
  have hlt := o.size_lt
  rw [h.openSize]
  omega

/-- The amount that two of the handlers work out. -/
theorem Order.Agrees.removed (h : o.Agrees n) {leavesQty : Nat}
    (hle : leavesQty ≤ n) :
    u32 ((o.openSize : Int) - leavesQty) = n - leavesQty := by
  rw [u32_sub_of_le h.openSize_lt (by rw [h.openSize]; exact hle),
    h.openSize]

/-- An acknowledgment of the whole size. -/
theorem agrees_ack (hfilled : o.filledSize = 0)
    (hcancelled : o.cancelledSize = 0) (exchangeID : Nat)
    (ts : Timestamp) (exts : Nat) :
    (orderUpdateOnAck o exchangeID o.size ts exts).Agrees o.size := by
  refine ⟨rfl, ?_, nofun⟩
  show (o.size : Int) - o.filledSize - o.cancelledSize = o.size
  omega

/-- A fill of no more than is open. -/
theorem Order.Agrees.fill (h : o.Agrees n) {size : Nat} (hle : size ≤ n)
    (price : Rat) (ts : Timestamp) (exts : Nat) (feeCode : FillFeeCode) :
    (orderUpdateOnFill o size price ts exts feeCode).Agrees
      (n - size) := by
  have hsize := h.le_size
  refine ⟨?_, ?_, ?_⟩
  · rw [openSize_fill h.openSize_lt (by rw [h.openSize]; exact hle),
      h.openSize]
  · rw [outstanding_fill (by omega), h.outstanding]
    omega
  · show (if _ then OrderState.filled else .partiallyFilled) ≠ _
    split <;> decide

/-- A cancel of no more than is open. -/
theorem Order.Agrees.cancel (h : o.Agrees n) {size : Nat} (hle : size ≤ n)
    (ts : Timestamp) (exts : Nat) :
    (orderUpdateOnCancel o size ts exts).Agrees (n - size) := by
  have hsize := h.le_size
  refine ⟨?_, ?_, ?_⟩
  · rw [openSize_cancel h.openSize_lt, h.openSize]
  · rw [outstanding_cancel (by omega), h.outstanding]
    omega
  · rw [orderUpdateOnCancel_eq]
    dsimp only
    split <;> decide

/-- Written to without a change of what is open: a request, or the answer
to one. -/
structure Order.Quiet (o o' : Order ι) : Prop where
  counts : (o'.size, o'.filledSize, o'.cancelledSize, o'.openSize)
    = (o.size, o.filledSize, o.cancelledSize, o.openSize)
  state : o'.state = .remotelyRejected → o.state = .remotelyRejected

/-- An order that is not touched. -/
theorem Order.Quiet.refl (o : Order ι) : o.Quiet o := ⟨rfl, id⟩

/-- A handler that only notes a state or an id keeps the account. -/
theorem Order.Agrees.quiet {o' : Order ι} (h : o.Agrees n)
    (hquiet : o.Quiet o') : o'.Agrees n := by
  have hcounts := hquiet.counts
  simp only [Prod.mk.injEq] at hcounts
  obtain ⟨hsize, hfilled, hcancelled, hopen⟩ := hcounts
  refine ⟨hopen.trans h.openSize, ?_, fun hstate => ?_⟩
  · rw [← h.outstanding]
    unfold Order.outstanding
    rw [hsize, hfilled, hcancelled]
  · exact h.state (hquiet.state hstate)

end Order

-- ========================================================== one position

section Position

variable {ω ι : Type} [DecidableEq ω] [DecidableEq ι] {t : Trading ω ι}
  {w : ω}

/-- The order has no part in the open size of its instrument: the members
hold what the other live orders come to. -/
def Trading.Gone (t : Trading ω ι) (w : ω) : Prop :=
  let i := (t.om.order w).instrument
  let others := ∑ v ∈ t.live.erase w, (t.om.order v).share i
  (t.om.desk.position i).longOpenSize = u32 others.1
    ∧ (t.om.desk.position i).shortOpenSize = u32 others.2.1

/-- What is less than the range of the type shows in it. -/
theorem u32_add_eq_iff {a n : Int} (hlow : -4294967296 < n)
    (hhigh : n < 4294967296) : u32 (a + n) = u32 a ↔ n = 0 := by
  unfold u32
  omega

/-- A position of the other orders and `n` more has lost the order exactly
if there is no more. -/
theorem Trading.gone_iff {s : Side} {p : Rat} {n : Int}
    (hlow : -4294967296 < n) (hhigh : n < 4294967296)
    (h : (t.om.desk.position (t.om.order w).instrument).openVec
      = ∑ v ∈ t.live.erase w,
          (t.om.order v).share (t.om.order w).instrument
        + openShare s p n) :
    t.Gone w ↔ n = 0 := by
  have hlong : (t.om.desk.position (t.om.order w).instrument).openLongSize
      = _ := congrArg Prod.fst h
  have hshort : (t.om.desk.position (t.om.order w).instrument).openShortSize
      = _ := congrArg (fun x : OpenVec => x.2.1) h
  have hn := fun a => u32_add_eq_iff (a := a) hlow hhigh
  unfold Trading.Gone Position.longOpenSize Position.shortOpenSize
  dsimp only
  rw [hlong, hshort, Prod.fst_add, Prod.snd_add, Prod.fst_add]
  unfold openShare
  split
  · simp [hn]
  · simp [hn]

variable [Fintype ι]

/-- What is outstanding of a live order fits its type. -/
theorem ExposureInv.outstanding_range (h : ExposureInv t)
    (hw : w ∈ t.live) :
    0 ≤ (t.om.order w).outstanding
      ∧ (t.om.order w).outstanding < 4294967296 := by
  have hwithin := h.within w (Finset.mem_sdiff.mp hw).1
  have hsize := (t.om.order w).size_lt
  unfold Order.outstanding
  omega

/-- While the accounting holds, that is when nothing is outstanding. -/
theorem ExposureInv.gone_iff (h : ExposureInv t) (hw : w ∈ t.live) :
    t.Gone w ↔ (t.om.order w).outstanding = 0 := by
  have hpos := h.accounted.position (t.om.order w).instrument
  rw [← Finset.sum_erase_add _ _ hw] at hpos
  obtain ⟨hnonneg, hlt⟩ := h.outstanding_range hw
  refine Trading.gone_iff (s := (t.om.order w).side)
    (p := (t.om.order w).price) (by omega) hlt (hpos.trans ?_)
  congr 1
  exact if_pos rfl

/-- The member of an order's side holds what is open beside it. -/
theorem ExposureInv.removesHeld_iff (h : ExposureInv t) (w : ω)
    (size : Nat) :
    FirmRiskCheck.removesHeld
        (t.om.desk.position (t.om.order w).instrument) (t.om.order w) size
      ↔ size ≤ u32 (t.openBeside w) := by
  obtain ⟨hlong, hshort, -⟩ := h.sums (t.om.order w).instrument
  unfold FirmRiskCheck.removesHeld Position.subOpenBuysHeld
    Position.subOpenSellsHeld Position.longOpenSize Position.shortOpenSize
    Trading.openBeside
  by_cases hside : (t.om.order w).side = .buy
  · rw [if_pos hside, hlong]
    simp only [hside, iff_true, ge_iff_le]
  · have hsells : ∀ v ∈ t.live,
        ((t.om.order v).instrument = (t.om.order w).instrument
          ∧ EquityInstrument.sells (t.om.order v) = true)
        ↔ ((t.om.order v).instrument = (t.om.order w).instrument
          ∧ ((t.om.order v).side = .buy ↔ (t.om.order w).side = .buy)) := by
      intro v hv
      have hknown := h.known v (Finset.mem_sdiff.mp hv).1
      rw [EquityInstrument.sells_iff_ne_buy hknown]
      simp only [hside, iff_false, ne_eq]
    rw [if_neg hside, hshort, Finset.filter_congr hsells]

/-- The accounting depends on the order manager and three sets. -/
theorem ExposureInv.congr {t' : Trading ω ι} (h : ExposureInv t)
    (hom : t'.om = t.om) (hseen : t'.seen = t.seen)
    (hsent : t'.sent = t.sent) (hrejected : t'.rejected = t.rejected) :
    ExposureInv t' := by
  obtain ⟨om, seen, sent, acked, rejected, destroyed⟩ := t
  obtain ⟨om', seen', sent', acked', rejected', destroyed'⟩ := t'
  obtain rfl : om' = om := hom
  obtain rfl : seen' = seen := hseen
  obtain rfl : sent' = sent := hsent
  obtain rfl : rejected' = rejected := hrejected
  exact ⟨h.1, h.2, h.3, h.4, h.5, h.6⟩

end Position

namespace BOE20Day

variable {ι : Type} [DecidableEq ι]

-- ============================================================ one message

/-- What the session reports of the order to the order manager. -/
def reported (o : Order ι) (w : ℕ) (ts : Timestamp)
    (m : SequencedMessage) : Option (Event ℕ) :=
  let cancel := fun size : Nat =>
    Event.cancelled w size ts m.transactionTime
  match m.body with
  | .orderAcknowledgment orderID opt =>
      some (.acknowledged w orderID opt.leavesQty ts m.transactionTime)
  | .orderExecution lastShares lastPx =>
      some (.fill w lastShares (priceToDouble lastPx) ts m.transactionTime
        .unknown)
  | .orderCancelled leavesQty =>
      if o.state ≠ .remotelyRejected then
        some (cancel (u32 ((o.openSize : Int) - leavesQty)))
      else none
  | .orderModified leavesQty =>
      if leavesQty ≠ o.openSize then
        some (cancel (u32 ((o.openSize : Int) - leavesQty)))
      else none
  | .orderRestated orderQty leavesQty =>
      if leavesQty = 0 then some (cancel orderQty) else none
  | .tradeCancelOrCorrect => none

/-- A day after a report, or without one. -/
def after (t : Trading ℕ ι) (e? : Option (Event ℕ)) : Trading ℕ ι :=
  { t with om := e?.elim t.om fun e => (t.step e).om }

variable {s : BOE20Session ι} {d : BOE20Day ι} {w : ℕ} {ts : Timestamp}
  {m : SequencedMessage}

omit [DecidableEq ι] in
/-- The messages that work on a known order alone. -/
theorem handleKnown_eq {om : OrderManager ℕ ι}
    (hbody : ∀ orderID opt, m.body ≠ .orderAcknowledgment orderID opt) :
    BOE20Session.handleKnown om ts m w
      = (reported (om.order w) w ts m).elim [] BOE20Session.report := by
  unfold BOE20Session.handleKnown reported
  cases hb : m.body with
  | orderAcknowledgment orderID opt => exact absurd hb (hbody _ _)
  | orderExecution lastShares lastPx => rfl
  | orderCancelled leavesQty =>
      dsimp only
      split <;> rfl
  | orderModified leavesQty =>
      dsimp only
      split <;> rfl
  | orderRestated orderQty leavesQty =>
      dsimp only
      split <;> rfl
  | tradeCancelOrCorrect => rfl

omit [DecidableEq ι] in
/-- The effects of a message about an order the session has. -/
theorem effects_eq
    (hget : s.getOrder d.trading.om m.clOrdID.localID = some w)
    (hcons : d.Consistent w m) :
    s.effects d.process ts m
      = .storeSeqnum m.header
          :: (reported (d.trading.om.order w) w ts m).elim []
            BOE20Session.report := by
  have hget : s.getOrder d.process.om m.clOrdID.localID = some w := hget
  unfold BOE20Session.effects
  congr 1
  cases hbody : m.body with
  | orderAcknowledgment orderID opt =>
      unfold Consistent at hcons
      rw [hbody] at hcons
      unfold BOE20Session.handleOrderAcknowledgment reported
      rw [hget, hbody]
      dsimp only
      rw [if_neg hcons.2.2]
      rfl
  | _ =>
      dsimp only
      rw [hget]
      exact handleKnown_eq (by simp [hbody])

/-- What a message makes of the day. -/
theorem step_message
    (hget : s.getOrder d.trading.om m.clOrdID.localID = some w)
    (hcons : d.Consistent w m)
    (hreport : ∀ e ∈ reported (d.trading.om.order w) w ts m,
      e.reportOn = some w) :
    (d.step s (.message ts m)).trading
        = after d.trading (reported (d.trading.om.order w) w ts m)
      ∧ (d.step s (.message ts m)).leaves
        = Function.update d.leaves w (m.body.leavesAfter (d.leaves w)) := by
  have heff : s.effects d.process ts m = _ := effects_eq hget hcons
  have hom : (s.handle d.process ⟨.active, ts, m⟩).om
      = (reported (d.trading.om.order w) w ts m).elim d.trading.om
          fun e => (d.trading.step e).om := by
    show (d.process.performAll (s.effects d.process ts m)).om = _
    rw [heff]
    cases hrep : reported (d.trading.om.order w) w ts m with
    | none => rfl
    | some e =>
        show (d.trading.om.update e).logReport e = (d.trading.step e).om
        exact (d.trading.step_report (hreport e hrep)).symm
  constructor
  · show { d.trading with
      om := (s.handle d.process ⟨.active, ts, m⟩).om } = _
    rw [hom]
    rfl
  · unfold step
    dsimp only
    rw [hget]

-- ========================================================== the invariant

variable [Fintype ι]

/-- What the day keeps, as long as restatements are of whole orders. -/
structure Inv (s : BOE20Session ι) (d : BOE20Day ι) : Prop where
  exposure : ExposureInv d.trading
  /-- The exchange and the order agree on what is open. -/
  acked : ∀ w n, d.leaves w = some n →
    w ∈ d.trading.live ∧ (d.trading.om.order w).session = some s.name
      ∧ (d.trading.om.order w).Agrees n
  /-- Nothing happens to an order before its acknowledgment. -/
  unacked : ∀ w ∈ d.trading.live,
    (d.trading.om.order w).session = some s.name → d.leaves w = none →
      (d.trading.om.order w).filledSize = 0
        ∧ (d.trading.om.order w).cancelledSize = 0

/-- A message was answered with one report or none, and the order has `n`
open after it. -/
structure Answered (t : Trading ℕ ι) (w : ℕ) (e? : Option (Event ℕ))
    (n : Nat) : Prop where
  about : ∀ e ∈ e?, e.reportOn = some w ∧ e.about = w
  orderly : ∀ e ∈ e?, t.Orderly e
  /-- It is no reject. -/
  still : ∀ e ∈ e?, (t.step e).seen = t.seen ∧ (t.step e).sent = t.sent
    ∧ (t.step e).rejected = t.rejected
  session : ((after t e?).om.order w).session = (t.om.order w).session
  agrees : ((after t e?).om.order w).Agrees n

variable {t : Trading ℕ ι} {n : Nat}

omit [Fintype ι] in
/-- A message that is dropped changes nothing. -/
theorem answered_none (h : (t.om.order w).Agrees n) :
    Answered t w none n :=
  ⟨nofun, nofun, nofun, rfl, h⟩

omit [DecidableEq ι] [Fintype ι] in
/-- A fill or a cancel of no more than is open is in order. -/
theorem within_open (hlive : w ∈ t.live) {n size : Nat}
    (h : (t.om.order w).Agrees n) (hle : size ≤ n) :
    w ∈ t.sent ∧ w ∉ t.rejected
      ∧ (size : Int) ≤ (t.om.order w).outstanding := by
  obtain ⟨hsent, hrejected⟩ := Finset.mem_sdiff.mp hlive
  refine ⟨hsent, hrejected, ?_⟩
  rw [h.outstanding]
  omega

omit [Fintype ι] in
/-- One report, which writes `o` to the order. -/
theorem answered_some {e : Event ℕ} {o : Order ι}
    (habout : e.reportOn = some w ∧ e.about = w) (hok : t.Orderly e)
    (hstill : (t.step e).seen = t.seen ∧ (t.step e).sent = t.sent
      ∧ (t.step e).rejected = t.rejected)
    (ho : (t.step e).om.order w = o)
    (hsession : o.session = (t.om.order w).session) (h : o.Agrees n) :
    Answered t w (some e) n := by
  have ho' : (after t (some e)).om.order w = o := ho
  refine ⟨?_, ?_, ?_, ?_, ?_⟩
  · rintro e' ⟨rfl⟩
    exact habout
  · rintro e' ⟨rfl⟩
    exact hok
  · rintro e' ⟨rfl⟩
    exact hstill
  · rw [ho', hsession]
  · rw [ho']
    exact h

omit [Fintype ι] in
/-- A cancel down to what is left leaves that open. -/
theorem answered_cancel (hlive : w ∈ t.live) {leaves : Nat}
    (h : (t.om.order w).Agrees n) (hle : leaves ≤ n) (ts : Timestamp)
    (exts : Nat) :
    Answered t w (some (.cancelled w (n - leaves) ts exts)) leaves := by
  have hsize : n - leaves ≤ n := Nat.sub_le n leaves
  have hagrees := h.cancel hsize ts exts
  rw [Nat.sub_sub_self hle] at hagrees
  refine answered_some ⟨rfl, rfl⟩ (within_open hlive h hsize)
    ⟨rfl, rfl, rfl⟩ (Function.update_self ..) ?_ hagrees
  rw [orderUpdateOnCancel_eq]

omit [Fintype ι] in
/-- Every message but a restatement of another kind is answered so that
the order has open what the exchange says. -/
theorem message_answered
    (hacked : ∀ n, d.leaves w = some n → (d.trading.om.order w).Agrees n)
    (hunacked : d.leaves w = none →
      (d.trading.om.order w).filledSize = 0
        ∧ (d.trading.om.order w).cancelledSize = 0)
    (hget : s.getOrder d.trading.om m.clOrdID.localID = some w)
    (hlive : w ∈ d.trading.live) (hcons : d.Consistent w m)
    (hwhole : d.RestatesWhole s (.message ts m)) :
    ∃ n, m.body.leavesAfter (d.leaves w) = some n
      ∧ Answered d.trading w (reported (d.trading.om.order w) w ts m)
          n := by
  have hsent := (Finset.mem_sdiff.mp hlive).1
  unfold Consistent at hcons
  unfold RestatesWhole at hwhole
  dsimp only at hwhole
  rw [hget] at hwhole
  unfold reported MessageBody.leavesAfter
  cases hbody : m.body with
  | orderAcknowledgment orderID opt =>
      rw [hbody] at hcons
      obtain ⟨hnone, hqty, -⟩ := hcons
      obtain ⟨hfilled, hcancelled⟩ := hunacked hnone
      refine ⟨_, rfl, ?_⟩
      dsimp only
      rw [hqty]
      exact answered_some ⟨rfl, rfl⟩ ⟨hsent, rfl⟩ ⟨rfl, rfl, rfl⟩
        (Function.update_self ..) rfl
        (agrees_ack hfilled hcancelled orderID ts m.transactionTime)
  | orderExecution lastShares lastPx =>
      rw [hbody] at hcons
      obtain ⟨n, hn, hle⟩ := hcons
      have hagrees := hacked n hn
      refine ⟨n - lastShares, by rw [hn]; rfl, ?_⟩
      exact answered_some ⟨rfl, rfl⟩ (within_open hlive hagrees hle)
        ⟨rfl, rfl, rfl⟩ (Function.update_self ..) rfl
        (hagrees.fill hle (priceToDouble lastPx) ts m.transactionTime
          .unknown)
  | orderCancelled leavesQty =>
      rw [hbody] at hcons
      obtain ⟨n, hn, hle⟩ := hcons
      have hagrees := hacked n hn
      refine ⟨leavesQty, rfl, ?_⟩
      dsimp only
      rw [if_pos hagrees.state, hagrees.removed hle]
      exact answered_cancel hlive hagrees hle ts m.transactionTime
  | orderModified leavesQty =>
      rw [hbody] at hcons
      obtain ⟨n, hn, hle⟩ := hcons
      have hagrees := hacked n hn
      refine ⟨leavesQty, rfl, ?_⟩
      dsimp only
      split
      case isTrue =>
        rw [hagrees.removed hle]
        exact answered_cancel hlive hagrees hle ts m.transactionTime
      case isFalse hsame =>
        rw [not_not, hagrees.openSize] at hsame
        rw [hsame]
        exact answered_none hagrees
  | orderRestated orderQty leavesQty =>
      rw [hbody] at hcons hwhole
      obtain ⟨hqty, n, hn, -⟩ := hcons
      have hagrees := hacked n hn
      refine ⟨leavesQty, rfl, ?_⟩
      dsimp only
      rcases hwhole with ⟨hpos, hkept⟩ | ⟨hzero, hall⟩
      · rw [if_neg hpos]
        obtain rfl := Option.some.inj (hn.symm.trans hkept)
        exact answered_none hagrees
      · have hsize := Option.some.inj (hn.symm.trans hall)
        rw [if_pos hzero, hqty, ← hsize, hzero]
        exact answered_cancel hlive hagrees (Nat.zero_le n) ts
          m.transactionTime
  | tradeCancelOrCorrect =>
      rw [hbody] at hcons
      obtain ⟨n, hn⟩ := Option.ne_none_iff_exists'.mp hcons
      exact ⟨n, hn, answered_none (hacked n hn)⟩

-- ================================================================ a step

/-- The exposures stay accounted for. -/
theorem Answered.exposure {e? : Option (Event ℕ)} (h : ExposureInv t)
    (hans : Answered t w e? n) : ExposureInv (after t e?) := by
  cases e? with
  | none => exact h.congr rfl rfl rfl rfl
  | some e =>
      obtain ⟨hseen, hsent, hrejected⟩ := hans.still e rfl
      have hstep := exposureInv_step t e h (hans.orderly e rfl)
      exact hstep.congr rfl hseen.symm hsent.symm hrejected.symm

omit [Fintype ι] in
/-- Other orders are not written to. -/
theorem Answered.order_of_ne {e? : Option (Event ℕ)} {v : ℕ}
    (hans : Answered t w e? n) (hne : v ≠ w) :
    (after t e?).om.order v = t.om.order v := by
  cases e? with
  | none => rfl
  | some e =>
      refine t.step_order_of_ne ?_
      rw [(hans.about e rfl).2]
      exact Ne.symm hne

/-- A message keeps the invariant, and is answered. -/
theorem inv_message (h : Inv s d)
    (hget : s.getOrder d.trading.om m.clOrdID.localID = some w)
    (hlive : w ∈ d.trading.live) (hcons : d.Consistent w m)
    (hwhole : d.RestatesWhole s (.message ts m)) :
    Inv s (d.step s (.message ts m))
      ∧ ∃ n, (d.step s (.message ts m)).leaves w = some n
        ∧ Answered d.trading w (reported (d.trading.om.order w) w ts m)
            n := by
  have hsession := (BOE20Session.getOrder_eq_some.mp hget).2
  obtain ⟨n, hn, hans⟩ := message_answered
    (fun n hn => (h.acked w n hn).2.2) (h.unacked w hlive hsession) hget
    hlive hcons hwhole
  obtain ⟨htrading, hleaves⟩ := step_message hget hcons
    fun e he => (hans.about e he).1
  have hself : (d.step s (.message ts m)).leaves w = some n := by
    rw [hleaves, Function.update_self, hn]
  have hother : ∀ v, v ≠ w →
      (d.step s (.message ts m)).leaves v = d.leaves v := by
    intro v hv
    rw [hleaves, Function.update_of_ne hv]
  refine ⟨⟨?_, fun v k hk => ?_, fun v hv hvs hnone => ?_⟩, n, hself, hans⟩
  · rw [htrading]
    exact hans.exposure h.exposure
  · rw [htrading]
    by_cases hvw : v = w
    · subst hvw
      obtain rfl := Option.some.inj (hself.symm.trans hk)
      exact ⟨hlive, hans.session.trans hsession, hans.agrees⟩
    · rw [hother v hvw] at hk
      rw [hans.order_of_ne hvw]
      exact h.acked v k hk
  · have hvw : v ≠ w := by
      rintro rfl
      rw [hself] at hnone
      cases hnone
    rw [htrading] at hv hvs ⊢
    rw [hother v hvw] at hnone
    rw [hans.order_of_ne hvw] at hvs ⊢
    exact h.unacked v hv hvs hnone

/-- Other things that happen: orders the exchange has open stay live and
as they are, and new ones have nothing on them. -/
theorem Inv.frame (h : Inv s d) {t' : Trading ℕ ι} (hexp : ExposureInv t')
    (hkept : ∀ v n, d.leaves v = some n → v ∈ t'.live)
    (horder : ∀ v ∈ t'.live,
      (v ∈ d.trading.live
        ∧ (t'.om.order v).session = (d.trading.om.order v).session
        ∧ ((d.trading.om.order v).session = some s.name →
            (d.trading.om.order v).Quiet (t'.om.order v)))
      ∨ (d.leaves v = none ∧ (t'.om.order v).filledSize = 0
          ∧ (t'.om.order v).cancelledSize = 0)) :
    Inv s { d with trading := t' } := by
  refine ⟨hexp, fun v n hn => ?_, fun v hv hvs hnone => ?_⟩
  · obtain ⟨-, hsession, hagrees⟩ := h.acked v n hn
    have hv := hkept v n hn
    rcases horder v hv with ⟨-, hsame, hquiet⟩ | ⟨hnone, -⟩
    · exact ⟨hv, hsame.trans hsession, hagrees.quiet (hquiet hsession)⟩
    · rw [hnone] at hn
      cases hn
  · rcases horder v hv with ⟨hold, hsame, hquiet⟩ | ⟨-, hcounts⟩
    · have hsession := hsame.symm.trans hvs
      have hcounts := (hquiet hsession).counts
      simp only [Prod.mk.injEq] at hcounts
      obtain ⟨-, hfilled, hcancelled, -⟩ := hcounts
      show (t'.om.order v).filledSize = 0 ∧ (t'.om.order v).cancelledSize = 0
      rw [hfilled, hcancelled]
      exact h.unacked v hold hsession hnone
    · exact hcounts

/-- One order was written to, quietly if it is the session's. -/
theorem Inv.touch (h : Inv s d) {t' : Trading ℕ ι} (hexp : ExposureInv t')
    (hlive : t'.live = d.trading.live) (w : ℕ)
    (hrest : ∀ v, v ≠ w → t'.om.order v = d.trading.om.order v)
    (hsession : (t'.om.order w).session = (d.trading.om.order w).session)
    (hquiet : (d.trading.om.order w).session = some s.name →
      (d.trading.om.order w).Quiet (t'.om.order w)) :
    Inv s { d with trading := t' } := by
  refine h.frame hexp (fun v n hn => ?_) fun v hv => .inl ?_
  · rw [hlive]
    exact (h.acked v n hn).1
  · rw [hlive] at hv
    by_cases hvw : v = w
    · subst hvw
      exact ⟨hv, hsession, hquiet⟩
    · rw [hrest v hvw]
      exact ⟨hv, rfl, fun _ => .refl _⟩

/-- An order joins with nothing on it, or does not join. -/
theorem inv_send (h : Inv s d) (w : ℕ) (session : Bytes)
    (a : OrderManager.SendAnswer) (hw : w ∉ d.trading.seen) :
    Inv s (d.step s (.call (.send w session a))) := by
  have hexp := exposureInv_send h.exposure session a hw
  have hrest : ∀ v, v ≠ w →
      (d.trading.step (.send w session a)).om.order v
        = d.trading.om.order v := fun v hv =>
    d.trading.step_order_of_ne (Ne.symm hv)
  have hold : ∀ v ∈ d.trading.live, v ≠ w := by
    rintro v hv rfl
    exact hw (h.exposure.live_seen hv)
  refine h.frame hexp (fun v n hn => ?_) fun v hv => ?_
  · obtain ⟨hlive, -⟩ := h.acked v n hn
    obtain ⟨hsent, hrejected⟩ := Finset.mem_sdiff.mp hlive
    refine Finset.mem_sdiff.mpr ⟨?_, hrejected⟩
    exact (d.trading.mem_sent_send w session a v).mpr (.inl hsent)
  · obtain ⟨hsent, hrejected⟩ := Finset.mem_sdiff.mp hv
    by_cases hvw : v = w
    · right
      subst hvw
      obtain ⟨hfilled, hcancelled⟩ := h.exposure.fresh v hw
      obtain ⟨o, hwrites⟩ := d.trading.om.send_writes v session a
      have ho : (d.trading.step (.send v session a)).om.order v = o := by
        show (d.trading.om.send v session a).2.order v = o
        rw [hwrites.order, Function.update_self]
      refine ⟨?_, ?_, ?_⟩
      · cases hn : d.leaves v with
        | none => rfl
        | some n => exact absurd rfl (hold v (h.acked v n hn).1)
      · rw [ho, hwrites.filledSize, hfilled]
      · rw [ho, hwrites.cancelledSize, hcancelled]
    · left
      rw [hrest v hvw]
      have hsent := (d.trading.mem_sent_send w session a v).mp hsent
      have hsent : v ∈ d.trading.sent :=
        hsent.resolve_right fun hboth => hvw hboth.1
      exact ⟨Finset.mem_sdiff.mpr ⟨hsent, hrejected⟩, rfl,
        fun _ => .refl _⟩

/-- Whatever else happens keeps the invariant. -/
theorem inv_call (h : Inv s d) {e : Event ℕ} (hok : d.trading.Orderly e)
    (helse : d.Elsewhere s e) : Inv s (d.step s (.call e)) := by
  have hexp := exposureInv_step d.trading e h.exposure hok
  have hrest : ∀ v, v ≠ e.about →
      (d.trading.step e).om.order v = d.trading.om.order v := fun v hv =>
    d.trading.step_order_of_ne (Ne.symm hv)
  cases e with
  | send w session a => exact inv_send h w session a hok
  | cancel w newqty a =>
      rcases d.trading.step_cancel_order w newqty a with ho | ho
      · refine h.touch hexp rfl w hrest (by rw [ho]) fun _ => ?_
        rw [ho]
        exact .refl _
      · refine h.touch hexp rfl w hrest (by rw [ho]; rfl) fun _ => ?_
        rw [ho]
        exact ⟨rfl, nofun⟩
  | destroy w onlyIfTerminal sessionDestroys => exact hok.elim
  | acknowledged w exchangeID size ts exts =>
      refine h.touch hexp rfl w hrest ?_ fun hs => absurd hs helse
      show (Function.update d.trading.om.order w _ w).session = _
      rw [Function.update_self]
      rfl
  | rejected w ts exts =>
      refine h.frame hexp (fun v n hn => ?_) fun v hv => .inl ?_
      · obtain ⟨hlive, hsession, -⟩ := h.acked v n hn
        obtain ⟨hsent, hrejected⟩ := Finset.mem_sdiff.mp hlive
        have hvw : v ≠ w := by
          rintro rfl
          rw [helse hsession] at hn
          cases hn
        refine Finset.mem_sdiff.mpr ⟨hsent, ?_⟩
        exact fun hmem => (Finset.mem_insert.mp hmem).elim hvw hrejected
      · obtain ⟨hsent, hrejected⟩ := Finset.mem_sdiff.mp hv
        have hout : v ∉ insert w d.trading.rejected := hrejected
        rw [Finset.mem_insert, not_or] at hout
        rw [hrest v hout.1]
        exact ⟨Finset.mem_sdiff.mpr ⟨hsent, hout.2⟩, rfl,
          fun _ => .refl _⟩
  | fill w size price ts exts feeCode =>
      refine h.touch hexp rfl w hrest ?_ fun hs => absurd hs helse
      show (Function.update d.trading.om.order w _ w).session = _
      rw [Function.update_self]
      rfl
  | cancelled w size ts exts =>
      refine h.touch hexp rfl w hrest ?_ fun hs => absurd hs helse
      show (Function.update d.trading.om.order w _ w).session = _
      rw [Function.update_self, orderUpdateOnCancel_eq]
  | cancelRejected w ts exts =>
      have ho : (d.trading.step (.cancelRejected w ts exts)).om.order w
          = orderUpdateOnCancelRejected (d.trading.om.order w) ts exts :=
        Function.update_self ..
      refine h.touch hexp rfl w hrest (by rw [ho]; rfl) fun _ => ?_
      rw [ho]
      exact ⟨rfl, nofun⟩

-- =========================================================== conservation

/-- What a message about `w` leaves behind: the open size the exchange has
of it, no more filled and cancelled than its size, nothing of it in the
open size of its instrument once it is closed, and on the way there no
failed assertion. -/
def Conserves (s : BOE20Session ι) (d : BOE20Day ι) : Move → Prop
  | .call _ => True
  | .message ts m =>
      ∀ w, s.getOrder d.trading.om m.clOrdID.localID = some w →
        let d' := d.step s (.message ts m)
        let o := d'.trading.om.order w
        d'.leaves w = some o.openSize
          ∧ o.filledSize + o.cancelledSize ≤ o.size
          ∧ (d'.leaves w = some 0 → d'.trading.Gone w)
          ∧ ∀ e, Effect.update e ∈ s.effects d.process ts m →
              d.trading.AssertsHeld e

/-- A cancel takes the order out of its position exactly if it is of all
that was outstanding. -/
theorem gone_after_cancel (h : ExposureInv t) (hlive : w ∈ t.live)
    {size : Nat} (hsize : size < 4294967296) (ts : Timestamp)
    (exts : Nat) :
    (after t (some (.cancelled w size ts exts))).Gone w
      ↔ (t.om.order w).outstanding = size := by
  let o := t.om.order w
  let t' := after t (some (.cancelled w size ts exts))
  have hinst : (t'.om.order w).instrument = o.instrument := by
    show (Function.update t.om.order w _ w).instrument = _
    rw [Function.update_self, orderUpdateOnCancel_eq]
  have hothers : ∑ v ∈ t.live.erase w, (t'.om.order v).share o.instrument
      = ∑ v ∈ t.live.erase w, (t.om.order v).share o.instrument := by
    refine Finset.sum_congr rfl fun v hv => ?_
    show (Function.update t.om.order w _ v).share _ = _
    rw [Function.update_of_ne (Finset.ne_of_mem_erase hv)]
  have hself : (t.om.order w).share o.instrument
      = openShare o.side o.price o.outstanding := if_pos rfl
  have hpos := h.accounted.position o.instrument
  rw [← Finset.sum_erase_add _ _ hlive, hself] at hpos
  have hmoved : (t'.om.desk.position o.instrument).openVec
      = (t.om.book.position o.instrument).openVec
        + openShare o.side o.price (-size) := by
    show ((t.om.onCancel w size ts exts).book.position _).openVec = _
    rw [t.om.book_onCancel, Book.openVec_moveOpen, if_pos rfl]
  have hvec : (t'.om.desk.position (t'.om.order w).instrument).openVec
      = ∑ v ∈ t'.live.erase w,
          (t'.om.order v).share (t'.om.order w).instrument
        + openShare o.side o.price (o.outstanding - size) := by
    rw [hinst, hmoved, hpos, add_assoc, ← openShare_add, ← sub_eq_add_neg]
    exact congrArg (· + _) hothers.symm
  obtain ⟨hnonneg, hlt⟩ := h.outstanding_range hlive
  have hlow : -4294967296 < o.outstanding - (size : Int) := by
    show _ < (t.om.order w).outstanding - (size : Int)
    omega
  have hhigh : o.outstanding - (size : Int) < 4294967296 := by
    show (t.om.order w).outstanding - (size : Int) < _
    omega
  exact (Trading.gone_iff hlow hhigh hvec).trans sub_eq_zero

/-- A message that conserves is no restatement of another kind. -/
theorem whole_of_conserves (h : Inv s d)
    (hget : s.getOrder d.trading.om m.clOrdID.localID = some w)
    (hlive : w ∈ d.trading.live) (hcons : d.Consistent w m)
    (hgood : d.Conserves s (.message ts m)) :
    d.RestatesWhole s (.message ts m) := by
  obtain ⟨hopen, -, hgone, -⟩ := hgood w hget
  unfold RestatesWhole
  dsimp only
  rw [hget]
  cases hbody : m.body with
  | orderRestated orderQty leavesQty =>
      have hrep : reported (d.trading.om.order w) w ts m
          = if leavesQty = 0 then
              some (.cancelled w orderQty ts m.transactionTime)
            else none := by
        unfold reported
        rw [hbody]
      obtain ⟨htrading, hleaves⟩ := step_message hget hcons
        fun e he => by
          rw [hrep] at he
          split at he
          · obtain rfl := Option.some.inj he
            rfl
          · cases he
      have hself : (d.step s (.message ts m)).leaves w = some leavesQty := by
        rw [hleaves, Function.update_self, hbody]
        rfl
      unfold Consistent at hcons
      rw [hbody] at hcons
      obtain ⟨hqty, n, hn, -⟩ := hcons
      obtain ⟨-, -, hagrees⟩ := h.acked w n hn
      dsimp only
      by_cases hzero : leavesQty = 0
      · right
        rw [hself, htrading, hrep, if_pos hzero, hzero] at hgone
        have hfits : orderQty < 4294967296 := by
          rw [hqty]
          exact (d.trading.om.order w).size_lt
        have hout := (gone_after_cancel h.exposure hlive hfits ts
          m.transactionTime).mp (hgone rfl)
        rw [hagrees.outstanding, hqty] at hout
        rw [hn, Int.ofNat.inj hout]
        exact ⟨hzero, rfl⟩
      · left
        rw [hself, htrading, hrep, if_neg hzero] at hopen
        have hsame : leavesQty = (d.trading.om.order w).openSize :=
          Option.some.inj hopen
        rw [hn, hsame, hagrees.openSize]
        rw [hsame, hagrees.openSize] at hzero
        exact ⟨hzero, rfl⟩
  | _ => trivial

omit [DecidableEq ι] [Fintype ι] in
/-- The updates among the effects of a message are its report. -/
theorem update_mem_effects
    (hget : s.getOrder d.trading.om m.clOrdID.localID = some w)
    (hcons : d.Consistent w m) (e : Event ℕ) :
    Effect.update e ∈ s.effects d.process ts m
      ↔ e ∈ reported (d.trading.om.order w) w ts m := by
  rw [effects_eq hget hcons]
  cases hrep : reported (d.trading.om.order w) w ts m with
  | none => simp
  | some e' => simp [BOE20Session.report, eq_comm]

omit [Fintype ι] in
/-- Of an acknowledged order, from `n` open to `k`. -/
theorem covered_iff
    (hget : s.getOrder d.trading.om m.clOrdID.localID = some w)
    {n k : Nat} (hn : d.leaves w = some n)
    (hk : m.body.leavesAfter (some n) = some k) :
    d.Covered s (.message ts m)
      ↔ n ≤ k + u32 (d.trading.openBeside w) := by
  unfold Covered
  dsimp only
  rw [hget]
  dsimp only
  rw [hn, hk]
  simp only [Option.mem_some_iff, forall_eq']

/-- A report of `size` off the order, whose assertion is that of taking so
much off the position. -/
theorem asserts_report_iff (h : Inv s d) {e : Event ℕ} {size : Nat}
    (he : d.trading.AssertsHeld e ↔ FirmRiskCheck.removesHeld
      (d.trading.om.desk.position (d.trading.om.order w).instrument)
      (d.trading.om.order w) size) :
    (∀ e' ∈ some e, d.trading.AssertsHeld e')
      ↔ size ≤ u32 (d.trading.openBeside w) := by
  rw [← h.exposure.removesHeld_iff w, ← he]
  simp only [Option.mem_some_iff, forall_eq']

/-- No assertion fails on the way exactly if the position covers what the
message takes. -/
theorem asserts_iff_covered (h : Inv s d)
    (hget : s.getOrder d.trading.om m.clOrdID.localID = some w)
    (hcons : d.Consistent w m)
    (hwhole : d.RestatesWhole s (.message ts m)) :
    (∀ e ∈ reported (d.trading.om.order w) w ts m, d.trading.AssertsHeld e)
      ↔ d.Covered s (.message ts m) := by
  unfold Consistent at hcons
  unfold RestatesWhole at hwhole
  dsimp only at hwhole
  rw [hget] at hwhole
  unfold reported
  cases hbody : m.body with
  | orderAcknowledgment orderID opt =>
      rw [hbody] at hcons
      refine iff_of_true ?_ ?_
      · rintro e ⟨rfl⟩
        trivial
      · unfold Covered
        dsimp only
        rw [hget]
        rintro n hn
        rw [hcons.1] at hn
        cases hn
  | orderExecution lastShares lastPx =>
      rw [hbody] at hcons
      obtain ⟨n, hn, hle⟩ := hcons
      rw [covered_iff (k := n - lastShares) hget hn (by rw [hbody]; rfl)]
      refine (asserts_report_iff h Iff.rfl).trans ?_
      omega
  | orderCancelled leavesQty =>
      rw [hbody] at hcons
      obtain ⟨n, hn, hle⟩ := hcons
      obtain ⟨-, -, hagrees⟩ := h.acked w n hn
      rw [covered_iff (k := leavesQty) hget hn (by rw [hbody]; rfl)]
      dsimp only
      rw [if_pos hagrees.state, hagrees.removed hle]
      refine (asserts_report_iff h Iff.rfl).trans ?_
      omega
  | orderModified leavesQty =>
      rw [hbody] at hcons
      obtain ⟨n, hn, hle⟩ := hcons
      obtain ⟨-, -, hagrees⟩ := h.acked w n hn
      rw [covered_iff (k := leavesQty) hget hn (by rw [hbody]; rfl)]
      dsimp only
      split
      case isTrue =>
        rw [hagrees.removed hle]
        refine (asserts_report_iff h Iff.rfl).trans ?_
        omega
      case isFalse hsame =>
        rw [not_not, hagrees.openSize] at hsame
        exact iff_of_true nofun (by omega)
  | orderRestated orderQty leavesQty =>
      rw [hbody] at hcons hwhole
      obtain ⟨hqty, n, hn, -⟩ := hcons
      rw [covered_iff (k := leavesQty) hget hn (by rw [hbody]; rfl)]
      dsimp only
      rcases hwhole with ⟨hpos, hkept⟩ | ⟨hzero, hall⟩
      · obtain rfl := Option.some.inj (hkept.symm.trans hn)
        rw [if_neg hpos]
        exact iff_of_true nofun (by omega)
      · have hsize := Option.some.inj (hall.symm.trans hn)
        rw [if_pos hzero]
        refine (asserts_report_iff h Iff.rfl).trans ?_
        omega
  | tradeCancelOrCorrect =>
      rw [hbody] at hcons
      obtain ⟨n, hn⟩ := Option.ne_none_iff_exists'.mp hcons
      rw [covered_iff (k := n) hget hn (by rw [hbody]; rfl)]
      exact iff_of_true nofun (by omega)

/-- Any other message conserves, up to the assertions. -/
theorem conserves_iff_of_whole (h : Inv s d)
    (hget : s.getOrder d.trading.om m.clOrdID.localID = some w)
    (hlive : w ∈ d.trading.live) (hcons : d.Consistent w m)
    (hwhole : d.RestatesWhole s (.message ts m)) :
    d.Conserves s (.message ts m) ↔ d.Covered s (.message ts m) := by
  rw [← asserts_iff_covered h hget hcons hwhole]
  constructor
  · intro hgood e he
    obtain ⟨-, -, -, hasserts⟩ := hgood w hget
    exact hasserts e ((update_mem_effects hget hcons e).mpr he)
  · intro hasserts w' hw'
    obtain rfl : w = w' := Option.some.inj (hget.symm.trans hw')
    obtain ⟨hinv, n, hn, -⟩ := inv_message h hget hlive hcons hwhole
    obtain ⟨hlive', -, hagrees⟩ := hinv.acked w n hn
    have hsize := hagrees.le_size
    refine ⟨?_, by omega, fun hzero => ?_, fun e he => ?_⟩
    · rw [hn, hagrees.openSize]
    · refine (hinv.exposure.gone_iff hlive').mpr ?_
      rw [hagrees.outstanding, Option.some.inj (hn.symm.trans hzero)]
      rfl
    · exact hasserts e ((update_mem_effects hget hcons e).mp he)

/-- One move, from a day that went well so far. -/
theorem conserves_step_iff (d : BOE20Day ι) (e : Move) (h : Inv s d)
    (hsends : d.Sends s e) :
    d.Conserves s e ↔ d.RestatesWhole s e ∧ d.Covered s e := by
  cases e with
  | call e => exact ⟨fun _ => ⟨trivial, trivial⟩, fun _ => trivial⟩
  | message ts m =>
      unfold Sends at hsends
      cases hget : s.getOrder d.trading.om m.clOrdID.localID with
      | none =>
          simp only [hget] at hsends
      | some w =>
          simp only [hget] at hsends
          obtain ⟨hlive, hcons⟩ := hsends
          have hiff : d.RestatesWhole s (.message ts m) →
              (d.Conserves s (.message ts m) ↔ d.Covered s (.message ts m)) :=
            conserves_iff_of_whole h hget hlive hcons
          constructor
          · intro hgood
            have hwhole := whole_of_conserves h hget hlive hcons hgood
            exact ⟨hwhole, (hiff hwhole).mp hgood⟩
          · rintro ⟨hwhole, hcovered⟩
            exact (hiff hwhole).mpr hcovered

/-- The step lemma of the invariant: one send, or one message that restates
the whole order. -/
theorem inv_step (d : BOE20Day ι) (e : Move) (h : Inv s d)
    (hsends : d.Sends s e) (hwhole : d.RestatesWhole s e) :
    Inv s (d.step s e) := by
  cases e with
  | call e => exact inv_call h hsends.1 hsends.2
  | message ts m =>
      unfold Sends at hsends
      cases hget : s.getOrder d.trading.om m.clOrdID.localID with
      | none =>
          simp only [hget] at hsends
      | some w =>
          simp only [hget] at hsends
          exact (inv_message h hget hsends.1 hsends.2 hwhole).1

/-- Before the first order there is nothing open. -/
theorem inv_start (s : BOE20Session ι) (c : OrderManagerConf ℕ ι) :
    Inv s (start c) :=
  ⟨exposureInv_start c, nofun,
    fun w hw => absurd (Finset.mem_sdiff.mp hw).1 (Finset.notMem_empty w)⟩

/-- Over every day, and every sequence of consistent messages for its
orders, all messages conserve exactly if all restatements keep an open
quantity or take a whole order to zero, and every message takes off what
the position's 32-bit count of the side covers. -/
theorem boe_conservation_iff (s : BOE20Session ι)
    (c : OrderManagerConf ℕ ι) (es : List Move)
    (hes : Lib.Admits (step s) (Sends s) (start c) es) :
    Lib.Admits (step s) (Conserves s) (start c) es
      ↔ Lib.Admits (step s) (RestatesWhole s) (start c) es
        ∧ Lib.Admits (step s) (Covered s) (start c) es :=
  (Lib.admits_iff_of_step conserves_step_iff
    (fun d e h hsends hcond => inv_step d e h hsends hcond.1)
    (inv_start s c) hes).trans Lib.admits_and

/-- A day on which ten are bought at 5 through the session `B`. -/
def tenBought : OrderManagerConf ℕ Unit :=
  .plain fun _ => .dayLimit () .buy 10 5

def plainSession : BOE20Session Unit :=
  ⟨[66], .bats, fun _ => none, fun _ => [], ⟨9, 0⟩⟩

/-- A message about the first order. -/
def Move.first (body : MessageBody) : Move :=
  .message ⟨1, 0⟩ ⟨⟨1, 1⟩, 1, ⟨'A', 1⟩, body⟩

/-- The order is sent and acknowledged. -/
def opening : List Move :=
  [.call (.send 1 [66] .taken),
    .first (.orderAcknowledgment 77 ⟨'1', 50000, '2', '0', [65], 10, 10⟩)]

/-- Four executed, one reduced, five restated as five, five cancelled. -/
theorem boe_conservation_iff_demo :
    Lib.Admits (step plainSession) (Conserves plainSession)
      (start tenBought) (opening ++ [.first (.orderExecution 4 50000),
        .first (.orderModified 5), .first (.orderRestated 10 5),
        .first (.orderCancelled 0)]) :=
  (boe_conservation_iff plainSession tenBought _ (by decide +kernel)).mpr
    ⟨by decide +kernel, by decide +kernel⟩

/-- Four of ten are executed and the rest is restated away: ten are
cancelled, and the position has minus four open, wrapped. Another order is
restated from ten to five, and stays at ten. -/
theorem restated_order_not_conserved :
    let d := Lib.run (step plainSession) (start tenBought)
      (opening ++ [.first (.orderExecution 4 50000)])
    let d' := d.step plainSession (.first (.orderRestated 10 0))
    let k := Lib.run (step plainSession) (start tenBought) opening
    let k' := k.step plainSession (.first (.orderRestated 10 5))
    Lib.Admits (step plainSession) (Sends plainSession)
        (start tenBought) (opening ++ [.first (.orderExecution 4 50000),
          .first (.orderRestated 10 0)])
      ∧ (d'.trading.om.order 1).filledSize = 4
      ∧ (d'.trading.om.order 1).cancelledSize = 10
      ∧ (d'.trading.om.desk.position ()).longOpenSize = 4294967292
      ∧ ¬ d.Conserves plainSession (.first (.orderRestated 10 0))
      ∧ Lib.Admits (step plainSession) (Sends plainSession)
        (start tenBought) (opening ++ [.first (.orderRestated 10 5)])
      ∧ k'.leaves 1 = some 5 ∧ (k'.trading.om.order 1).openSize = 10
      ∧ ¬ k.Conserves plainSession (.first (.orderRestated 10 5)) := by
  intro d d' k k'
  have hfilled : (d'.trading.om.order 1).filledSize = 4 := by
    decide +kernel
  have hcancelled : (d'.trading.om.order 1).cancelledSize = 10 := by
    decide +kernel
  have hsize : (d'.trading.om.order 1).size = 10 := by decide +kernel
  have hleaves : k'.leaves 1 = some 5 := by decide +kernel
  have hopen : (k'.trading.om.order 1).openSize = 10 := by decide +kernel
  refine ⟨by decide +kernel, hfilled, hcancelled, by decide +kernel, ?_,
    by decide +kernel, hleaves, hopen, ?_⟩
  · intro h
    have hle : (d'.trading.om.order 1).filledSize
        + (d'.trading.om.order 1).cancelledSize
          ≤ (d'.trading.om.order 1).size := (h 1 (by decide +kernel)).2.1
    rw [hfilled, hcancelled, hsize] at hle
    omega
  · intro h
    have heq : k'.leaves 1 = some (k'.trading.om.order 1).openSize :=
      (h 1 (by decide +kernel)).1
    rw [hleaves, hopen] at heq
    cases heq

end BOE20Day

end TradingEngine.OE
