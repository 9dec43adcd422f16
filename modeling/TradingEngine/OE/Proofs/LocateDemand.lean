/-
Locates taken by sells in a row, nothing filled or cancelled in between.

Each sell is checked against the position with all open sells filled, so
an order that finds the position already short by earlier ones asks for
their shortage again. As long as the position covers what was sold before
an order, what is in use is the net short position that the sells would
leave (`DemandInv`). The first order after that point breaks the rule: it
takes too much, or is refused although the pool would do
(`consumes_iff`).

# The size type

What was sold is counted in an unsigned 32-bit member. From 2^32 shares on
an order is checked against a shortage that is too small by a multiple of
that: one that crosses into the short takes nothing at all, and one that
comes after takes the right amount only if the member happens to hold the
position itself. `demand_iff` has all the cases.
-/
import TradingEngine.OE.Proofs.LocateMoves

namespace TradingEngine.OE

variable {ω ι : Type}

-- =============================================================== the check

namespace OrderManager

/-- The order is a sell and gets as far as the locates. -/
def asksLocates (om : OrderManager ω ι) (w : ω) (a : SendAnswer) : Bool :=
  let o := om.order w
  let pos := om.desk.position o.instrument
  let ei := (om.instrument o.instrument).refreshRate o.creationTime
  o.validateBase && a.validated && (om.desk.newOrder o).1 && ei.rateAllows
    && ei.limitsAllow pos o && EquityInstrument.sells o

/-- It is refused there. -/
def refusedForLocates (om : OrderManager ω ι) (w : ω) (a : SendAnswer) :
    Bool :=
  let o := om.order w
  om.asksLocates w a
    && !EquityInstrument.locatesAllow (om.desk.position o.instrument) o

theorem reserves_eq (om : OrderManager ω ι) (w : ω) (a : SendAnswer) :
    om.reserves w a
      = (om.asksLocates w a && EquityInstrument.locatesAllow
          (om.desk.position (om.order w).instrument) (om.order w)) := by
  unfold reserves asksLocates
  dsimp only
  simp only [Bool.and_assoc]

variable [DecidableEq ω] [DecidableEq ι]

/-- A sell passes the checks of `send` if it gets that far and there are
locates enough. -/
theorem passesChecks_eq {om : OrderManager ω ι} {w : ω} (a : SendAnswer)
    (hsells : EquityInstrument.sells (om.order w) = true) :
    om.passesChecks w a
      = (om.asksLocates w a && EquityInstrument.locatesAllow
          (om.desk.position (om.order w).instrument) (om.order w)) := by
  unfold passesChecks asksLocates
  dsimp only
  rw [validates_takeLocalID, riskCheck_takeLocalID,
    instrumentCheck_takeLocalID, EquityInstrument.validate_ok, hsells]
  simp only [Bool.not_true, Bool.false_or, Bool.and_true, Bool.and_assoc]

end OrderManager

/-- What `n` more ask for, `short` being the shares sold beyond the
position before, as the member counts them. -/
theorem EquityInstrument.requiredLocateSize_eq {pos : Position} {o : Order ι}
    (hside : o.side ≠ .buy) {short : Int}
    (hshort : (pos.shortOpenSize : Int)
      - (pos.quantity + pos.remoteQuantity) = short) :
    requiredLocateSize pos o
      = if 0 < short + o.size then u32 (short + o.size) else 0 := by
  have hpost : postPosition pos o - pos.shortOpenSize
      = -(short + o.size) := by
    unfold postPosition
    rw [if_neg hside]
    omega
  unfold requiredLocateSize
  rw [hpost, neg_neg]
  by_cases hpos : 0 < short + (o.size : Int)
  · rw [if_pos hpos, if_pos (by omega)]
  · rw [if_neg hpos, if_neg (by omega)]

-- ============================================================= the machine

/-- An order manager while sells of one instrument are sent, and the
shares accepted so far. -/
structure Selling (ω ι : Type) where
  om : OrderManager ω ι
  sold : Int

/-- One call of `send`. -/
structure SellCall (ω : Type) where
  w : ω
  session : Bytes
  answer : OrderManager.SendAnswer

namespace Selling

variable [DecidableEq ω] [DecidableEq ι]

def step (s : Selling ω ι) (e : SellCall ω) : Selling ω ι :=
  let r := s.om.send e.w e.session e.answer
  { om := r.2
    sold := if r.1 then s.sold + (s.om.order e.w).size else s.sold }

/-- A sell of instrument `i`, to a session that takes what it is sent. -/
def SellOf (i : ι) (s : Selling ω ι) (e : SellCall ω) : Prop :=
  (s.om.order e.w).instrument = i
    ∧ EquityInstrument.sells (s.om.order e.w) = true
    ∧ e.answer.sent = true

instance (i : ι) (s : Selling ω ι) (e : SellCall ω) :
    Decidable (s.SellOf i e) := by
  unfold SellOf
  infer_instance

/-- Flat or long here and nowhere else, no open sells, and locates. -/
structure Fresh (om : OrderManager ω ι) (i : ι) : Prop where
  quantity : 0 ≤ (om.desk.position i).quantity
  remote : (om.desk.position i).remoteQuantity = 0
  openShortSize : (om.desk.position i).openShortSize = 0
  remaining : 0 ≤ (om.desk.position i).locatesRemaining

/-- After the call the locates taken since `om₀` are the net short that
the accepted sells create, and it is refused for locates only if that,
with its own size, is more than there were. -/
def Consumes (om₀ : OrderManager ω ι) (i : ι) (s : Selling ω ι)
    (e : SellCall ω) : Prop :=
  let pos₀ := om₀.desk.position i
  ((s.step e).om.desk.position i).locatesUsed - pos₀.locatesUsed
      = max 0 ((s.step e).sold - pos₀.quantity)
    ∧ (s.om.refusedForLocates e.w e.answer = true →
      pos₀.locatesRemaining
        < max 0 (s.sold + (s.om.order e.w).size - pos₀.quantity))

/-- Unless the order is refused before its locates are looked at: it does
not go short; or what was sold before it is covered by the position and
fits a `Size`; or the `Size` it is counted in holds the position itself;
or the order asks for more than there was at the start, counted either
way. -/
def FirstShortage (om₀ : OrderManager ω ι) (i : ι) (s : Selling ω ι)
    (e : SellCall ω) : Prop :=
  let pos₀ := om₀.desk.position i
  let size : Int := (s.om.order e.w).size
  -- the shares sold beyond the position, and what the member makes of them
  let short := s.sold - pos₀.quantity
  let held := u32 s.sold - pos₀.quantity
  s.om.asksLocates e.w e.answer = true →
    short + size ≤ 0 ∨ (short ≤ 0 ∧ s.sold < 4294967296) ∨ held = 0
      ∨ (pos₀.locatesRemaining < short + size ∧ 0 < held + size
        ∧ pos₀.locatesRemaining - short < u32 (held + size))

instance (om₀ : OrderManager ω ι) (i : ι) (s : Selling ω ι)
    (e : SellCall ω) : Decidable (s.FirstShortage om₀ i e) := by
  unfold FirstShortage
  infer_instance

-- =========================================================== the invariant

/-- The open sells are what was accepted, and the locates taken their net
short. -/
structure DemandInv (om₀ : OrderManager ω ι) (i : ι) (s : Selling ω ι) :
    Prop where
  start_nonneg : 0 ≤ (om₀.desk.position i).quantity
  sold_nonneg : 0 ≤ s.sold
  quantity : (s.om.desk.position i).quantity
    = (om₀.desk.position i).quantity
  remote : (s.om.desk.position i).remoteQuantity = 0
  openShortSize : (s.om.desk.position i).openShortSize = s.sold
  used : (s.om.desk.position i).locatesUsed
    = (om₀.desk.position i).locatesUsed
      + max 0 (s.sold - (om₀.desk.position i).quantity)
  remaining : (s.om.desk.position i).locatesRemaining
    = (om₀.desk.position i).locatesRemaining
      - max 0 (s.sold - (om₀.desk.position i).quantity)
  remaining_nonneg : 0 ≤ (s.om.desk.position i).locatesRemaining

omit [DecidableEq ω] [DecidableEq ι] in
theorem demandInv_start {om₀ : OrderManager ω ι} {i : ι}
    (h : Fresh om₀ i) : DemandInv om₀ i ⟨om₀, 0⟩ := by
  have hq := h.quantity
  have hmax : max 0 (0 - (om₀.desk.position i).quantity) = 0 := by omega
  refine ⟨hq, le_refl _, rfl, h.remote, h.openShortSize, ?_, ?_,
    h.remaining⟩
  · rw [hmax, add_zero]
  · rw [hmax, sub_zero]

/-- What is in use after an order of `n` that asks for `r`, against the
net short: the same, if the order was let through rightly. `short` is what
was sold beyond the position before, `held` what the member makes of it. -/
theorem demand_iff {q sold n R : Int} {r : Nat} (hq : 0 ≤ q)
    (hsold : 0 ≤ sold) (hsize : 0 < n) (hfits : n < 4294967296)
    (hr : r = if 0 < u32 sold - q + n then u32 (u32 sold - q + n) else 0)
    (hR : 0 ≤ R - max 0 (sold - q)) :
    ((r ≤ R - max 0 (sold - q) →
          max 0 (sold - q) + r = max 0 (sold - q + n))
      ∧ (¬(r ≤ R - max 0 (sold - q)) → R < max 0 (sold - q + n)))
      ↔ (sold - q + n ≤ 0 ∨ (sold - q ≤ 0 ∧ sold < 4294967296)
        ∨ u32 sold - q = 0
        ∨ (R < sold - q + n ∧ 0 < u32 sold - q + n
          ∧ R - (sold - q) < u32 (u32 sold - q + n))) := by
  subst hr
  unfold u32
  split
  · omega
  · omega

-- ================================================================== a step

section Step

variable {om₀ : OrderManager ω ι} {i : ι} {s : Selling ω ι} {e : SellCall ω}

/-- A sell that passes is accepted: its size is open, and what it needs
is taken. -/
theorem step_passed (hok : s.SellOf i e)
    (hpass : s.om.passesChecks e.w e.answer = true) :
    let pos := s.om.desk.position i
    let pos' := (s.step e).om.desk.position i
    (s.step e).sold = s.sold + (s.om.order e.w).size
      ∧ pos'.quantity = pos.quantity
      ∧ pos'.remoteQuantity = pos.remoteQuantity
      ∧ pos'.openShortSize = pos.openShortSize + (s.om.order e.w).size
      ∧ pos'.locatesRemaining = pos.locatesRemaining
        - EquityInstrument.requiredLocateSize pos (s.om.order e.w)
      ∧ pos'.locatesUsed = pos.locatesUsed
        + EquityInstrument.requiredLocateSize pos (s.om.order e.w) := by
  obtain ⟨hi, hsells, hsent⟩ := hok
  have hr : (s.om.send e.w e.session e.answer).1 = true := by
    rw [OrderManager.send_result, hpass, hsent]
    rfl
  have hlocates := congrFun (s.om.locates_send e.w e.session e.answer) i
  rw [OrderManager.reserves_of_passed hpass, if_pos hsells, hi,
    Function.update_self] at hlocates
  rcases s.om.send_spec e.w e.session e.answer with
    ⟨-, side, hacc⟩ | ⟨hno, -⟩
  · have hside : side ≠ .buy := fun hbuy =>
      EquityInstrument.ne_buy_of_sells hsells (hacc.side_kept.buy.mp hbuy)
    have hpos := congrFun (congrArg Book.position hacc.book) i
    rw [Book.position_moveOpen, hi, if_pos rfl, Position.moveOpen,
      if_neg hside] at hpos
    have hquantity := congrArg Position.quantity hpos
    have hremote := congrArg Position.remoteQuantity hpos
    have hopen := congrArg Position.openShortSize hpos
    exact ⟨if_pos hr, hquantity, hremote, hopen, congrArg Prod.fst hlocates,
      congrArg Prod.snd hlocates⟩
  · rw [hr] at hno
    cases hno

/-- One that does not is refused, and nothing moves. -/
theorem step_refused (hok : s.SellOf i e)
    (hpass : s.om.passesChecks e.w e.answer = false) :
    let pos := s.om.desk.position i
    let pos' := (s.step e).om.desk.position i
    (s.step e).sold = s.sold
      ∧ pos'.quantity = pos.quantity
      ∧ pos'.remoteQuantity = pos.remoteQuantity
      ∧ pos'.openShortSize = pos.openShortSize
      ∧ pos'.locatesRemaining = pos.locatesRemaining
      ∧ pos'.locatesUsed = pos.locatesUsed := by
  obtain ⟨hi, hsells, hsent⟩ := hok
  have hr : (s.om.send e.w e.session e.answer).1 = false := by
    rw [OrderManager.send_result, hpass]
    rfl
  have hlocates := congrFun (s.om.locates_send e.w e.session e.answer) i
  have hreserves : s.om.reserves e.w e.answer = false := by
    rw [OrderManager.reserves_eq, ← OrderManager.passesChecks_eq _ hsells]
    exact hpass
  rw [hreserves, if_neg (by decide)] at hlocates
  rcases s.om.send_spec e.w e.session e.answer with
    ⟨hyes, -⟩ | ⟨-, href⟩
  · rw [hr] at hyes
    cases hyes
  · have hpos := congrFun (congrArg Book.position href.book) i
    have hquantity := congrArg Position.quantity hpos
    have hremote := congrArg Position.remoteQuantity hpos
    have hopen := congrArg Position.openShortSize hpos
    exact ⟨if_neg (Bool.eq_false_iff.mp hr), hquantity, hremote, hopen,
      congrArg Prod.fst hlocates, congrArg Prod.snd hlocates⟩

omit [DecidableEq ω] [DecidableEq ι] in
/-- What the order asks for. -/
theorem required_eq (h : DemandInv om₀ i s) (hok : s.SellOf i e) :
    EquityInstrument.requiredLocateSize (s.om.desk.position i)
        (s.om.order e.w)
      = if 0 < u32 s.sold - (om₀.desk.position i).quantity
            + (s.om.order e.w).size then
          u32 (u32 s.sold - (om₀.desk.position i).quantity
            + (s.om.order e.w).size)
        else 0 := by
  have hside := EquityInstrument.ne_buy_of_sells hok.2.1
  refine EquityInstrument.requiredLocateSize_eq hside ?_
  unfold Position.shortOpenSize
  rw [h.quantity, h.remote, h.openShortSize, add_zero]

omit [DecidableEq ω] [DecidableEq ι] in
/-- Locates are configured, so what decides is whether there are enough. -/
theorem locatesAllow_iff (h : DemandInv om₀ i s) (o : Order ι) :
    EquityInstrument.locatesAllow (s.om.desk.position i) o = true
      ↔ (EquityInstrument.requiredLocateSize (s.om.desk.position i) o : Int)
        ≤ (s.om.desk.position i).locatesRemaining := by
  have hset : (s.om.desk.position i).locatesRemaining
      ≠ locatesRemainingSentinel := by
    have hremaining := h.remaining_nonneg
    unfold locatesRemainingSentinel
    omega
  unfold EquityInstrument.locatesAllow
  simp only [Bool.and_eq_true, bne_iff_ne, ne_eq, hset, not_false_eq_true,
    true_and, decide_eq_true_eq]

/-- A call does right exactly if it does not count a shortage twice. -/
theorem consumes_iff (h : DemandInv om₀ i s) (hok : s.SellOf i e) :
    s.Consumes om₀ i e ↔ s.FirstShortage om₀ i e := by
  have hpasses := OrderManager.passesChecks_eq e.answer hok.2.1
  have hi := hok.1
  by_cases hasks : s.om.asksLocates e.w e.answer = true
  · rw [hasks, Bool.true_and, hi] at hpasses
    have hsize : 0 < (s.om.order e.w).size := by
      unfold OrderManager.asksLocates at hasks
      simp only [Bool.and_eq_true] at hasks
      exact (Order.validateBase_spec hasks.1.1.1.1.1).2.2.1
    have hlt := (s.om.order e.w).size_lt
    have hdemand := demand_iff (n := (s.om.order e.w).size)
      h.start_nonneg h.sold_nonneg (by omega) (by omega)
      (required_eq h hok) (h.remaining ▸ h.remaining_nonneg)
    have hallow := locatesAllow_iff h (s.om.order e.w)
    rw [h.remaining] at hallow
    have hrefused : s.om.refusedForLocates e.w e.answer
        = !s.om.passesChecks e.w e.answer := by
      unfold OrderManager.refusedForLocates
      dsimp only
      rw [hasks, hpasses, hi, Bool.true_and]
    have hadd : s.sold + ((s.om.order e.w).size : Int)
          - (om₀.desk.position i).quantity
        = s.sold - (om₀.desk.position i).quantity
          + (s.om.order e.w).size := by omega
    unfold Consumes FirstShortage
    dsimp only
    rw [forall_prop_of_true hasks, ← hdemand, hrefused, hadd]
    cases hpass : s.om.passesChecks e.w e.answer with
    | true =>
        obtain ⟨hsold, -, -, -, -, hused⟩ := step_passed hok hpass
        have hyes := hallow.mp (hpasses.symm.trans hpass)
        rw [hsold, hadd, hused, h.used]
        constructor
        · rintro ⟨htaken, -⟩
          exact ⟨fun _ => by omega, fun hno => absurd hyes hno⟩
        · rintro ⟨htaken, -⟩
          have htaken := htaken hyes
          exact ⟨by omega, nofun⟩
    | false =>
        obtain ⟨hsold, -, -, -, -, hused⟩ := step_refused hok hpass
        have hno : ¬((EquityInstrument.requiredLocateSize
              (s.om.desk.position i) (s.om.order e.w) : Int)
            ≤ (om₀.desk.position i).locatesRemaining
              - max 0 (s.sold - (om₀.desk.position i).quantity)) := by
          rw [← hallow]
          rw [hpass] at hpasses
          exact Bool.eq_false_iff.mp hpasses.symm
        rw [hsold, hused, h.used]
        constructor
        · rintro ⟨-, hmore⟩
          exact ⟨fun hyes => absurd hyes hno, fun _ => hmore rfl⟩
        · rintro ⟨-, hmore⟩
          exact ⟨by omega, fun _ => hmore hno⟩
  · have hpass : s.om.passesChecks e.w e.answer = false := by
      rw [hpasses, Bool.eq_false_iff.mpr hasks]
      rfl
    obtain ⟨hsold, -, -, -, -, hused⟩ := step_refused hok hpass
    refine iff_of_true ⟨?_, fun hrefused => ?_⟩
      fun hyes => absurd hyes hasks
    · rw [hsold, hused, h.used]
      omega
    · unfold OrderManager.refusedForLocates at hrefused
      exact absurd (Bool.and_eq_true_iff.mp hrefused).1 hasks

/-- The step lemma: as long as no shortage is counted twice. -/
theorem demandInv_step (h : DemandInv om₀ i s) (hok : s.SellOf i e)
    (hfirst : s.FirstShortage om₀ i e) : DemandInv om₀ i (s.step e) := by
  have hconsumes := ((consumes_iff h hok).mpr hfirst).1
  cases hpass : s.om.passesChecks e.w e.answer with
  | true =>
      obtain ⟨hsold, hq, hr, hopen, hremaining, hused⟩ :=
        step_passed hok hpass
      have hyes := (locatesAllow_iff h (s.om.order e.w)).mp (by
        rw [OrderManager.passesChecks_eq e.answer hok.2.1, hok.1] at hpass
        exact (Bool.and_eq_true_iff.mp hpass).2)
      have hu := h.used
      have hrem := h.remaining
      have hnonneg := h.sold_nonneg
      refine ⟨h.start_nonneg, ?_, hq.trans h.quantity, hr.trans h.remote,
        ?_, ?_, ?_, ?_⟩
      · rw [hsold]
        omega
      · rw [hopen, hsold, h.openShortSize]
      · omega
      · omega
      · omega
  | false =>
      obtain ⟨hsold, hq, hr, hopen, hremaining, hused⟩ :=
        step_refused hok hpass
      refine ⟨h.start_nonneg, hsold ▸ h.sold_nonneg, hq.trans h.quantity,
        hr.trans h.remote, ?_, ?_, ?_, ?_⟩
      · rw [hopen, hsold, h.openShortSize]
      · rw [hused, hsold, h.used]
      · rw [hremaining, hsold, h.remaining]
      · rw [hremaining]
        exact h.remaining_nonneg

end Step

end Selling

-- ================================================================== result

variable [DecidableEq ω] [DecidableEq ι]

/-- From any state without open sells and any number of sells, the locates
taken are the net short created and no order is refused too early, exactly
if each sell that gets as far as the locates finds nothing counted
already. -/
theorem locates_consumed_iff (om : OrderManager ω ι) (i : ι)
    (h : Selling.Fresh om i) {es : List (SellCall ω)}
    (hes : Lib.Admits Selling.step (Selling.SellOf i) ⟨om, 0⟩ es) :
    Lib.Admits Selling.step (Selling.Consumes om i) ⟨om, 0⟩ es
      ↔ Lib.Admits Selling.step (Selling.FirstShortage om i) ⟨om, 0⟩ es :=
  Lib.admits_iff_of_step (I := Selling.DemandInv om i)
    (fun _ _ h hok => Selling.consumes_iff h hok)
    (fun _ _ h hok hfirst => Selling.demandInv_step h hok hfirst)
    (Selling.demandInv_start h) hes

/-- Three of four held shares, then five more. -/
theorem locates_consumed_iff_demo :
    let c : OrderManagerConf Bool Unit := { OrderManagerConf.plain fun w =>
        if w then .dayLimit () .sell 3 5 else .dayLimit () .sell 5 6 with
      startQuantity := fun _ => 4 }
    let om := OrderManager.start c
    Lib.Admits Selling.step (Selling.Consumes om ()) ⟨om, 0⟩
      [⟨true, [66], .taken⟩, ⟨false, [66], .taken⟩] := by
  intro c om
  have hfresh : Selling.Fresh om () :=
    ⟨by decide +kernel, by decide +kernel, by decide +kernel,
      by decide +kernel⟩
  exact (locates_consumed_iff om () hfresh (by decide +kernel)).mpr
    (by decide +kernel)

/-- A hundred sold from flat, and a hundred more: three hundred locates
are taken for two hundred shares. -/
theorem second_sell_takes_first_again :
    ¬ ∀ (c : OrderManagerConf Bool Unit) (i : Unit),
      let om := OrderManager.start c
      Selling.Fresh om i → ∀ es : List (SellCall Bool),
        Lib.Admits Selling.step (Selling.SellOf i) ⟨om, 0⟩ es →
        Lib.Admits Selling.step (Selling.Consumes om i) ⟨om, 0⟩ es := by
  intro h
  have hrun := h (.plain fun _ => .dayLimit () .sell 100 10) ()
    ⟨by decide +kernel, by decide +kernel, by decide +kernel,
      by decide +kernel⟩
    [⟨true, [66], .taken⟩, ⟨false, [66], .taken⟩] (by decide +kernel)
  exact absurd hrun.2.1.1 (by decide +kernel)

end TradingEngine.OE
