/-
Which live orders can still be reached.

An order is live once `send` has returned true and until a reject, or
fills and cancels of its whole size, have finished it. `isTerminal` takes
an open size of zero for the end of an order, and only the acknowledgment
sets the open size. So between the two the order is live, at the exchange,
and terminal: it is not listed, `cancel` refuses it, `cancel_all` passes
it by and `destroy` takes it for finished.

# Answered orders

A live order is reachable if and only if the exchange has answered, with
an acknowledgment or a fill of something (`Standing`). A fill that comes
before the acknowledgment wraps the open size, which happens to keep the
order alive; a cancel that comes before it does not.
-/
import TradingEngine.OE.Proofs.Send
import TradingEngine.OE.Trading

namespace TradingEngine.OE

variable {ω ι : Type}

-- ============================================================== the order

/-- The exchange has answered, for all the order manager can see. -/
def Order.Answered (o : Order ι) (acked : Prop) : Prop :=
  acked ∨ 0 < o.filledSize

/-- What keeps an order alive, from `send` to its last fill or cancel. -/
structure Order.Standing (o : Order ι) (acked : Prop) : Prop where
  within : o.filledSize + o.cancelledSize ≤ o.size
  open_lt : o.openSize < 4294967296
  /-- Nothing but an answer moves the open size away from zero. -/
  idle : ¬o.Answered acked → o.openSize = 0
  covers : o.Answered acked →
    o.size ≤ o.openSize + o.filledSize + o.cancelledSize
  going : o.Answered acked → o.filledSize + o.cancelledSize < o.size →
    o.state.final = false

/-- A live order that stands is terminal until it is answered. -/
theorem Order.Standing.isTerminal_iff {o : Order ι} {acked : Prop}
    (h : o.Standing acked)
    (hlive : o.filledSize + o.cancelledSize < o.size) :
    o.isTerminal = false ↔ o.Answered acked := by
  rw [Order.isTerminal_eq_false]
  constructor
  · rintro ⟨hopen, -⟩
    by_contra hidle
    exact hopen (h.idle hidle)
  · intro hans
    have hcovers := h.covers hans
    exact ⟨by omega, h.going hans hlive⟩

/-- An order that `send` has just returned true for. -/
theorem Order.Standing.sent {o : Order ι} (hfilled : o.filledSize = 0)
    (hcancelled : o.cancelledSize = 0) (hopen : o.openSize = 0) :
    o.Standing False := by
  have hidle : ¬o.Answered False := by
    rintro (h | h)
    · exact h
    · omega
  exact ⟨by omega, by omega, fun _ => hopen, fun h => absurd h hidle,
    fun h => absurd h hidle⟩

/-- The acknowledgment sets the open size to the size. -/
theorem Order.Standing.ack {o : Order ι} {acked : Prop}
    (h : o.Standing acked) (exchangeID : Nat) (ts : Timestamp)
    (exts : Nat) :
    (orderUpdateOnAck o exchangeID o.size ts exts).Standing True := by
  refine ⟨h.within, o.size_lt, fun hn => absurd (.inl trivial) hn,
    fun _ => ?_, fun _ _ => rfl⟩
  show o.size ≤ o.size + o.filledSize + o.cancelledSize
  omega

/-- A fill within the outstanding size: either it comes first, and the
open size wraps, or the open size covers it. -/
theorem Order.Standing.fill {o : Order ι} {acked : Prop}
    (h : o.Standing acked) {n : Nat} (hn : (n : Int) ≤ o.outstanding)
    (price : Rat) (ts : Timestamp) (exts : Nat) (feeCode : FillFeeCode) :
    (orderUpdateOnFill o n price ts exts feeCode).Standing acked := by
  have hsize := o.size_lt
  have hopen := h.open_lt
  have hle : o.filledSize + o.cancelledSize + n ≤ o.size := by
    unfold Order.outstanding at hn
    have := h.within
    omega
  have hfilled := filledSize_fill (o := o) (n := n) (by omega) price ts
    exts feeCode
  have hlt : (orderUpdateOnFill o n price ts exts feeCode).openSize
      < 4294967296 := u32_lt _
  -- the open size after the fill
  have hopen' : (orderUpdateOnFill o n price ts exts feeCode).openSize
      = u32 (o.openSize - n) := rfl
  have hans : (orderUpdateOnFill o n price ts exts feeCode).Answered acked
      ↔ o.Answered acked ∨ 0 < n := by
    unfold Order.Answered
    rw [hfilled, or_assoc]
    refine or_congr_right ?_
    omega
  refine ⟨?_, hlt, fun hidle => ?_, fun hnow => ?_, fun _ hlive => ?_⟩
  · rw [hfilled]
    show o.filledSize + n + o.cancelledSize ≤ o.size
    omega
  · rw [hans] at hidle
    have hzero := h.idle fun ha => hidle (.inl ha)
    have hn0 : n = 0 := by
      by_contra hne
      exact hidle (.inr (by omega))
    rw [hopen', hzero, hn0]
    rfl
  · rw [hfilled, hopen']
    show o.size ≤ _ + (o.filledSize + n) + o.cancelledSize
    by_cases hbefore : o.Answered acked
    · have hcovers := h.covers hbefore
      by_cases hfits : n ≤ o.openSize
      · rw [u32_sub_of_le hopen hfits]
        omega
      · omega
    · have hpos := (hans.mp hnow).resolve_left hbefore
      have hzero := h.idle hbefore
      rw [hzero, u32]
      omega
  · rw [hfilled] at hlive
    have hlive : o.filledSize + n + o.cancelledSize < o.size := hlive
    show (if u32 (n + o.filledSize) = o.size then OrderState.filled
      else OrderState.partiallyFilled).final = false
    have hne : u32 (n + o.filledSize) ≠ o.size := by
      have := u32_add_of_fits (a := n) (b := o.filledSize) (by omega)
      omega
    rw [if_neg hne]
    rfl

/-- A cancel within the outstanding size ends an answered order only with
the last of it. -/
theorem Order.Standing.cancel {o : Order ι} {acked : Prop}
    (h : o.Standing acked) {n : Nat} (hn : (n : Int) ≤ o.outstanding)
    (ts : Timestamp) (exts : Nat) :
    (orderUpdateOnCancel o n ts exts).Standing acked := by
  have hsize := o.size_lt
  have hopen := h.open_lt
  have hle : o.filledSize + o.cancelledSize + n ≤ o.size := by
    unfold Order.outstanding at hn
    have := h.within
    omega
  have hcancelled := cancelledSize_cancel (o := o) (n := n) (by omega) ts
    exts
  have hans : (orderUpdateOnCancel o n ts exts).Answered acked
      ↔ o.Answered acked := by
    rw [orderUpdateOnCancel_eq]
    rfl
  have hfilled := filledSize_cancel o n ts exts
  have hsame := size_cancel o n ts exts
  have hopen' := openSize_cancel hopen n ts exts
  refine ⟨by omega, by omega, fun hidle => ?_, fun hnow => ?_,
    fun hnow hlive => ?_⟩
  · have := h.idle fun ha => hidle (hans.mpr ha)
    omega
  · have := h.covers (hans.mp hnow)
    omega
  · have hcovers := h.covers (hans.mp hnow)
    have hpart : ¬n ≥ o.openSize := by omega
    rw [orderUpdateOnCancel_eq]
    show (if n ≥ o.openSize then OrderState.cancelled
      else OrderState.partiallyCancelled).final = false
    rw [if_neg hpart]
    rfl

/-- A state that is not final, and nothing else of what counts, written
to the order. -/
theorem Order.Standing.restate {o o' : Order ι} {acked : Prop}
    (h : o.Standing acked) (hsize : o'.size = o.size)
    (hopen : o'.openSize = o.openSize)
    (hfilled : o'.filledSize = o.filledSize)
    (hcancelled : o'.cancelledSize = o.cancelledSize)
    (hstate : o'.state.final = false) : o'.Standing acked := by
  obtain ⟨within, open_lt, idle, covers, -⟩ := h
  unfold Order.Answered at idle covers
  refine ⟨?_, ?_, ?_, ?_, fun _ _ => hstate⟩
  · rwa [hsize, hfilled, hcancelled]
  · rwa [hopen]
  · unfold Order.Answered
    rwa [hopen, hfilled]
  · unfold Order.Answered
    rwa [hsize, hopen, hfilled, hcancelled]

-- ================================================================= a run

variable [DecidableEq ω] [DecidableEq ι]

/-- Sent, not rejected, and something left of it. -/
def Trading.Live (t : Trading ω ι) (w : ω) : Prop :=
  w ∈ t.sent ∧ w ∉ t.rejected
    ∧ (t.om.order w).filledSize + (t.om.order w).cancelledSize
      < (t.om.order w).size

structure LiveInv (t : Trading ω ι) : Prop where
  sent_seen : t.sent ⊆ t.seen
  /-- Nothing happens to an order before `send`. -/
  fresh : ∀ w ∉ t.seen, w ∉ t.acked ∧ (t.om.order w).session = none
    ∧ (t.om.order w).filledSize = 0 ∧ (t.om.order w).cancelledSize = 0
    ∧ (t.om.order w).openSize = 0
  listed : ∀ w ∈ t.sent, some w ∈ t.om.orders
  standing : ∀ w ∈ t.sent, w ∉ t.rejected →
    (t.om.order w).Standing (w ∈ t.acked)

omit [DecidableEq ι] in
/-- An event that writes one order, which has a session, and perhaps its
marks. -/
theorem LiveInv.touch {t t' : Trading ω ι} (h : LiveInv t) {w : ω}
    {o : Order ι} (hsession : (t.om.order w).session ≠ none)
    (hseen : t'.seen = t.seen) (hsent : t'.sent = t.sent)
    (horders : t'.om.orders = t.om.orders)
    (horder : t'.om.order = Function.update t.om.order w o)
    (hacked : ∀ v, v ≠ w → (v ∈ t'.acked ↔ v ∈ t.acked))
    (hrejected : t.rejected ⊆ t'.rejected)
    (hstand : w ∈ t.sent → w ∉ t'.rejected → o.Standing (w ∈ t'.acked)) :
    LiveInv t' := by
  have hother : ∀ v, v ≠ w → t'.om.order v = t.om.order v := by
    intro v hv
    rw [horder, Function.update_of_ne hv]
  refine ⟨?_, fun v hv => ?_, fun v hv => ?_, fun v hv hnot => ?_⟩
  · rw [hsent, hseen]
    exact h.sent_seen
  · rw [hseen] at hv
    have hfresh := h.fresh v hv
    have hne : v ≠ w := by
      rintro rfl
      exact hsession hfresh.2.1
    rw [hacked v hne, hother v hne]
    exact hfresh
  · rw [horders]
    rw [hsent] at hv
    exact h.listed v hv
  · rw [hsent] at hv
    by_cases hne : v = w
    · subst hne
      rw [horder, Function.update_self]
      exact hstand hv hnot
    · rw [hother v hne, hacked v hne]
      exact h.standing v hv fun hr => hnot (hrejected hr)

theorem liveInv_send {t : Trading ω ι} (h : LiveInv t) {w : ω}
    (hw : w ∉ t.seen) (session : Bytes) (a : OrderManager.SendAnswer) :
    LiveInv (t.step (.send w session a)) := by
  obtain ⟨hacked, -, hfilled, hcancelled, hopen⟩ := h.fresh w hw
  have hnotsent : w ∉ t.sent := fun hs => hw (h.sent_seen hs)
  obtain ⟨o, hwrites⟩ := t.om.send_writes w session a
  have hother : ∀ v, v ≠ w →
      (t.step (.send w session a)).om.order v = t.om.order v :=
    fun v hv => t.step_order_of_ne (Ne.symm hv)
  have hsent := t.mem_sent_send w session a
  refine ⟨fun v hv => ?_, fun v hv => ?_, fun v hv => ?_,
    fun v hv hnot => ?_⟩
  · show v ∈ insert w t.seen
    rcases (hsent v).mp hv with hv | ⟨rfl, -⟩
    · exact Finset.mem_insert_of_mem (h.sent_seen hv)
    · exact Finset.mem_insert_self ..
  · have hv : v ∉ insert w t.seen := hv
    rw [Finset.mem_insert, not_or] at hv
    rw [hother v hv.1]
    exact h.fresh v hv.2
  · show some v ∈ (t.om.send w session a).2.orders
    rw [hwrites.orders]
    rcases (hsent v).mp hv with hv | ⟨rfl, -⟩
    · exact List.mem_append_left _ (h.listed v hv)
    · exact List.mem_append_right _ (List.mem_singleton_self _)
  · rcases (hsent v).mp hv with hv | ⟨rfl, hr⟩
    · have hne : v ≠ w := fun he => hnotsent (he ▸ hv)
      rw [hother v hne]
      exact h.standing v hv hnot
    · have hans : (v ∈ (t.step (.send v session a)).acked) = False :=
        propext ⟨hacked, False.elim⟩
      rw [hans]
      rcases t.om.send_spec v session a with ⟨-, side, hacc⟩ | ⟨hr', -⟩
      · show ((t.om.send v session a).2.order v).Standing False
        rw [hacc.order, Function.update_self]
        exact .sent hfilled hcancelled hopen
      · rw [hr] at hr'
        cases hr'

theorem liveInv_step (t : Trading ω ι) (e : Event ω) (h : LiveInv t)
    (hok : t.Within e) : LiveInv (t.step e) := by
  cases e with
  | send w session a => exact liveInv_send h hok session a
  | cancel w newqty a =>
      rcases t.om.cancel_cases w newqty a with heq | ⟨hs, -, heq⟩
      · show LiveInv { t with om := (t.om.cancel w newqty a).2 }
        rw [heq]
        exact h
      · refine h.touch (w := w)
          (o := OrderManager.pendingCancelOrder (t.om.order w) newqty a)
          hs rfl rfl ?_ ?_ (fun _ _ => Iff.rfl) (Finset.Subset.refl _) ?_
        · show (t.om.cancel w newqty a).2.orders = _
          rw [heq]
          rfl
        · show (t.om.cancel w newqty a).2.order = _
          rw [heq]
          rfl
        · intro hsent hnot
          exact (h.standing w hsent hnot).restate rfl rfl rfl rfl rfl
  | destroy w onlyIfTerminal sessionDestroys => exact hok.elim
  | acknowledged w exchangeID size ts exts =>
      obtain ⟨hs, rfl⟩ := hok
      refine h.touch hs rfl rfl rfl rfl (fun v hv => ?_)
        (Finset.Subset.refl _) fun hsent hnot => ?_
      · show v ∈ insert w t.acked ↔ _
        rw [Finset.mem_insert, or_iff_right hv]
      · have hans : (w ∈ insert w t.acked) = True :=
          eq_true (Finset.mem_insert_self ..)
        show Order.Standing _ (w ∈ insert w t.acked)
        rw [hans]
        exact (h.standing w hsent hnot).ack exchangeID ts exts
  | rejected w ts exts =>
      refine h.touch hok rfl rfl rfl rfl (fun _ _ => Iff.rfl)
        (Finset.subset_insert ..) fun _ hnot => ?_
      exact absurd (Finset.mem_insert_self ..) hnot
  | fill w size price ts exts feeCode =>
      refine h.touch hok.1 rfl rfl rfl rfl (fun _ _ => Iff.rfl)
        (Finset.Subset.refl _) fun hsent hnot => ?_
      exact (h.standing w hsent hnot).fill hok.2 price ts exts feeCode
  | cancelled w size ts exts =>
      refine h.touch hok.1 rfl rfl rfl rfl (fun _ _ => Iff.rfl)
        (Finset.Subset.refl _) fun hsent hnot => ?_
      exact (h.standing w hsent hnot).cancel hok.2 ts exts
  | cancelRejected w ts exts =>
      refine h.touch hok rfl rfl rfl rfl (fun _ _ => Iff.rfl)
        (Finset.Subset.refl _) fun hsent hnot => ?_
      exact (h.standing w hsent hnot).restate rfl rfl rfl rfl rfl

omit [DecidableEq ω] [DecidableEq ι] in
theorem liveInv_start (c : OrderManagerConf ω ι) :
    LiveInv (Trading.start c) := by
  obtain ⟨sessions, records, hstart, -⟩ := OrderManager.start_frame c
  refine ⟨Finset.Subset.refl _, fun w _ => ⟨Finset.notMem_empty w, ?_⟩,
    fun w hw => absurd hw (Finset.notMem_empty w),
    fun w hw => absurd hw (Finset.notMem_empty w)⟩
  show ((OrderManager.start c).order w).session = none
    ∧ ((OrderManager.start c).order w).filledSize = 0
    ∧ ((OrderManager.start c).order w).cancelledSize = 0
    ∧ ((OrderManager.start c).order w).openSize = 0
  rw [hstart]
  exact ⟨rfl, rfl, rfl, rfl⟩

-- ================================================================ queries

namespace OrderManager

/-- Every way there is to get hold of an open order works for `w`. -/
structure Reaches (om : OrderManager ω ι) (w : ω) : Prop where
  not_terminal : (om.order w).isTerminal = false
  is_open : (om.order w).isOpen = true
  cancel : ∀ newqty a, (om.cancel w newqty a).1 ≠ .terminal
  listed : w ∈ om.openOrders
  found : ∀ pred answer, pred (om.order w) = true →
    w ∈ (om.findAndCancel pred answer).1
  swept : ∀ answer, w ∈ (om.cancelAll answer).1
  kept : ∀ sessionDestroys, om.destroy w true sessionDestroys = (false, om)

omit [DecidableEq ι] in
/-- The loop forgets no order it tried. -/
theorem mem_findAndCancelLoop_of_mem {pred : Order ι → Bool}
    {answer : ω → CancelAnswer} {w : ω} (ps : List (Option ω)) :
    ∀ {acc : List ω × Nat × OrderManager ω ι}, w ∈ acc.1 →
      w ∈ (findAndCancelLoop pred answer ps acc).1 := by
  induction ps with
  | nil => exact id
  | cons p ps ih =>
      rintro ⟨tried, count, om⟩ hw
      cases p with
      | none => exact ih hw
      | some v =>
          unfold findAndCancelLoop
          split
          · exact ih (List.mem_append_left _ hw)
          · exact ih hw

omit [DecidableEq ι] in
/-- The loop tries every order that the predicate takes and that is not
terminal; the requests before it go to other orders. -/
theorem mem_findAndCancelLoop {pred : Order ι → Bool}
    {answer : ω → CancelAnswer} {w : ω} (ps : List (Option ω)) :
    ∀ {acc : List ω × Nat × OrderManager ω ι}, some w ∈ ps →
      (acc.2.2.order w).isTerminal = false →
      pred (acc.2.2.order w) = true →
      w ∈ (findAndCancelLoop pred answer ps acc).1 := by
  induction ps with
  | nil =>
      intro _ hmem
      cases hmem
  | cons p ps ih =>
      rintro ⟨tried, count, om⟩ hmem hterm hpred
      cases p with
      | none => exact ih (by simpa using hmem) hterm hpred
      | some v =>
          unfold findAndCancelLoop
          dsimp only at hterm hpred ⊢
          by_cases hv : v = w
          · subst hv
            rw [hterm, hpred]
            exact mem_findAndCancelLoop_of_mem ps
              (List.mem_append_right _ (List.mem_singleton_self _))
          · have hrest : some w ∈ ps := by
              rcases List.mem_cons.mp hmem with heq | hrest
              · exact absurd (Option.some.inj heq).symm hv
              · exact hrest
            have hkept := om.cancel_order_of_ne (Ne.symm hv) 0 (answer v)
            split
            · refine ih hrest ?_ ?_
              · rw [hkept]
                exact hterm
              · rw [hkept]
                exact hpred
            · exact ih hrest hterm hpred

omit [DecidableEq ι] in
/-- For an order in `m_orders` it is all a matter of `isTerminal`. -/
theorem reaches_iff {om : OrderManager ω ι} {w : ω}
    (hw : some w ∈ om.orders) :
    om.Reaches w ↔ (om.order w).isTerminal = false := by
  constructor
  · exact Reaches.not_terminal
  · intro h
    refine ⟨h, Order.isOpen_of_not_terminal h, fun newqty a => ?_, ?_,
      fun pred answer hpred => mem_findAndCancelLoop om.orders hw h hpred,
      fun answer => mem_findAndCancelLoop om.orders hw h rfl,
      fun sessionDestroys => ?_⟩
    · unfold cancel
      dsimp only
      rw [h]
      split
      · simp
      · rw [if_neg Bool.false_ne_true]
        split
        · simp
        · split <;> simp
    · unfold openOrders unsafeOrderFilter
      exact List.mem_filterMap.mpr ⟨some w, hw, by simp [h]⟩
    · unfold destroy
      dsimp only
      rw [h]
      rfl

end OrderManager

-- ================================================================= result

/-- In every reachable state a live order can be reached if and only if
it has been acknowledged, or some of it has been filled. -/
theorem live_order_reached_iff (c : OrderManagerConf ω ι)
    (es : List (Event ω))
    (hes : Lib.Admits Trading.step Trading.Within (Trading.start c) es)
    (w : ω) :
    let t := Lib.run Trading.step (Trading.start c) es
    t.Live w →
      (t.om.Reaches w ↔ w ∈ t.acked ∨ 0 < (t.om.order w).filledSize) := by
  rintro t ⟨hsent, hnotrej, hlive⟩
  have hinv : LiveInv t :=
    Lib.run_invariant liveInv_step (liveInv_start c) hes
  have hstand := hinv.standing w hsent hnotrej
  rw [OrderManager.reaches_iff (hinv.listed w hsent)]
  exact hstand.isTerminal_iff hlive

/-- After the acknowledgment, with a part cancelled. -/
theorem live_order_reached_iff_demo :
    let c : OrderManagerConf Unit Unit := .plain fun _ =>
      .dayLimit () .buy 10 5
    let t := Lib.run Trading.step (Trading.start c)
      [.send () [66] .taken, .acknowledged () 1 10 ⟨1, 0⟩ 1,
        .cancelled () 4 ⟨2, 0⟩ 2]
    t.om.Reaches () := by
  intro c t
  exact (live_order_reached_iff c _ (by decide +kernel) ()
    ⟨by decide +kernel, by decide +kernel, by decide +kernel⟩).mpr
    (.inl (by decide +kernel))

/-- An order that was sent, and of which nothing has been heard: it is
live and terminal, `cancel` refuses it, `open_orders` does not list it,
`cancel_all` tries nothing and `destroy` hands it to its session, which
lets a terminal order go. -/
theorem unacknowledged_order_unreachable :
    let c : OrderManagerConf Unit Unit := .plain fun _ =>
      .dayLimit () .buy 10 5
    let es : List (Event Unit) := [.send () [66] .taken]
    let t := Lib.run Trading.step (Trading.start c) es
    Lib.Admits Trading.step Trading.Within (Trading.start c) es
      ∧ t.Live ()
      ∧ (t.om.order ()).isTerminal = true
      ∧ (t.om.order ()).isOpen = false
      ∧ (t.om.cancel () 0 ⟨true, ⟨1, 0⟩⟩).1 = .terminal
      ∧ t.om.openOrders = []
      ∧ (t.om.cancelAll fun _ => ⟨true, ⟨1, 0⟩⟩).1 = []
      ∧ (t.om.destroy () true true).1 = true := by
  unfold Trading.Live
  decide +kernel

end TradingEngine.OE
