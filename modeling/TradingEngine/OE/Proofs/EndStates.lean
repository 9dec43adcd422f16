/-
`FILLED` and `CANCELLED` as the end of an order.

The exchange handlers write the state of an order without a look at the
one before. What they write over is nothing that ended as long as no
message comes late: `Order.Ends` says what the two states then stand for,
and that a full order is `FILLED`. A run keeps every end exactly if it is
`InTime`.

Nothing is asked about where the acknowledgment comes, or how often, and
sizes of zero are sizes.

# Late messages

An order that ended has nothing open, so a message that changes its state is
one that came after it was over: an acknowledgment, an answer to a cancel
request, or a fill or cancel of nothing. `InTime` names these, by the state
of the order before the message. Along messages in time an order keeps its
end (the step lemma), and the first message that is late takes an end away,
or leaves a full order that is not `FILLED`.
-/
import TradingEngine.OE.Proofs.Send

namespace TradingEngine.OE

variable {ω ι : Type}

-- ============================================================== the order

/-- The two states an order on the exchange ends in. -/
def OrderState.ended : OrderState → Bool
  | .filled | .cancelled => true
  | _ => false

theorem OrderState.ended_iff {s : OrderState} :
    s.ended = true ↔ s = .filled ∨ s = .cancelled := by
  cases s <;> decide

/-- An order that is not terminal has not ended. -/
theorem OrderState.ended_of_not_terminal {o : Order ι}
    (h : o.isTerminal = false) : o.state.ended = false := by
  obtain ⟨-, hfinal⟩ := Order.isTerminal_eq_false.mp h
  cases hst : o.state <;> rw [hst] at hfinal <;>
    first | rfl | cases hfinal

/-- What holds of a sent order on which nothing came late. -/
structure Order.Ends (o : Order ι) : Prop where
  positive : 0 < o.size
  within : o.filledSize + o.cancelledSize ≤ o.size
  filled : o.state = .filled ↔ o.filledSize = o.size
  cancelled : o.state = .cancelled → o.openSize = 0

/-- A state that is no end, written over one that was none. -/
theorem Order.Ends.restate {o o' : Order ι} (h : o.Ends)
    (hsize : o'.size = o.size) (hfilled : o'.filledSize = o.filledSize)
    (hcancelled : o'.cancelledSize = o.cancelledSize)
    (hopen : o.state.ended = false) (hstate : o'.state.ended = false) :
    o'.Ends := by
  have hnot : o.state ≠ .filled := fun hst => by
    rw [hst] at hopen
    cases hopen
  have hnot' : o'.state ≠ .filled := fun hst => by
    rw [hst] at hstate
    cases hstate
  refine ⟨?_, ?_, iff_of_false hnot' ?_, fun hst => ?_⟩
  · rw [hsize]
    exact h.positive
  · rw [hfilled, hcancelled, hsize]
    exact h.within
  · rw [hfilled, hsize]
    exact fun hfull => hnot (h.filled.mpr hfull)
  · rw [hst] at hstate
    cases hstate

/-- The state after a fill within the size. -/
theorem state_fill_eq_filled_iff {o : Order ι} {n : Nat}
    (hn : o.filledSize + n ≤ o.size) (price : Rat) (ts : Timestamp)
    (exts : Nat) (feeCode : FillFeeCode) :
    (orderUpdateOnFill o n price ts exts feeCode).state = .filled
      ↔ o.filledSize + n = o.size := by
  have hsize := o.size_lt
  have hadd : u32 ((n : Int) + o.filledSize) = n + o.filledSize :=
    u32_add_of_fits (by omega)
  show (if u32 ((n : Int) + o.filledSize) = o.size then OrderState.filled
    else .partiallyFilled) = .filled ↔ _
  rw [hadd]
  split
  case isTrue hfull =>
    exact iff_of_true rfl (by omega)
  case isFalse hpart =>
    exact iff_of_false nofun (by omega)

/-- A fill leaves no order `CANCELLED`. -/
theorem state_fill_ne_cancelled (o : Order ι) (n : Nat) (price : Rat)
    (ts : Timestamp) (exts : Nat) (feeCode : FillFeeCode) :
    (orderUpdateOnFill o n price ts exts feeCode).state ≠ .cancelled := by
  show (if _ then OrderState.filled else .partiallyFilled) ≠ .cancelled
  split <;> nofun

theorem Order.Ends.fill {o : Order ι} (h : o.Ends) {n : Nat}
    (hn : (n : Int) ≤ o.outstanding) (price : Rat) (ts : Timestamp)
    (exts : Nat) (feeCode : FillFeeCode) :
    (orderUpdateOnFill o n price ts exts feeCode).Ends := by
  have hwithin := h.within
  unfold Order.outstanding at hn
  have hfilled := filledSize_fill (o := o) (n := n) (by omega) price ts
    exts feeCode
  refine ⟨h.positive, ?_, ?_, fun hst => ?_⟩
  · rw [hfilled]
    show o.filledSize + n + o.cancelledSize ≤ o.size
    omega
  · rw [hfilled]
    exact state_fill_eq_filled_iff (by omega) price ts exts feeCode
  · exact absurd hst (state_fill_ne_cancelled o n price ts exts feeCode)

/-- What is left of a full order is nothing, so that a fill of it changes
no state. -/
theorem Order.Ends.state_fill {o : Order ι} (h : o.Ends)
    (hfull : o.state = .filled) {n : Nat} (hn : (n : Int) ≤ o.outstanding)
    (price : Rat) (ts : Timestamp) (exts : Nat) (feeCode : FillFeeCode) :
    (orderUpdateOnFill o n price ts exts feeCode).state = .filled := by
  have hsize := h.filled.mp hfull
  unfold Order.outstanding at hn
  exact (state_fill_eq_filled_iff (by omega) price ts exts feeCode).mpr
    (by omega)

/-- A cancel leaves no order `FILLED`. -/
theorem state_cancel_ne_filled (o : Order ι) (n : Nat) (ts : Timestamp)
    (exts : Nat) : (orderUpdateOnCancel o n ts exts).state ≠ .filled := by
  unfold orderUpdateOnCancel
  split <;> intro h <;> cases h

theorem Order.Ends.state_cancel {o : Order ι} (h : o.Ends)
    (hout : o.state = .cancelled) (n : Nat) (ts : Timestamp) (exts : Nat) :
    (orderUpdateOnCancel o n ts exts).state = .cancelled := by
  have hopen := h.cancelled hout
  unfold orderUpdateOnCancel
  rw [if_pos (by omega)]

/-- A cancel that finds the order not full does not fill it, and one that
ends it leaves nothing open. -/
theorem Order.Ends.cancel {o : Order ι} (h : o.Ends) {n : Nat}
    (hn : (n : Int) ≤ o.outstanding) (hopen : o.state ≠ .filled)
    (ts : Timestamp) (exts : Nat) :
    (orderUpdateOnCancel o n ts exts).Ends := by
  have hwithin := h.within
  unfold Order.outstanding at hn
  have hcancelled := cancelledSize_cancel (o := o) (n := n) (by omega) ts
    exts
  have hpart : o.filledSize ≠ o.size := fun hfull =>
    hopen (h.filled.mpr hfull)
  rw [orderUpdateOnCancel_eq] at hcancelled ⊢
  refine ⟨h.positive, ?_, ?_, ?_⟩
  · rw [hcancelled]
    show o.filledSize + (o.cancelledSize + n) ≤ o.size
    omega
  · refine iff_of_false ?_ hpart
    rw [← orderUpdateOnCancel_eq]
    exact state_cancel_ne_filled o n ts exts
  · dsimp only
    split
    · exact fun _ => rfl
    · nofun

-- ================================================================== a run

variable [DecidableEq ω] [DecidableEq ι]

namespace Trading

/-- The event leaves every order that ended as it is, and every full order
`FILLED`. -/
def KeepsEnds (t : Trading ω ι) (e : Event ω) : Prop :=
  ∀ w, ((t.om.order w).state.ended = true →
      ((t.step e).om.order w).state = (t.om.order w).state)
    ∧ (w ∈ (t.step e).sent →
      ((t.step e).om.order w).filledSize = ((t.step e).om.order w).size →
      ((t.step e).om.order w).state = .filled)

/-- No answer is late: not to a new order or a cancel request that is for
an order that ended, not a fill (of nothing) for one that is `CANCELLED`,
not a cancel (of nothing) for one that is `FILLED`. -/
def InTime (t : Trading ω ι) : Event ω → Prop
  | .acknowledged w _ _ _ _ => (t.om.order w).state.ended = false
  | .rejected w _ _ => (t.om.order w).state.ended = false
  | .cancelRejected w _ _ => (t.om.order w).state.ended = false
  | .fill w _ _ _ _ _ => (t.om.order w).state ≠ .cancelled
  | .cancelled w _ _ _ => (t.om.order w).state ≠ .filled
  | _ => True

instance (t : Trading ω ι) : (e : Event ω) → Decidable (t.InTime e)
  | .send .. | .cancel .. | .destroy .. | .acknowledged .. | .rejected ..
  | .fill .. | .cancelled .. | .cancelRejected .. => by
      unfold InTime
      infer_instance

/-- What a day keeps on which nothing comes late. -/
structure EndInv (t : Trading ω ι) : Prop where
  sent_seen : t.sent ⊆ t.seen
  fresh : ∀ w ∉ t.seen,
    (t.om.order w).filledSize = 0 ∧ (t.om.order w).cancelledSize = 0
  /-- Only orders that were sent end this way. -/
  unsent : ∀ w ∉ t.sent, (t.om.order w).state.ended = false
  ends : ∀ w ∈ t.sent, (t.om.order w).Ends

omit [DecidableEq ι] in
/-- A sent order was written to. -/
theorem EndInv.touch {t t' : Trading ω ι} (h : EndInv t) {w : ω}
    {o : Order ι} (hw : w ∈ t.sent) (hseen : t'.seen = t.seen)
    (hsent : t'.sent = t.sent)
    (horder : t'.om.order = Function.update t.om.order w o)
    (ho : o.Ends) : EndInv t' := by
  have hother : ∀ v, v ≠ w → t'.om.order v = t.om.order v := by
    intro v hv
    rw [horder, Function.update_of_ne hv]
  refine ⟨?_, fun v hv => ?_, fun v hv => ?_, fun v hv => ?_⟩
  · rw [hsent, hseen]
    exact h.sent_seen
  · rw [hseen] at hv
    rw [hother v fun he => hv (he ▸ h.sent_seen hw)]
    exact h.fresh v hv
  · rw [hsent] at hv
    rw [hother v fun he => hv (he ▸ hw)]
    exact h.unsent v hv
  · rw [hsent] at hv
    by_cases hne : v = w
    · rw [hne, horder, Function.update_self]
      exact ho
    · rw [hother v hne]
      exact h.ends v hv

theorem endInv_send {t : Trading ω ι} (h : EndInv t) {w : ω}
    (hw : w ∉ t.seen) (session : Bytes) (a : OrderManager.SendAnswer) :
    EndInv (t.step (.send w session a)) := by
  obtain ⟨hfilled, hcancelled⟩ := h.fresh w hw
  have hnotsent : w ∉ t.sent := fun hs => hw (h.sent_seen hs)
  have hother : ∀ v, v ≠ w →
      (t.step (.send w session a)).om.order v = t.om.order v :=
    fun v hv => t.step_order_of_ne (Ne.symm hv)
  have hsent := t.mem_sent_send w session a
  refine ⟨fun v hv => ?_, fun v hv => ?_, fun v hv => ?_, fun v hv => ?_⟩
  · show v ∈ insert w t.seen
    rcases (hsent v).mp hv with hv | ⟨rfl, -⟩
    · exact Finset.mem_insert_of_mem (h.sent_seen hv)
    · exact Finset.mem_insert_self ..
  · have hv : v ∉ insert w t.seen := hv
    rw [Finset.mem_insert, not_or] at hv
    rw [hother v hv.1]
    exact h.fresh v hv.2
  · rw [hsent, not_or] at hv
    by_cases hne : v = w
    · subst hne
      -- refused: the state says so
      have hr : (t.om.send v session a).1 = false :=
        Bool.eq_false_iff.mpr fun hr => hv.2 ⟨rfl, hr⟩
      obtain ⟨o, hwrites⟩ := t.om.send_writes v session a
      rw [hr] at hwrites
      show ((t.om.send v session a).2.order v).state.ended = false
      rw [hwrites.order, Function.update_self, hwrites.state]
      rfl
    · rw [hother v hne]
      exact h.unsent v hv.1
  · rcases (hsent v).mp hv with hv | ⟨rfl, hr⟩
    · rw [hother v fun he => hnotsent (he ▸ hv)]
      exact h.ends v hv
    · rcases t.om.send_spec v session a with ⟨-, side, hacc⟩ | ⟨hr', -⟩
      · obtain ⟨-, -, hpos, -⟩ := Order.validateBase_spec hacc.valid
        show ((t.om.send v session a).2.order v).Ends
        rw [hacc.order, Function.update_self]
        refine ⟨hpos, ?_, iff_of_false nofun ?_, nofun⟩
        · show (t.om.order v).filledSize + (t.om.order v).cancelledSize
            ≤ (t.om.order v).size
          omega
        · show (t.om.order v).filledSize ≠ (t.om.order v).size
          omega
      · rw [hr] at hr'
        cases hr'

/-- The step lemma. -/
theorem endInv_step {t : Trading ω ι} (h : EndInv t) {e : Event ω}
    (hok : t.Orderly e) (htime : t.InTime e) : EndInv (t.step e) := by
  cases e with
  | send w session a => exact endInv_send h hok session a
  | cancel w newqty a =>
      rcases t.om.cancel_cases w newqty a with heq | ⟨-, hterminal, heq⟩
      · show EndInv { t with om := (t.om.cancel w newqty a).2 }
        rw [heq]
        exact h
      · have hopen := OrderState.ended_of_not_terminal hterminal
        have horder : (t.step (.cancel w newqty a)).om.order
            = Function.update t.om.order w
              (OrderManager.pendingCancelOrder (t.om.order w) newqty a) := by
          show (t.om.cancel w newqty a).2.order = _
          rw [heq]
          rfl
        by_cases hw : w ∈ t.sent
        · exact h.touch hw rfl rfl horder
            ((h.ends w hw).restate rfl rfl rfl hopen rfl)
        · refine ⟨h.sent_seen, fun v hv => ?_, fun v hv => ?_,
            fun v hv => ?_⟩
          · rw [horder]
            by_cases hne : v = w
            · rw [hne, Function.update_self]
              exact h.fresh w (hne ▸ hv)
            · rw [Function.update_of_ne hne]
              exact h.fresh v hv
          · rw [horder]
            by_cases hne : v = w
            · rw [hne, Function.update_self]
              rfl
            · rw [Function.update_of_ne hne]
              exact h.unsent v hv
          · have hne : v ≠ w := fun he => hw (he ▸ hv)
            rw [horder, Function.update_of_ne hne]
            exact h.ends v hv
  | destroy w onlyIfTerminal sessionDestroys => exact hok.elim
  | acknowledged w exchangeID size ts exts =>
      exact h.touch hok.1 rfl rfl rfl
        ((h.ends w hok.1).restate rfl rfl rfl htime rfl)
  | rejected w ts exts =>
      exact h.touch hok.1 rfl rfl rfl
        ((h.ends w hok.1).restate rfl rfl rfl htime rfl)
  | fill w size price ts exts feeCode =>
      exact h.touch hok.1 rfl rfl rfl
        ((h.ends w hok.1).fill hok.2.2 price ts exts feeCode)
  | cancelled w size ts exts =>
      exact h.touch hok.1 rfl rfl rfl
        ((h.ends w hok.1).cancel hok.2.2 htime ts exts)
  | cancelRejected w ts exts =>
      exact h.touch hok rfl rfl rfl
        ((h.ends w hok).restate rfl rfl rfl htime rfl)

/-- What is in time leaves the state of an order that ended. -/
theorem EndInv.state_step {t : Trading ω ι} (h : EndInv t) {e : Event ω}
    (hok : t.Orderly e) (htime : t.InTime e) {w : ω}
    (hended : (t.om.order w).state.ended = true) :
    ((t.step e).om.order w).state = (t.om.order w).state := by
  by_cases hw : e.about = w
  case neg => rw [t.step_order_of_ne hw]
  case pos =>
    have hsent : w ∈ t.sent := by
      by_contra hnot
      rw [h.unsent w hnot] at hended
      cases hended
    have hlate : ¬ (t.om.order w).state.ended = false :=
      fun hopen => Bool.noConfusion (hended.symm.trans hopen)
    cases e with
    | send v session a =>
        obtain rfl : v = w := hw
        exact absurd (h.sent_seen hsent) hok
    | cancel v newqty a =>
        obtain rfl : v = w := hw
        rcases t.om.cancel_cases v newqty a with heq | ⟨-, hterm, -⟩
        · show ((t.om.cancel v newqty a).2.order v).state = _
          rw [heq]
        · exact absurd (OrderState.ended_of_not_terminal hterm) hlate
    | destroy v onlyIfTerminal sessionDestroys => exact hok.elim
    | acknowledged v exchangeID size ts exts =>
        obtain rfl : v = w := hw
        exact absurd htime hlate
    | rejected v ts exts =>
        obtain rfl : v = w := hw
        exact absurd htime hlate
    | cancelRejected v ts exts =>
        obtain rfl : v = w := hw
        exact absurd htime hlate
    | fill v size price ts exts feeCode =>
        obtain rfl : v = w := hw
        have hself : (t.step (.fill v size price ts exts feeCode)).om.order v
            = orderUpdateOnFill (t.om.order v) size price ts exts feeCode :=
          Function.update_self ..
        have hfull : (t.om.order v).state = .filled :=
          (OrderState.ended_iff.mp hended).resolve_right htime
        rw [hself, hfull]
        exact (h.ends v hsent).state_fill hfull hok.2.2 price ts exts feeCode
    | cancelled v size ts exts =>
        obtain rfl : v = w := hw
        have hself : (t.step (.cancelled v size ts exts)).om.order v
            = orderUpdateOnCancel (t.om.order v) size ts exts :=
          Function.update_self ..
        have hout : (t.om.order v).state = .cancelled :=
          (OrderState.ended_iff.mp hended).resolve_left htime
        rw [hself, hout]
        exact (h.ends v hsent).state_cancel hout size ts exts

/-- What is late changes it. -/
theorem inTime_of_keepsEnds {t : Trading ω ι} {e : Event ω}
    (hkeeps : t.KeepsEnds e) : t.InTime e := by
  have hlate : ∀ {w : ω}, ((t.step e).om.order w).state.ended = false →
      (t.om.order w).state.ended = false := by
    intro w hopen
    by_contra hended
    have hsame := (hkeeps w).1 (Bool.not_eq_false _ ▸ hended)
    rw [hsame] at hopen
    exact hended hopen
  have hself : ∀ {w : ω} {o : Order ι},
      (Function.update t.om.order w o w).state = o.state := by
    intro w o
    rw [Function.update_self]
  cases e with
  | send v session a => trivial
  | cancel v newqty a => trivial
  | destroy v onlyIfTerminal sessionDestroys => trivial
  | acknowledged v exchangeID size ts exts =>
      exact hlate (congrArg OrderState.ended hself)
  | rejected v ts exts => exact hlate (congrArg OrderState.ended hself)
  | cancelRejected v ts exts => exact hlate (congrArg OrderState.ended hself)
  | fill v size price ts exts feeCode =>
      intro hout
      have hsame := (hkeeps v).1 (by rw [hout]; rfl)
      rw [hout] at hsame
      exact state_fill_ne_cancelled (t.om.order v) size price ts exts feeCode
        (hself.symm.trans hsame)
  | cancelled v size ts exts =>
      intro hfull
      have hsame := (hkeeps v).1 (by rw [hfull]; rfl)
      rw [hfull] at hsame
      exact state_cancel_ne_filled (t.om.order v) size ts exts
        (hself.symm.trans hsame)

theorem keepsEnds_iff {t : Trading ω ι} (h : EndInv t) {e : Event ω}
    (hok : t.Orderly e) : t.KeepsEnds e ↔ t.InTime e := by
  constructor
  · exact inTime_of_keepsEnds
  · intro htime w
    have hnext := endInv_step h hok htime
    exact ⟨h.state_step hok htime, fun hw => (hnext.ends w hw).filled.mpr⟩

omit [DecidableEq ω] [DecidableEq ι] in
theorem endInv_start (c : OrderManagerConf ω ι) : EndInv (start c) := by
  obtain ⟨sessions, records, hstart, -⟩ := OrderManager.start_frame c
  have horder : ∀ w, (start c).om.order w = Order.create (c.params w) := by
    intro w
    show (OrderManager.start c).order w = _
    rw [hstart]
    rfl
  refine ⟨Finset.Subset.refl _, fun w _ => ?_, fun w _ => ?_,
    fun w hw => absurd hw (Finset.notMem_empty w)⟩
  · rw [horder]
    exact ⟨rfl, rfl⟩
  · rw [horder]
    rfl

end Trading

-- ================================================================= result

/-- Over a day of messages that go together, no order that is `FILLED` or
`CANCELLED` changes its state and every full order is `FILLED`, exactly if
no message comes late. -/
theorem final_states_absorb_iff (c : OrderManagerConf ω ι)
    {es : List (Event ω)}
    (hes : Lib.Admits Trading.step Trading.Orderly (Trading.start c) es) :
    Lib.Admits Trading.step Trading.KeepsEnds (Trading.start c) es
      ↔ Lib.Admits Trading.step Trading.InTime (Trading.start c) es :=
  Lib.admits_iff_of_step (I := Trading.EndInv)
    (fun _ _ h hok => Trading.keepsEnds_iff h hok)
    (fun _ _ h hok htime => Trading.endInv_step h hok htime)
    (Trading.endInv_start c) hes

/-- Two filled, and the rest cancelled as requested. -/
theorem final_states_absorb_iff_demo :
    Lib.Admits Trading.step Trading.KeepsEnds
      (Trading.start (.plain fun _ : Unit => .dayLimit () .buy 5 10))
      [.send () [66] .taken, .acknowledged () 1 5 ⟨1, 0⟩ 1,
        .fill () 2 10 ⟨2, 0⟩ 2 .unknown, .cancel () 0 ⟨true, ⟨3, 0⟩⟩,
        .cancelled () 3 ⟨4, 0⟩ 4] :=
  (final_states_absorb_iff _ (by decide +kernel)).mpr (by decide +kernel)

/-- A cancel request crosses the last fill, and its rejection takes the
order out of `FILLED`. -/
theorem late_cancel_reject_reopens_filled :
    ¬ ∀ (c : OrderManagerConf Unit Unit) (es : List (Event Unit)),
      Lib.Admits Trading.step Trading.Orderly (Trading.start c) es →
      Lib.Admits Trading.step Trading.KeepsEnds (Trading.start c) es := by
  intro h
  have hrun := h (.plain fun _ => .dayLimit () .buy 5 10)
    [.send () [66] .taken, .acknowledged () 1 5 ⟨1, 0⟩ 1,
      .cancel () 0 ⟨true, ⟨2, 0⟩⟩, .fill () 5 10 ⟨3, 0⟩ 3 .unknown,
      .cancelRejected () ⟨4, 0⟩ 4] (by decide +kernel)
  have hlast := (hrun.2.2.2.2.1 ()).1 (by decide +kernel)
  exact absurd hlast (by decide +kernel)

end TradingEngine.OE
