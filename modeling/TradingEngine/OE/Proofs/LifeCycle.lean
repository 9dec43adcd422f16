/-
The life of one order after its acknowledgment.

Three counters and the state are moved by four updates, and the states
overlap: a partial fill after a partial cancel says `PARTIALLY_FILLED`, a
rejected cancel request says `CANCEL_REJECTED` over whatever was there.
What holds them together is `Conserved`: the counters add up to the size,
and only an order with nothing left open is in a final state. From there
`isTerminal`, which reads both, is a statement about the open size alone.

Nothing is asked of what happens to other orders in between.

# Terminal

`cancel` refuses an order that is terminal, and an order is terminal if
nothing is open or if its state is final. Once `Conserved` holds, both say
the same, and a terminal order stays terminal: there is nothing left to fill
or to cancel, and no message brings anything back. So the first time is the
last.
-/
import TradingEngine.OE.Proofs.Send

namespace TradingEngine.OE

variable {ω ι : Type}

-- ============================================================== the order

/-- The counters add up, and the final states are those of an order with
nothing left open. -/
structure Order.Conserved (o : Order ι) : Prop where
  sum : o.filledSize + o.openSize + o.cancelledSize = o.size
  ended : o.state.final = true → o.openSize = 0

/-- The open size fits, being part of the size. -/
theorem Order.Conserved.openSize_lt {o : Order ι} (h : o.Conserved) :
    o.openSize < 4294967296 := by
  have hsum := h.sum
  have hsize := o.size_lt
  omega

/-- The acknowledgment of a new order with its size. -/
theorem Order.Conserved.ack {o : Order ι} (hfilled : o.filledSize = 0)
    (hcancelled : o.cancelledSize = 0) (exchangeID : Nat) (ts : Timestamp)
    (exts : Nat) :
    (orderUpdateOnAck o exchangeID o.size ts exts).Conserved := by
  refine ⟨?_, fun hfinal => ?_⟩
  · show o.filledSize + o.size + o.cancelledSize = o.size
    omega
  · cases hfinal

/-- A fill moves its size from open to filled. It ends the order with
`FILLED` only if it was all there was to fill. -/
theorem Order.Conserved.fill {o : Order ι} (h : o.Conserved) {n : Nat}
    (hn : n ≤ o.openSize) (price : Rat) (ts : Timestamp) (exts : Nat)
    (feeCode : FillFeeCode) :
    (orderUpdateOnFill o n price ts exts feeCode).Conserved := by
  have hsum := h.sum
  have hsize := o.size_lt
  have hopen := openSize_fill h.openSize_lt hn price ts exts feeCode
  have hfilled := filledSize_fill (o := o) (n := n) (by omega) price ts
    exts feeCode
  refine ⟨?_, fun hfinal => ?_⟩
  · rw [hfilled, hopen]
    show o.filledSize + n + (o.openSize - n) + o.cancelledSize = o.size
    omega
  · rw [hopen]
    have hstate : (if u32 (n + o.filledSize) = o.size then OrderState.filled
      else OrderState.partiallyFilled).final = true := hfinal
    split at hstate
    case isTrue hall =>
      have hadd : u32 ((n : Int) + o.filledSize) = n + o.filledSize :=
        u32_add_of_fits (by omega)
      omega
    case isFalse => cases hstate

/-- A cancel moves its size from open to cancelled. -/
theorem Order.Conserved.cancel {o : Order ι} (h : o.Conserved) {n : Nat}
    (hn : n ≤ o.openSize) (ts : Timestamp) (exts : Nat) :
    (orderUpdateOnCancel o n ts exts).Conserved := by
  have hsum := h.sum
  have hopen := openSize_cancel h.openSize_lt n ts exts
  have hcancelled := cancelledSize_cancel (o := o) (n := n) (by omega) ts
    exts
  refine ⟨?_, fun hfinal => ?_⟩
  · rw [filledSize_cancel, hopen, hcancelled, size_cancel]
    omega
  · rw [hopen]
    rw [orderUpdateOnCancel_eq] at hfinal
    have hstate : (if n ≥ o.openSize then OrderState.cancelled
      else OrderState.partiallyCancelled).final = true := hfinal
    split at hstate
    case isTrue hall => omega
    case isFalse => cases hstate

/-- A state that is not final, written over any other. -/
theorem Order.Conserved.restate {o o' : Order ι} (h : o.Conserved)
    (hsize : o'.size = o.size) (hfilled : o'.filledSize = o.filledSize)
    (hopen : o'.openSize = o.openSize)
    (hcancelled : o'.cancelledSize = o.cancelledSize)
    (hstate : o'.state.final = false) : o'.Conserved := by
  refine ⟨?_, fun hfinal => ?_⟩
  · rw [hfilled, hopen, hcancelled, hsize]
    exact h.sum
  · rw [hstate] at hfinal
    cases hfinal

theorem Order.Conserved.isTerminal_iff {o : Order ι} (h : o.Conserved) :
    o.isTerminal = true ↔ o.openSize = 0 := by
  rw [Order.isTerminal_eq, Bool.or_eq_true, beq_iff_eq]
  exact or_iff_left_of_imp h.ended

-- ================================================================== a run

variable [DecidableEq ω] [DecidableEq ι]

namespace Trading

/-- What may happen to an acknowledged order: fills and cancels of at most
what is open, requests to cancel it and their rejections. -/
def LifeOf (w : ω) (t : Trading ω ι) : Event ω → Prop
  | .send v _ _ => v ≠ w
  | .cancel .. => True
  | .destroy v _ _ => v ≠ w
  | .acknowledged v _ _ _ _ => v ≠ w
  | .rejected v _ _ => v ≠ w
  | .fill v size _ _ _ _ => v = w → size ≤ (t.om.order w).openSize
  | .cancelled v size _ _ => v = w → size ≤ (t.om.order w).openSize
  | .cancelRejected .. => True

instance (w : ω) (t : Trading ω ι) :
    (e : Event ω) → Decidable (t.LifeOf w e)
  | .send .. | .cancel .. | .destroy .. | .acknowledged .. | .rejected ..
  | .fill .. | .cancelled .. | .cancelRejected .. => by
      unfold LifeOf
      infer_instance

/-- Along the life of an order the sizes stay conserved, and nothing opens
it again. -/
theorem conserved_step {w : ω} {t : Trading ω ι} {e : Event ω}
    (h : (t.om.order w).Conserved) (hlife : t.LifeOf w e) :
    ((t.step e).om.order w).Conserved
      ∧ ((t.step e).om.order w).openSize ≤ (t.om.order w).openSize := by
  by_cases hw : e.about = w
  case neg =>
    rw [t.step_order_of_ne hw]
    exact ⟨h, le_rfl⟩
  case pos =>
    have still : ∀ {o' : Order ι}, o'.size = (t.om.order w).size →
        o'.filledSize = (t.om.order w).filledSize →
        o'.openSize = (t.om.order w).openSize →
        o'.cancelledSize = (t.om.order w).cancelledSize →
        o'.state.final = false →
        o'.Conserved ∧ o'.openSize ≤ (t.om.order w).openSize :=
      fun hsize hfilled hopen hcancelled hstate =>
        ⟨h.restate hsize hfilled hopen hcancelled hstate, hopen.le⟩
    cases e with
    | send v session a => exact absurd hw hlife
    | destroy v onlyIfTerminal sessionDestroys => exact absurd hw hlife
    | acknowledged v exchangeID size ts exts => exact absurd hw hlife
    | rejected v ts exts => exact absurd hw hlife
    | cancel v newqty a =>
        obtain rfl : v = w := hw
        rcases t.step_cancel_order v newqty a with hself | hself
        · rw [hself]
          exact ⟨h, le_rfl⟩
        · rw [hself]
          exact still rfl rfl rfl rfl rfl
    | fill v size price ts exts feeCode =>
        obtain rfl : v = w := hw
        have hn := hlife rfl
        have hself : (t.step (.fill v size price ts exts feeCode)).om.order v
            = orderUpdateOnFill (t.om.order v) size price ts exts feeCode :=
          Function.update_self ..
        rw [hself, openSize_fill h.openSize_lt hn]
        exact ⟨h.fill hn price ts exts feeCode, Nat.sub_le ..⟩
    | cancelled v size ts exts =>
        obtain rfl : v = w := hw
        have hn := hlife rfl
        have hself : (t.step (.cancelled v size ts exts)).om.order v
            = orderUpdateOnCancel (t.om.order v) size ts exts :=
          Function.update_self ..
        rw [hself, openSize_cancel h.openSize_lt]
        exact ⟨h.cancel hn ts exts, Nat.sub_le ..⟩
    | cancelRejected v ts exts =>
        obtain rfl : v = w := hw
        have hself : (t.step (.cancelRejected v ts exts)).om.order v
            = orderUpdateOnCancelRejected (t.om.order v) ts exts :=
          Function.update_self ..
        rw [hself]
        exact still rfl rfl rfl rfl rfl

/-- Nothing is filled or cancelled of an order nothing is reported on. -/
theorem untouched_step {w : ω} {t : Trading ω ι} {e : Event ω}
    (h : (t.om.order w).filledSize = 0 ∧ (t.om.order w).cancelledSize = 0)
    (he : e.reportOn ≠ some w) :
    ((t.step e).om.order w).filledSize = 0
      ∧ ((t.step e).om.order w).cancelledSize = 0 := by
  by_cases hw : e.about = w
  case neg => rwa [t.step_order_of_ne hw]
  case pos =>
    cases e with
    | send v session a =>
        obtain rfl : v = w := hw
        obtain ⟨o, hwrites⟩ := t.om.send_writes v session a
        have hself : (t.step (.send v session a)).om.order v = o :=
          (congrFun hwrites.order v).trans (Function.update_self ..)
        rw [hself, hwrites.filledSize, hwrites.cancelledSize]
        exact h
    | cancel v newqty a =>
        obtain rfl : v = w := hw
        rcases t.step_cancel_order v newqty a with hself | hself
        · rwa [hself]
        · rw [hself]
          exact h
    | destroy v onlyIfTerminal sessionDestroys =>
        rwa [step_destroy_order]
    | _ => exact absurd (congrArg some hw) he

end Trading

omit [DecidableEq ι] in
/-- A terminal order: `cancel` refuses it, and leaves everything alone. -/
theorem OrderManager.cancel_of_isTerminal {om : OrderManager ω ι} {w : ω}
    (h : (om.order w).isTerminal = true) (newqty : Nat) (a : CancelAnswer) :
    (om.cancel w newqty a).1 ≠ .requested
      ∧ (om.cancel w newqty a).2 = om := by
  unfold OrderManager.cancel
  dsimp only
  rw [if_pos h]
  split
  · exact ⟨nofun, rfl⟩
  · exact ⟨nofun, rfl⟩

-- ================================================================= result

/-- From the acknowledgment with its size on, whatever was done with a new
order before and whatever happens to other orders: its counters add up to
its size, it is terminal exactly when nothing is open, and from the first
time it is, `cancel` refuses it. -/
theorem order_life_conserves_size (c : OrderManagerConf ω ι) (w : ω)
    (before : List (Event ω)) (hnew : ∀ e ∈ before, e.reportOn ≠ some w)
    (exchangeID : Nat) (ts : Timestamp) (exts : Nat)
    (life later : List (Event ω)) :
    let t := Lib.run Trading.step (Trading.start c) before
    let acked := t.step
      (.acknowledged w exchangeID (t.om.order w).size ts exts)
    Lib.Admits Trading.step (Trading.LifeOf w) acked (life ++ later) →
    let o := (Lib.run Trading.step acked life).om.order w
    let om := (Lib.run Trading.step acked (life ++ later)).om
    o.filledSize + o.openSize + o.cancelledSize = o.size
      ∧ (o.isTerminal = true ↔ o.openSize = 0)
      ∧ (o.isTerminal = true → ∀ newqty a,
          (om.cancel w newqty a).1 ≠ .requested
            ∧ (om.cancel w newqty a).2 = om) := by
  intro t acked hlife o om
  have huntouched : (t.om.order w).filledSize = 0
      ∧ (t.om.order w).cancelledSize = 0 := by
    have hstart : ((Trading.start c).om.order w).filledSize = 0
        ∧ ((Trading.start c).om.order w).cancelledSize = 0 := by
      obtain ⟨sessions, records, heq, -⟩ := OrderManager.start_frame c
      show ((OrderManager.start c).order w).filledSize = 0
        ∧ ((OrderManager.start c).order w).cancelledSize = 0
      rw [heq]
      exact ⟨rfl, rfl⟩
    have hadm : Lib.Admits Trading.step (fun _ e => e.reportOn ≠ some w)
        (Trading.start c) before :=
      Lib.Admits.of_forall_mem fun e he _ => hnew e he
    exact Lib.run_invariant
      (I := fun t : Trading ω ι => (t.om.order w).filledSize = 0
        ∧ (t.om.order w).cancelledSize = 0)
      (fun _ _ h he => Trading.untouched_step h he) hstart hadm
  have hacked : (acked.om.order w).Conserved := by
    have hself : acked.om.order w = orderUpdateOnAck (t.om.order w)
        exchangeID (t.om.order w).size ts exts := Function.update_self ..
    rw [hself]
    exact .ack huntouched.1 huntouched.2 exchangeID ts exts
  obtain ⟨hlife, hlater⟩ := Lib.admits_append.mp hlife
  have ho : o.Conserved :=
    Lib.run_invariant
      (I := fun t : Trading ω ι => (t.om.order w).Conserved)
      (fun _ _ h he => (Trading.conserved_step h he).1) hacked hlife
  refine ⟨ho.sum, ho.isTerminal_iff, fun hterm newqty a => ?_⟩
  -- closed once, closed from then on
  have hend : (om.order w).Conserved ∧ (om.order w).openSize = 0 := by
    show ((Lib.run Trading.step acked (life ++ later)).om.order w).Conserved
      ∧ ((Lib.run Trading.step acked (life ++ later)).om.order w).openSize
        = 0
    rw [Lib.run_append]
    exact Lib.run_invariant
      (I := fun t : Trading ω ι => (t.om.order w).Conserved
        ∧ (t.om.order w).openSize = 0)
      (fun _ _ h he =>
        have hstep := Trading.conserved_step h.1 he
        ⟨hstep.1, Nat.le_zero.mp (hstep.2.trans h.2.le)⟩)
      ⟨ho, ho.isTerminal_iff.mp hterm⟩ hlater
  exact OrderManager.cancel_of_isTerminal
    (hend.1.isTerminal_iff.mpr hend.2) newqty a

/-- Two filled, a cancel request rejected, three cancelled: what is left
is refused, also after the rejection of another request. -/
theorem order_life_conserves_size_demo :
    let c : OrderManagerConf Bool Unit := .plain fun _ =>
      .dayLimit () .buy 5 10
    let t := Lib.run Trading.step (Trading.start c)
      [.send true [66] .taken, .send false [66] .taken]
    let acked := t.step
      (.acknowledged true 1 (t.om.order true).size ⟨1, 0⟩ 1)
    let life := [.fill true 2 10 ⟨2, 0⟩ 2 .unknown,
      .cancel true 0 ⟨true, ⟨3, 0⟩⟩, .cancelRejected true ⟨4, 0⟩ 4,
      .cancelled true 3 ⟨5, 0⟩ 5]
    let later := [.cancelRejected true ⟨6, 0⟩ 6]
    let om := (Lib.run Trading.step acked (life ++ later)).om
    ∀ newqty a, (om.cancel true newqty a).1 ≠ .requested := by
  intro c t acked life later om newqty a
  exact ((order_life_conserves_size c true _ (by decide) 1 ⟨1, 0⟩ 1 life
    later (by decide +kernel)).2.2 (by decide +kernel) newqty a).1

end TradingEngine.OE
