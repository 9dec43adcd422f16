/-
What arrives at the simulated exchange, orders and cancel requests, keeps
its invariant.

# One more event

All that is put on the queue for one order is put there with `push`, so one
lemma says what the invariant asks of the event: that it is due late enough,
that the order has room left for what it takes, and that it may be on the
queue at that stage of the order.

# Cancel requests

A request is answered by `CANCELLED` with what is left of the entry, which it
takes out of its container, or by `CANCEL_REJECTED` if there is no entry. A
request that is still travelling holds nothing.

# Arrivals

An order that arrives is acknowledged, trades with the quote of the other
side if it crosses it, and what is left rests, waits for an auction, or is
cancelled (`rests`, `trades`). The fill has the time of the acknowledgment
and the index behind it. That a cancel is not due before the acknowledgment
either is asked of the two latencies.
-/
import TradingEngine.OE.Proofs.L2SimTurns

namespace TradingEngine.OE

variable {ω ι : Type} [DecidableEq ω] [DecidableEq ι]

namespace L2Sim

open L2SimSession (restingContainer cancelable isAuction tooLate
  auctionContainer auctionPrice opposite crosses priceTaken takesOnly
  restsAssert)

-- ============================================================ one more event

section Emplace

variable {s : L2Sim ω ι} {due : SimEvent.Ordering} {e : SimEvent ω}

omit [DecidableEq ι] in
theorem same_emplace :
    View.Same ((s.view e.order).push (due, e))
      ((s.withSession (s.session.emplace due e)).view e.order) := by
  refine ⟨rfl, .rfl, .rfl, rfl, ?_, fun _ _ => .refl _⟩
  show ((s.session.eventq ++ [(due, e)]).filter _).Perm
    ((due, e) :: s.session.eventq.filter _)
  rw [List.filter_append, List.filter_cons, if_pos (decide_eq_true rfl)]
  exact List.perm_append_singleton ..

omit [DecidableEq ι] in
theorem same_emplace_of_ne {w : ω} (hw : w ≠ e.order) :
    View.Same (s.view w)
      ((s.withSession (s.session.emplace due e)).view w) := by
  refine ⟨rfl, .rfl, .rfl, rfl, ?_, fun _ _ => .refl _⟩
  show ((s.session.eventq ++ [(due, e)]).filter _).Perm
    (s.session.eventq.filter _)
  have hne : ¬ decide (e.order = w) = true := by simpa using Ne.symm hw
  rw [List.filter_append, List.filter_cons, if_neg hne]
  exact .of_eq (List.append_nil _)

omit [DecidableEq ι] in
/-- An event is put into the queue. -/
theorem SimInv.emplace (h : s.SimInv) (hdue : s.session.ts ≤ (ofLex due).1)
    (hack : e.state ≠ .acknowledged)
    (hview : ((s.view e.order).push (due, e)).Inv) :
    (s.withSession (s.session.emplace due e)).SimInv := by
  refine ⟨?_, ?_, fun w => ?_, h.conserves.withSession⟩
  · refine h.clock.withSession rfl rfl fun q hq => ?_
    rcases List.mem_append.mp hq with hq | hq
    · exact .inl hq
    · rw [List.mem_singleton.mp hq]
      exact .inr ⟨hdue, fun hst => absurd hst hack⟩
  · exact h.records.withSession rfl fun q hq _ => List.mem_append_left _ hq
  · by_cases hw : w = e.order
    · rw [hw]
      exact hview.of_same same_emplace
    · exact (h.views w).of_same (same_emplace_of_ne hw)

end Emplace

-- ============================================================ cancel requests

section Requests

variable {p : L2Sim ω ι} {q : SimEvent.Ordering × SimEvent ω}

omit [DecidableEq ι] in
/-- Without an event that reports nothing the invariant holds. -/
theorem Serving.pop (hp : p.Serving q) (hsent : q.2.state ≠ .sent)
    (hack : q.2.state ≠ .acknowledged) (hfill : q.2.state ≠ .filled)
    (hcxl : q.2.state ≠ .cancelled) : p.SimInv := by
  refine ⟨hp.clock, hp.records hsent, fun w => ?_, hp.conserves⟩
  by_cases hw : w = q.2.order
  · rw [hw]
    exact hp.view.pop hack hfill hcxl
  · exact hp.others w hw

omit [DecidableEq ι] in
/-- A request is refused. -/
theorem SimInv.rejectCancel (h : p.SimInv) {se : SimEvent ω}
    (hacked : se.order ∈ p.trading.acked)
    (hafter : ∀ c ∈ p.session.eventq, c.2.order = se.order →
      c.2.state = .cancelled →
      c.1 < dueAt (p.session.ts + p.session.cxlLatency) 0) :
    (p.withSession (p.session.rejectCancel p.session.ts se)).SimInv := by
  refine h.emplace (Nat.le_add_right _ _) nofun ?_
  refine (h.views se.order).push_request hacked (.inr rfl) fun _ c hc hst => ?_
  obtain ⟨hc, hcw⟩ := mem_events.mp hc
  exact hafter c hc hcw hst

omit [DecidableEq ω] [DecidableEq ι] in
/-- What can be cancelled, and is not being replaced, may be told so. -/
theorem cancelledExpects_of_cancelable {st : OrderState}
    (hst : cancelable st = true) (hreplaced : st ≠ .cancelReplaced)
    (hreplacing : st ≠ .pendingCancelReplace) : View.cancelledExpects st := by
  unfold View.cancelledExpects
  cases st <;> simp_all [cancelable]

omit [DecidableEq ι] in
/-- A cancel request arrives. -/
theorem Serving.pendingCancel (hp : p.Serving q)
    (hstate : q.2.state = .pendingCancel)
    (hgrant : p.Grants q.2 → ∀ x ∈ p.session.eventq,
      x.2.order = q.2.order →
      x.2.state ≠ .cancelled ∧ x.2.state ≠ .cancelRejected)
    (hreject : ¬ p.Grants q.2 → ∀ x ∈ p.session.eventq,
      x.2.order = q.2.order → x.2.state = .cancelled →
      x.1 < dueAt (p.session.ts + p.session.cxlLatency) 0) :
    (p.withSession (p.session.onOrderPendingCancel p.order p.session.ts
      q.2)).SimInv := by
  have hrequest : View.IsRequest q.2.state := .inl hstate
  have h : p.SimInv := by
    refine hp.pop ?_ ?_ ?_ ?_ <;> rw [hstate] <;> decide
  have hacked : q.2.order ∈ p.trading.acked :=
    hp.view.stages.requested q List.mem_cons_self hrequest
  have hrefuse : ¬ p.Grants q.2 →
      (p.withSession (p.session.rejectCancel p.session.ts q.2)).SimInv :=
    fun hno => h.rejectCancel hacked (hreject hno)
  unfold L2SimSession.onOrderPendingCancel
  cases horders : p.session.orders (p.order q.2.order).localID with
  | none =>
      refine hrefuse fun hg => ?_
      have hrecord := hg.1
      rw [horders] at hrecord
      cases hrecord
  | some w =>
      -- the order on record is the one of the request
      obtain ⟨hlocal, hw⟩ := h.records.record _ _ horders
      obtain rfl : w = q.2.order :=
        h.records.apart w hw q.2.order hp.sent hlocal
      dsimp only
      split
      case isFalse hstate' => exact hrefuse fun hg => hstate' hg.2.1
      case isTrue hstate' =>
        have hpos : ∀ y ∈ (p.session.books q.2.esi).orders
            (restingContainer (p.order q.2.order)), 0 < y.2.remains :=
          fun y hy => h.remains_pos hy
        have hiff := L2SimSession.reduceHelper_pos_iff hpos
          (p.order q.2.order).price q.2.order q.2.size
        have hk : (restingContainer (p.order q.2.order)).auction = false := by
          unfold restingContainer
          split <;> rfl
        rcases L2SimSession.settles_reduceHelper hpos q.2.esi
          (p.order q.2.order).price q.2.order q.2.size with
          ⟨hzero, hset⟩ | ⟨hamount, hset⟩
        · -- nothing was cancelled
          rw [if_pos hzero]
          have hno : ¬ p.Grants q.2 := by
            rintro ⟨-, -, hfound⟩
            have hlt := hiff.mpr hfound
            omega
          have hsettled := h.settled_live (dueAt p.session.ts 0) hk
            hset (Nat.le_refl _) (List.forall_mem_nil _)
            (List.forall_mem_nil _)
          have hsame : (p.withSession (p.session.setOrders q.2.esi
              (restingContainer (p.order q.2.order)) _)).SimInv :=
            hsettled.same
              ⟨rfl, rfl, (List.append_nil _).symm, rfl, fun _ _ => rfl⟩
          exact hsame.rejectCancel hacked (hreject hno)
        · rw [if_neg (Nat.ne_of_gt hamount)]
          have hg : p.Grants q.2 := ⟨horders, hstate', hiff.mp hamount⟩
          have hfree := hgrant hg
          refine h.settled_live _ hk hset (Nat.le_add_right _ _) ?_ ?_
          · intro e he a ha haw hst
            rw [List.mem_singleton.mp he] at haw
            have hmem : a ∈ (p.view q.2.order).events :=
              mem_events.mpr ⟨ha, haw⟩
            exact absurd hst ((h.views q.2.order).of_acked hacked hmem).2
          · intro e he _
            rw [List.mem_singleton.mp he]
            refine ⟨?_, ?_, ?_⟩
            · obtain ⟨-, hreplaced, hreplacing⟩ :=
                (h.views q.2.order).manager.states hp.sent
              exact cancelledExpects_of_cancelable hstate' hreplaced
                hreplacing
            · exact View.count_eq_zero.mpr fun x hx =>
                (hfree x (mem_events.mp hx).1 (mem_events.mp hx).2).1
            · exact fun x hx hst => absurd hst
                (hfree x (mem_events.mp hx).1 (mem_events.mp hx).2).2

end Requests

-- =================================================================== arrivals

section Arrivals

variable {p : L2Sim ω ι} {q : SimEvent.Ordering × SimEvent ω}

/-- An order that arrived is on record. -/
def recorded (p : L2Sim ω ι) (w : ω) : L2SimSession ω ι :=
  { p.session with
    orders := Function.update p.session.orders (p.order w).localID (some w) }

omit [DecidableEq ι] in
/-- An order arrived: events of it are in the queue, and it may be in a
container. -/
theorem Serving.arrived (hp : p.Serving q) (hstate : q.2.state = .sent)
    {ss : L2SimSession ω ι} (new : List (SimEvent.Ordering × SimEvent ω))
    {esi : Nat} {k : Container} {c : OrderContainer ω}
    (hts : ss.ts = p.session.ts)
    (hlatency : ss.ackLatency = p.session.ackLatency)
    (horders : ss.orders = (p.recorded q.2.order).orders)
    (heventq : ss.eventq = p.session.eventq ++ new)
    (hbooks : ∀ esi' k', (ss.books esi').orders k'
      = if esi' = esi ∧ k' = k then c else (p.session.books esi').orders k')
    (habout : ∀ x ∈ new, x.2.order = q.2.order)
    (hdue : ∀ x ∈ new, p.session.ts ≤ (ofLex x.1).1)
    (hacks : ∀ x ∈ new, x.2.state = .acknowledged →
      x.1 = dueAt (p.session.ts + p.session.ackLatency) 0)
    (hc : ∀ w, w ≠ q.2.order →
      (entriesOf c w).Perm (entriesOf ((p.session.books esi).orders k) w))
    (hview : ({ p.view q.2.order with
      events := new
      entries := fun esi' k' => if esi' = esi ∧ k' = k
        then entriesOf c q.2.order
        else (p.view q.2.order).entries esi' k' } : View ω ι).Inv) :
    (p.withSession ss).SimInv := by
  have hentries : ∀ w esi' k', ((p.withSession ss).view w).entries esi' k'
      = if esi' = esi ∧ k' = k then entriesOf c w
        else (p.view w).entries esi' k' := by
    intro w esi' k'
    show entriesOf ((ss.books esi').orders k') w = _
    rw [hbooks]
    split <;> rfl
  have hevents : ∀ w, ((p.withSession ss).view w).events
      = (p.view w).events
        ++ new.filter fun x => decide (x.2.order = w) := by
    intro w
    show ss.eventq.filter _ = _
    rw [heventq, List.filter_append]
    rfl
  refine ⟨?_, ?_, fun w => ?_, hp.conserves.withSession⟩
  case refine_1 =>
    obtain ⟨T, hup, hlt⟩ := hp.updating
    refine hp.clock.withSession hts hlatency fun x hx => ?_
    rw [heventq] at hx
    rcases List.mem_append.mp hx with hx | hx
    · exact .inl hx
    · refine .inr ⟨hdue x hx, fun hst => ?_⟩
      rw [hacks x hx hst, hup]
      refine Prod.Lex.toLex_lt_toLex.mpr (.inl ?_)
      show p.session.ts + p.session.ackLatency < T + p.session.ackLatency
      omega
  case refine_2 =>
    have hr := hp.arrives hstate
    refine hr.withSession horders fun x hx _ => ?_
    rw [heventq]
    exact List.mem_append_left _ hx
  case refine_3 =>
    by_cases hw : w = q.2.order
    · rw [hw]
      refine hview.of_same ⟨rfl, .rfl, .rfl, rfl, ?_, fun esi' k' => ?_⟩
      · have hnil : (p.view q.2.order).events = [] :=
          (hp.view.of_travelling hstate).1
        rw [hevents, hnil, List.nil_append, List.filter_eq_self.mpr
          fun x hx => decide_eq_true (habout x hx)]
      · rw [hentries]
    · refine (hp.others w hw).of_same ⟨rfl, .rfl, .rfl, rfl, ?_,
        fun esi' k' => ?_⟩
      · rw [hevents, List.filter_eq_nil_iff.mpr, List.append_nil]
        intro x hx
        rw [habout x hx]
        simpa using Ne.symm hw
      · rw [hentries]
        split
        case isTrue h =>
          rw [h.1, h.2]
          exact hc w hw
        case isFalse => exact .refl _

omit [DecidableEq ω] [DecidableEq ι] in
/-- Every book keeps its orders. -/
theorem orders_self (ss : L2SimSession ω ι) (esi' : Nat) (k' : Container) :
    (ss.books esi').orders k'
      = if esi' = 0 ∧ k' = .bids then (ss.books 0).orders .bids
        else (ss.books esi').orders k' := by
  split
  case isTrue h => rw [h.1, h.2]
  case isFalse => rfl

omit [DecidableEq ι] in
/-- The order is cancelled whole as it arrives. -/
theorem Serving.refused (hp : p.Serving q) (hstate : q.2.state = .sent) :
    (p.withSession ((p.recorded q.2.order).cancelArrival p.session.ts q.2
      (p.order q.2.order).size)).SimInv := by
  have hnil := (hp.view.of_travelling hstate).1
  have hinv := hp.view.refused hstate
    (c := (dueAt (p.session.ts + p.session.cxlLatency) 0,
      ⟨.cancelled, q.2.order, q.2.esi, (p.order q.2.order).size, 0⟩)) rfl rfl
  refine hp.arrived hstate
    [(dueAt (p.session.ts + p.session.cxlLatency) 0,
      ⟨.cancelled, q.2.order, q.2.esi, (p.order q.2.order).size, 0⟩)]
    rfl rfl rfl rfl (orders_self p.session) ?_ ?_ ?_
    (fun _ _ => .refl _) ?_
  · intro x hx
    rw [List.mem_singleton.mp hx]
  · intro x hx
    rw [List.mem_singleton.mp hx]
    exact Nat.le_add_right _ _
  · intro x hx hst
    rw [List.mem_singleton.mp hx] at hst
    cases hst
  · refine hinv.of_same ⟨rfl, .rfl, .rfl, rfl, ?_, fun esi' k' => .of_eq ?_⟩
    · show List.Perm _ (_ :: (p.view q.2.order).events)
      rw [hnil]
    · show (if esi' = 0 ∧ k' = .bids then entriesOf _ q.2.order
        else (p.view q.2.order).entries esi' k')
        = (p.view q.2.order).entries esi' k'
      split
      case isTrue h =>
        rw [h.1, h.2]
        rfl
      case isFalse => rfl

/-- The acknowledgment of an arrival. -/
def acknowledgment (p : L2Sim ω ι) (se : SimEvent ω) :
    SimEvent.Ordering × SimEvent ω :=
  (dueAt (p.session.ts + p.session.ackLatency) 0,
    ⟨.acknowledged, se.order, se.esi, 0, 0⟩)

omit [DecidableEq ι] in
/-- The order is taken. -/
theorem Serving.accepted (hp : p.Serving q) (hstate : q.2.state = .sent)
    {ss : L2SimSession ω ι} (rest : List (SimEvent.Ordering × SimEvent ω))
    {esi : Nat} {k : Container} {c : OrderContainer ω}
    (hts : ss.ts = p.session.ts)
    (hlatency : ss.ackLatency = p.session.ackLatency)
    (horders : ss.orders = (p.recorded q.2.order).orders)
    (heventq : ss.eventq
      = p.session.eventq ++ p.acknowledgment q.2 :: rest)
    (hbooks : ∀ esi' k', (ss.books esi').orders k'
      = if esi' = esi ∧ k' = k then c else (p.session.books esi').orders k')
    (hc : ∀ w, w ≠ q.2.order →
      (entriesOf c w).Perm (entriesOf ((p.session.books esi).orders k) w))
    (hrest : ∀ r ∈ rest, r.2.order = q.2.order
      ∧ (r.2.state = .filled ∨ r.2.state = .cancelled)
      ∧ (p.acknowledgment q.2).1 < r.1 ∧ 0 < r.2.size)
    (honce : countOf .cancelled (rest.map Prod.snd) ≤ 1)
    (hsum : sizes (rest.map Prod.snd) ≤ (p.order q.2.order).size)
    (hlength : (entriesOf c q.2.order).length ≤ 1)
    (hentry : ∀ o ∈ entriesOf c q.2.order, 0 < o.remains
      ∧ sizes (rest.map Prod.snd) + o.remains ≤ (p.order q.2.order).size
      ∧ (k.auction = true → rest = []
        ∧ o.remains = (p.order q.2.order).size)) :
    (p.withSession ss).SimInv := by
  have hinv := hp.view.accepted hstate (a := p.acknowledgment q.2) rfl
    (fun r hr => (hrest r hr).2) honce hsum esi k hlength
    hentry
  refine hp.arrived hstate _ hts hlatency horders heventq hbooks ?_ ?_ ?_ hc
    hinv
  · intro x hx
    rcases List.mem_cons.mp hx with rfl | hx
    · rfl
    · exact (hrest x hx).1
  · intro x hx
    rcases List.mem_cons.mp hx with rfl | hx
    · exact Nat.le_add_right _ _
    · have hle : (ofLex (p.acknowledgment q.2).1).1 ≤ (ofLex x.1).1 :=
        Prod.Lex.monotone_fst _ _ (le_of_lt (hrest x hx).2.2.1)
      exact Nat.le_trans (Nat.le_add_right _ _) hle
  · intro x hx hst
    rcases List.mem_cons.mp hx with rfl | hx
    · rfl
    · rcases (hrest x hx).2.1 with h | h <;> rw [h] at hst <;> cases hst

omit [DecidableEq ι] in
/-- An order goes into a container, if there is none at its price. -/
theorem entriesOf_emplace {c : OrderContainer ω}
    (before : Rat → Rat → Bool) (price : Rat) {o : SimOrder ω}
    (hnone : entriesOf c o.order = []) :
    (∀ w, w ≠ o.order →
      (entriesOf (c.emplace before price o) w).Perm (entriesOf c w))
    ∧ (entriesOf (c.emplace before price o) o.order).length ≤ 1
    ∧ ∀ o' ∈ entriesOf (c.emplace before price o) o.order, o' = o := by
  rcases emplace_perm before price o (c := c) with heq | hperm
  · rw [heq, hnone]
    exact ⟨fun _ _ => .refl _, Nat.zero_le 1, nofun⟩
  · have hentries : ∀ w, (entriesOf (c.emplace before price o) w).Perm
        (entriesOf ((price, o) :: c) w) :=
      fun w => (hperm.map _).filter _
    refine ⟨fun w hw => ?_, ?_, ?_⟩
    · have hp := hentries w
      rw [entriesOf_cons, if_neg (Ne.symm hw)] at hp
      exact hp
    · have hp := hentries o.order
      rw [entriesOf_cons, if_pos rfl, hnone] at hp
      rw [hp.length_eq]
      exact Nat.le_refl 1
    · have hp := hentries o.order
      rw [entriesOf_cons, if_pos rfl, hnone] at hp
      exact fun o' ho' => List.mem_singleton.mp (hp.subset ho')

/-- The fill of an arrival. -/
def fill (p : L2Sim ω ι) (se : SimEvent ω) (n : Nat) (price : Rat) :
    SimEvent.Ordering × SimEvent ω :=
  (dueAt (p.session.ts + p.session.ackLatency) 1,
    ⟨.filled, se.order, se.esi, n, price⟩)

omit [DecidableEq ω] [DecidableEq ι] in
/-- What comes with the acknowledgment comes right after it. -/
theorem acknowledgment_lt (p : L2Sim ω ι) (se : SimEvent ω) {latency : Nat}
    (h : p.session.ackLatency ≤ latency) :
    (p.acknowledgment se).1 < dueAt (p.session.ts + latency) 1 := by
  refine Prod.Lex.toLex_lt_toLex.mpr ?_
  show p.session.ts + p.session.ackLatency < p.session.ts + latency
    ∨ p.session.ts + p.session.ackLatency = p.session.ts + latency ∧ 0 < 1
  omega

omit [DecidableEq ω] [DecidableEq ι] in
/-- What rests is neither a market order nor one that is to be cancelled
at once. -/
theorem restsAssert_eq {o : Order ι}
    (h : ¬ (o.type == .market
      || (o.type == .limit && o.tif == .immediateOrCancel)) = true) :
    L2SimSession.restsAssert o = true := by
  unfold L2SimSession.restsAssert
  rw [Bool.not_eq_true, Bool.or_eq_false_iff] at h
  rw [bne, h.1, h.2]
  rfl

omit [DecidableEq ι] in
/-- What arrives has a size. -/
theorem Serving.sized (hp : p.Serving q) (hstate : q.2.state = .sent) :
    0 < (p.order q.2.order).size :=
  (hp.view.of_travelling hstate).2.2.2.2.2.2

omit [DecidableEq ι] in
/-- The order is taken, and what does not trade waits in a container. -/
theorem Serving.placed (hp : p.Serving q) (hstate : q.2.state = .sent)
    {ss : L2SimSession ω ι} (rest : List (SimEvent.Ordering × SimEvent ω))
    {k : Container} {price : Rat} {ahead remains : Nat}
    (hts : ss.ts = p.session.ts)
    (hlatency : ss.ackLatency = p.session.ackLatency)
    (horders : ss.orders = (p.recorded q.2.order).orders)
    (heventq : ss.eventq
      = p.session.eventq ++ p.acknowledgment q.2 :: rest)
    (hbooks : ∀ esi' k', (ss.books esi').orders k'
      = if esi' = q.2.esi ∧ k' = k
        then ((p.session.books q.2.esi).orders k).emplace k.before price
          ⟨q.2.order, ahead, 0, remains⟩
        else (p.session.books esi').orders k')
    (hrest : ∀ r ∈ rest, r.2.order = q.2.order ∧ r.2.state = .filled
      ∧ (p.acknowledgment q.2).1 < r.1 ∧ 0 < r.2.size)
    (hremains : 0 < remains)
    (hsum : sizes (rest.map Prod.snd) + remains
      ≤ (p.order q.2.order).size)
    (hauction : k.auction = true →
      rest = [] ∧ remains = (p.order q.2.order).size) :
    (p.withSession ss).SimInv := by
  have hnone : entriesOf ((p.session.books q.2.esi).orders k) q.2.order
      = [] := (hp.view.of_travelling hstate).2.1 q.2.esi k
  have honce : countOf .cancelled (rest.map Prod.snd) = 0 := by
    refine List.countP_eq_zero.mpr fun e he => ?_
    obtain ⟨r, hr, rfl⟩ := List.mem_map.mp he
    rw [(hrest r hr).2.1]
    decide
  obtain ⟨hothers, hlength, honly⟩ := entriesOf_emplace k.before price
    (o := ⟨q.2.order, ahead, 0, remains⟩) hnone
  refine hp.accepted hstate rest hts hlatency horders heventq hbooks hothers
    (fun r hr => ?_) (honce ▸ Nat.zero_le 1) (by omega) hlength
    fun o ho => ?_
  · obtain ⟨horder, hfilled, hlt, hpos⟩ := hrest r hr
    exact ⟨horder, .inl hfilled, hlt, hpos⟩
  · rw [honly o ho]
    exact ⟨hremains, hsum, hauction⟩

omit [DecidableEq ι] in
/-- The order is taken, and nothing of it waits. -/
theorem Serving.traded (hp : p.Serving q) (hstate : q.2.state = .sent)
    {ss : L2SimSession ω ι} (rest : List (SimEvent.Ordering × SimEvent ω))
    (hts : ss.ts = p.session.ts)
    (hlatency : ss.ackLatency = p.session.ackLatency)
    (horders : ss.orders = (p.recorded q.2.order).orders)
    (heventq : ss.eventq
      = p.session.eventq ++ p.acknowledgment q.2 :: rest)
    (hbooks : ss.books = p.session.books)
    (hrest : ∀ r ∈ rest, r.2.order = q.2.order
      ∧ (r.2.state = .filled ∨ r.2.state = .cancelled)
      ∧ (p.acknowledgment q.2).1 < r.1 ∧ 0 < r.2.size)
    (honce : countOf .cancelled (rest.map Prod.snd) ≤ 1)
    (hsum : sizes (rest.map Prod.snd) ≤ (p.order q.2.order).size) :
    (p.withSession ss).SimInv := by
  have hnone : entriesOf ((p.session.books 0).orders .bids) q.2.order = [] :=
    (hp.view.of_travelling hstate).2.1 0 .bids
  have hkept : ∀ esi' k', (ss.books esi').orders k'
      = if esi' = 0 ∧ k' = .bids then (p.session.books 0).orders .bids
        else (p.session.books esi').orders k' :=
    hbooks ▸ orders_self p.session
  refine hp.accepted hstate rest hts hlatency horders heventq hkept
    (fun _ _ => .refl _) hrest honce hsum ?_ ?_
  · rw [hnone]
    exact Nat.zero_le 1
  · rw [hnone]
    exact nofun

/-- What is left of an order that traded nothing, or in part, as it
arrived. -/
def rests (p : L2Sim ω ι) (s : L2SimSession ω ι) (se : SimEvent ω)
    (view : BookView) (remains : Nat) : L2SimSession ω ι :=
  let o := p.order se.order
  s.setOrders se.esi (restingContainer o)
    (((p.session.books se.esi).orders (restingContainer o)).emplace
      (restingContainer o).before o.price
      ⟨se.order, if o.side = .buy then view.l2Bid o.price
        else view.l2Ask o.price, 0, remains⟩)

/-- An arrival that is acknowledged, and trades. -/
def trades (p : L2Sim ω ι) (se : SimEvent ω) (n : Nat) (price : Rat) :
    L2SimSession ω ι :=
  ((p.recorded se.order).acknowledgeArrival p.session.ts se).emplace
    (p.fill se n price).1 (p.fill se n price).2

omit [DecidableEq ι] in
theorem takesOnly_of_leaves {o : Order ι}
    (h : (o.type == .market
      || (o.type == .limit && o.tif == .immediateOrCancel)) = true) :
    takesOnly o = true := by
  unfold takesOnly
  rw [Bool.or_eq_true, Bool.and_eq_true] at h
  rw [Bool.or_eq_true]
  exact h.imp id And.right

omit [DecidableEq ι] in
theorem resting_ne_auction (o : Order ι) :
    ¬ (restingContainer o).auction = true := by
  unfold restingContainer
  split <;> exact Bool.false_ne_true

omit [DecidableEq ω] [DecidableEq ι] in
/-- An order for an auction. -/
theorem onOrderSent_auction (p : L2Sim ω ι) {se : SimEvent ω}
    (view : BookView) (hauction : isAuction (p.order se.order) = true) :
    p.session.onOrderSent (p.order se.order) p.session.ts se view
      = if tooLate (p.order se.order) (p.session.books se.esi).session then
          ((p.recorded se.order).cancelArrival p.session.ts se
            (p.order se.order).size, true)
        else
          (((p.recorded se.order).setOrders se.esi
            (auctionContainer (p.order se.order))
            (((p.session.books se.esi).orders
              (auctionContainer (p.order se.order))).emplace
                (auctionContainer (p.order se.order)).before
                (auctionPrice (p.order se.order))
                ⟨se.order, 0, 0, (p.order se.order).size⟩)
            ).acknowledgeArrival p.session.ts se, true) := by
  unfold L2SimSession.onOrderSent
  rw [if_pos hauction]
  rfl

omit [DecidableEq ω] [DecidableEq ι] in
/-- No book, or an order at the price. -/
theorem onOrderSent_unfit (p : L2Sim ω ι) {se : SimEvent ω} (view : BookView)
    (hauction : isAuction (p.order se.order) = false)
    (hbook : (p.session.books se.esi).bookP = true →
      priceTaken (p.order se.order) (p.session.books se.esi) = true) :
    p.session.onOrderSent (p.order se.order) p.session.ts se view
      = ((p.recorded se.order).cancelArrival p.session.ts se
          (p.order se.order).size, true) := by
  unfold L2SimSession.onOrderSent
  rw [if_neg (Bool.eq_false_iff.mp hauction)]
  by_cases h : (p.session.books se.esi).bookP = true
  case pos =>
    rw [if_pos h, if_pos (hbook h)]
    rfl
  case neg =>
    rw [if_neg h]
    rfl

omit [DecidableEq ω] [DecidableEq ι] in
/-- A free price and no quote to trade with. -/
theorem onOrderSent_quiet (p : L2Sim ω ι) {se : SimEvent ω} {view : BookView}
    (hauction : isAuction (p.order se.order) = false)
    (hbook : (p.session.books se.esi).bookP = true)
    (hfree : priceTaken (p.order se.order) (p.session.books se.esi) = false)
    (hcross : crosses (p.order se.order) view.best = false)
    (hsized : 0 < (p.order se.order).size) :
    p.session.onOrderSent (p.order se.order) p.session.ts se view
      = if (p.order se.order).type == .market
          || ((p.order se.order).type == .limit
            && (p.order se.order).tif == .immediateOrCancel) then
          ((p.recorded se.order).cancelArrival p.session.ts se
            (p.order se.order).size, true)
        else
          (p.rests ((p.recorded se.order).acknowledgeArrival p.session.ts se)
            se view (p.order se.order).size,
            restsAssert (p.order se.order)) := by
  unfold L2SimSession.onOrderSent
  simp only [hauction, hbook, hfree, hcross, Bool.false_eq_true, if_false,
    if_true, Bool.false_and, Nat.sub_zero, Nat.ne_of_gt hsized]
  rfl

omit [DecidableEq ω] [DecidableEq ι] in
/-- A free price and a quote to trade with. -/
theorem onOrderSent_crossed (p : L2Sim ω ι) {se : SimEvent ω}
    {view : BookView} (hauction : isAuction (p.order se.order) = false)
    (hbook : (p.session.books se.esi).bookP = true)
    (hfree : priceTaken (p.order se.order) (p.session.books se.esi) = false)
    (hcross : crosses (p.order se.order) view.best = true) {n : Nat}
    (hn : n = min (p.order se.order).size
      (opposite (p.order se.order) view.best).size.toNat)
    (hpos : 0 < n) :
    p.session.onOrderSent (p.order se.order) p.session.ts se view
      = if (p.order se.order).size - n = 0 then
          (p.trades se n
            (MD.toDouble (opposite (p.order se.order) view.best).price), true)
        else if takesOnly (p.order se.order) then
          ((p.trades se n
            (MD.toDouble (opposite (p.order se.order) view.best).price)
            ).emplace (dueAt (p.session.ts + p.session.cxlLatency) 1)
              ⟨.cancelled, se.order, se.esi, (p.order se.order).size - n, 0⟩,
            true)
        else
          (p.rests (p.trades se n
            (MD.toDouble (opposite (p.order se.order) view.best).price))
            se view ((p.order se.order).size - n),
            restsAssert (p.order se.order)) := by
  have hsize : n ≤ (p.order se.order).size := hn ▸ min_le_left _ _
  unfold L2SimSession.onOrderSent
  simp only [hauction, hbook, hfree, hcross, Bool.false_eq_true, if_false,
    if_true, Bool.true_and, ← hn]
  by_cases hwhole : (p.order se.order).size - n = 0
  case pos =>
    simp only [hwhole, bne_self_eq_false, Bool.false_and,
      Bool.false_eq_true, if_false, if_true]
    rfl
  case neg =>
    have hremains : ((p.order se.order).size - n != 0) = true :=
      bne_iff_ne.mpr hwhole
    simp only [hremains, Bool.true_and, if_neg hwhole]
    split
    case isTrue => rfl
    case isFalse htakes =>
      -- an order that would leave at once does not come this far
      rw [if_neg fun h => htakes (takesOnly_of_leaves h), if_neg (by omega)]
      rfl

omit [DecidableEq ι] in
/-- No quote to trade with: the order leaves, or rests whole. -/
theorem Serving.quiet (hp : p.Serving q) (hstate : q.2.state = .sent)
    {view : BookView} (hauction : isAuction (p.order q.2.order) = false)
    (hbook : (p.session.books q.2.esi).bookP = true)
    (hfree : priceTaken (p.order q.2.order) (p.session.books q.2.esi)
      = false)
    (hcross : crosses (p.order q.2.order) view.best = false) :
    (p.session.onOrderSent (p.order q.2.order) p.session.ts q.2 view).2
        = true
      ∧ (p.withSession (p.session.onOrderSent (p.order q.2.order)
        p.session.ts q.2 view).1).SimInv := by
  have hsized : 0 < (p.order q.2.order).size := hp.sized hstate
  rw [onOrderSent_quiet p hauction hbook hfree hcross hsized]
  by_cases hleaves : ((p.order q.2.order).type == .market
    || ((p.order q.2.order).type == .limit
      && (p.order q.2.order).tif == .immediateOrCancel)) = true
  case pos =>
    rw [if_pos hleaves]
    exact ⟨rfl, hp.refused hstate⟩
  case neg =>
    rw [if_neg hleaves]
    exact ⟨restsAssert_eq hleaves, hp.placed hstate [] rfl rfl rfl rfl
      (orders_setOrders _ _ _ _) nofun hsized (Nat.le_of_eq (Nat.zero_add _))
      fun _ => ⟨rfl, rfl⟩⟩

omit [DecidableEq ι] in
/-- A quote to trade with: the order is filled, and what is left of it is
cancelled, or rests. -/
theorem Serving.crossed (hp : p.Serving q) (hstate : q.2.state = .sent)
    {view : BookView} (hauction : isAuction (p.order q.2.order) = false)
    (hbook : (p.session.books q.2.esi).bookP = true)
    (hfree : priceTaken (p.order q.2.order) (p.session.books q.2.esi)
      = false)
    (hcross : crosses (p.order q.2.order) view.best = true)
    (hquote : 0 < (opposite (p.order q.2.order) view.best).size.toNat)
    (hlatency : (opposite (p.order q.2.order) view.best).size.toNat
        < (p.order q.2.order).size →
      takesOnly (p.order q.2.order) = true →
      p.session.ackLatency ≤ p.session.cxlLatency) :
    (p.session.onOrderSent (p.order q.2.order) p.session.ts q.2 view).2
        = true
      ∧ (p.withSession (p.session.onOrderSent (p.order q.2.order)
        p.session.ts q.2 view).1).SimInv := by
  have hsized : 0 < (p.order q.2.order).size := hp.sized hstate
  obtain ⟨n, hn⟩ : ∃ n, n = min (p.order q.2.order).size
    (opposite (p.order q.2.order) view.best).size.toNat := ⟨_, rfl⟩
  have hpos : 0 < n := hn ▸ lt_min hsized hquote
  rw [onOrderSent_crossed p hauction hbook hfree hcross hn hpos]
  have hfill : ∀ price, ∀ r ∈ [p.fill q.2 n price],
      r.2.order = q.2.order ∧ r.2.state = .filled
      ∧ (p.acknowledgment q.2).1 < r.1 ∧ 0 < r.2.size := by
    intro price r hr
    rw [List.mem_singleton.mp hr]
    exact ⟨rfl, rfl, acknowledgment_lt p q.2 (Nat.le_refl _), hpos⟩
  generalize MD.toDouble (opposite (p.order q.2.order) view.best).price
    = price
  by_cases hremains : (p.order q.2.order).size - n = 0
  case pos =>
    rw [if_pos hremains]
    refine ⟨rfl, hp.traded hstate [p.fill q.2 n price] rfl rfl rfl ?_ rfl
      (fun r hr => ?_) (Nat.zero_le 1) ?_⟩
    · exact List.append_assoc p.session.eventq _ _
    · obtain ⟨horder, hfilled, h⟩ := hfill price r hr
      exact ⟨horder, .inl hfilled, h⟩
    · show n ≤ _
      omega
  case neg =>
    rw [if_neg hremains]
    by_cases htakes : takesOnly (p.order q.2.order) = true
    case pos =>
      -- the rest is cancelled at once
      rw [if_pos htakes]
      refine ⟨rfl, hp.traded hstate
        [p.fill q.2 n price,
          (dueAt (p.session.ts + p.session.cxlLatency) 1,
            ⟨.cancelled, q.2.order, q.2.esi,
              (p.order q.2.order).size - n, 0⟩)]
        rfl rfl rfl ?_ rfl (fun r hr => ?_) (Nat.le_refl 1) ?_⟩
      · show ((p.session.eventq ++ [_]) ++ [_]) ++ [_] = _
        rw [List.append_assoc, List.append_assoc]
        rfl
      · rcases List.mem_cons.mp hr with rfl | hr
        · exact ⟨rfl, .inl rfl, (hfill price _ List.mem_cons_self).2.2⟩
        · rw [List.mem_singleton.mp hr]
          refine ⟨rfl, .inr rfl, acknowledgment_lt p q.2
            (hlatency (by omega) htakes), ?_⟩
          show 0 < (p.order q.2.order).size - n
          omega
      · show n + ((p.order q.2.order).size - n + 0) ≤ _
        omega
    case neg =>
      -- the rest rests
      rw [if_neg htakes]
      refine ⟨restsAssert_eq fun h => htakes (takesOnly_of_leaves h),
        hp.placed hstate [p.fill q.2 n price] rfl rfl rfl ?_
          (orders_setOrders _ _ _ _) (hfill price) (by omega) ?_
          fun h => absurd h (resting_ne_auction _)⟩
      · exact List.append_assoc p.session.eventq _ _
      · show n + 0 + ((p.order q.2.order).size - n) ≤ _
        omega

omit [DecidableEq ι] in
/-- An order arrives. -/
theorem Serving.onOrderSent (hp : p.Serving q) (hstate : q.2.state = .sent)
    (view : BookView) (hsound : p.ArrivalSound q.2 view) :
    (p.session.onOrderSent (p.order q.2.order) p.session.ts q.2 view).2
        = true
      ∧ (p.withSession (p.session.onOrderSent (p.order q.2.order)
        p.session.ts q.2 view).1).SimInv := by
  cases hauction : isAuction (p.order q.2.order) with
  | true =>
      rw [onOrderSent_auction p view hauction]
      by_cases hlate : tooLate (p.order q.2.order)
        (p.session.books q.2.esi).session = true
      case pos =>
        rw [if_pos hlate]
        exact ⟨rfl, hp.refused hstate⟩
      case neg =>
        -- it waits, whole
        rw [if_neg hlate]
        exact ⟨rfl, hp.placed hstate [] rfl rfl rfl rfl
          (orders_setOrders _ _ _ _) nofun (hp.sized hstate)
          (Nat.le_of_eq (Nat.zero_add _)) fun _ => ⟨rfl, rfl⟩⟩
  | false =>
      by_cases hunfit : (p.session.books q.2.esi).bookP = true →
        priceTaken (p.order q.2.order) (p.session.books q.2.esi) = true
      case pos =>
        rw [onOrderSent_unfit p view hauction hunfit]
        exact ⟨rfl, hp.refused hstate⟩
      case neg =>
        obtain ⟨hbook, htaken⟩ := Classical.not_imp.mp hunfit
        have hfree := Bool.eq_false_iff.mpr htaken
        cases hcross : crosses (p.order q.2.order) view.best with
        | false => exact hp.quiet hstate hauction hbook hfree hcross
        | true =>
            obtain ⟨hquote, hlatency⟩ := hsound hauction hbook hfree hcross
            exact hp.crossed hstate hauction hbook hfree hcross hquote
              hlatency

end Arrivals

end L2Sim

end TradingEngine.OE
