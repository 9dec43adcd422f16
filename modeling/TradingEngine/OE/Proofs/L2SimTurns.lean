/-
The turns of `update_ts` keep the invariant of the simulated exchange.

# A turn

An event leaves the queue, one that is due first, and is served. While it
is served (`Serving`) the invariant holds of every other order, and of its
order with the event put back. What is due first is never too early: a
fill or a cancel comes after the acknowledgment that is due, and a refusal
after the cancel.

# A delivery

Serving an event is a report to the order manager, and the time of it goes to
the order as its last response. The report takes from the order what the
event held, so that queue, entries and reports add up as before; and the
order manager's state goes on to what the next event in the queue may meet.
An event of each kind is one lemma, and what they have in common is stated
for any report (`deliver`).
-/
import TradingEngine.OE.Proofs.L2SimInv

namespace TradingEngine.OE

variable {ω ι : Type} [DecidableEq ω] [DecidableEq ι]

-- ==================================================================== time

/-- Times are compared as their nanoseconds are. -/
theorem Timestamp.ofNanos_le {n m : Nat} (h : n ≤ m) :
    (Timestamp.ofNanos n).le (.ofNanos m) = true := by
  have hdiv := Nat.div_add_mod n 1000000000
  have hdiv' := Nat.div_add_mod m 1000000000
  have hmod := Nat.mod_lt n (y := 1000000000) (by decide)
  have hmod' := Nat.mod_lt m (y := 1000000000) (by decide)
  unfold Timestamp.le Timestamp.ofNanos
  simp only [Bool.or_eq_true, Bool.and_eq_true, beq_iff_eq,
    decide_eq_true_eq, Timestamp.mk.injEq]
  omega

namespace L2Sim

-- ==================================================================== popping

/-- The event at place `k`, which is due then, has left the queue. -/
def popped (s : L2Sim ω ι) (k : Nat) (due : SimEvent.Ordering) :
    L2Sim ω ι :=
  s.withSession { s.session with
    ts := (ofLex due).1
    eventq := s.session.eventq.eraseIdx k }

/-- A turn serves the event that it takes. -/
theorem turn_eq (s : L2Sim ω ι) {k : Nat}
    {q : SimEvent.Ordering × SimEvent ω}
    (hq : s.session.eventq[k]? = some q) (view : BookView) :
    s.turn k view = (s.popped k q.1).serve (ofLex q.1).1 q.2 view := by
  unfold turn
  rw [hq]
  rfl

/-- What holds while an event that left the queue is served. -/
structure Serving (p : L2Sim ω ι) (q : SimEvent.Ordering × SimEvent ω) :
    Prop where
  clock : p.Clock
  ts : p.session.ts = (ofLex q.1).1
  updating : ∃ ts, p.updating = some ts ∧ p.session.ts < ts
  first : ∀ q' ∈ p.session.eventq, q.1 ≤ q'.1
  records : q.2.state ≠ .sent → p.Records
  /-- An order that arrives goes on record. -/
  arrives : q.2.state = .sent → (p.withSession { p.session with
    orders := Function.update p.session.orders (p.order q.2.order).localID
      (some q.2.order) }).Records
  view : ((p.view q.2.order).push q).Inv
  others : ∀ w, w ≠ q.2.order → (p.view w).Inv
  conserves : p.Conserves

section Pop

variable {s : L2Sim ω ι} {k : Nat} {q : SimEvent.Ordering × SimEvent ω}
  (hq : s.session.eventq[k]? = some q)

include hq

omit [DecidableEq ω] [DecidableEq ι] in
/-- An event leaves the queue, and everything else stays in it. -/
theorem popped_perm :
    s.session.eventq.Perm (q :: (s.popped k q.1).session.eventq) := by
  obtain ⟨hk, rfl⟩ := List.getElem?_eq_some_iff.mp hq
  exact (List.getElem_cons_eraseIdx_perm hk).symm

omit [DecidableEq ι] in
/-- With the event put back, its order is as it was. -/
theorem same_popped : View.Same (s.view q.2.order)
    (((s.popped k q.1).view q.2.order).push q) := by
  refine ⟨rfl, .rfl, .rfl, rfl, ?_, fun _ _ => .refl _⟩
  have hperm := (popped_perm hq).filter fun x =>
    decide (x.2.order = q.2.order)
  rw [List.filter_cons, if_pos (decide_eq_true rfl)] at hperm
  exact hperm.symm

omit [DecidableEq ι] in
/-- No other order sees it leave. -/
theorem same_popped_of_ne {w : ω} (hw : w ≠ q.2.order) :
    View.Same (s.view w) ((s.popped k q.1).view w) := by
  refine ⟨rfl, .rfl, .rfl, rfl, ?_, fun _ _ => .refl _⟩
  have hperm := (popped_perm hq).filter fun x => decide (x.2.order = w)
  have hne : ¬ decide (q.2.order = w) = true := by simpa using Ne.symm hw
  rw [List.filter_cons, if_neg hne] at hperm
  exact hperm.symm

omit [DecidableEq ι] in
/-- The start of a turn: what is due first leaves the queue. -/
theorem serving_popped (h : s.SimInv) {ts : Nat}
    (hup : s.updating = some ts) (htop : s.IsTop ts k) :
    (s.popped k q.1).Serving q := by
  obtain ⟨q', hq', hlt, hfirst⟩ := htop
  obtain rfl : q' = q := Option.some.inj (hq'.symm.trans hq)
  have hin : q' ∈ s.session.eventq := List.mem_of_getElem? hq
  have hold : ∀ x ∈ (s.popped k q'.1).session.eventq,
      x ∈ s.session.eventq := fun x hx => List.mem_of_mem_eraseIdx hx
  have hsent : q'.2.order ∈ s.trading.sent := by
    have hmem : q' ∈ (s.view q'.2.order).events := mem_events.mpr ⟨hin, rfl⟩
    exact (h.views q'.2.order).stages.sent (List.ne_nil_of_mem hmem)
  refine ⟨?_, rfl, ⟨ts, hup, hlt⟩, fun x hx => hfirst x (hold x hx), ?_, ?_,
    (h.views _).of_same (same_popped hq),
    fun w hw => (h.views w).of_same (same_popped_of_ne hq hw),
    h.conserves.withSession⟩
  case refine_1 =>
    refine ⟨fun x hx => ?_, fun ts' hup' => ?_, fun x hx hst => ?_, ?_⟩
    · exact Prod.Lex.monotone_fst _ _ (hfirst x (hold x hx))
    · obtain rfl : ts = ts' := Option.some.inj (hup.symm.trans hup')
      exact Nat.le_of_lt hlt
    · have hack := h.clock.acks x (hold x hx) hst
      rw [hup] at hack
      have hup' : (s.popped k q'.1).updating = some ts := hup
      rw [hup']
      exact hack
    · intro w hw
      obtain ⟨n, hn, heq⟩ := h.clock.responses w hw
      exact ⟨n, Nat.le_trans hn (h.clock.due q' hin), heq⟩
  case refine_2 =>
    intro hst
    refine ⟨h.records.counted, h.records.apart, ?_, h.records.record,
      h.records.reported⟩
    intro w hw hnone htaken
    refine h.records.recorded w hw (fun x hx hxw hxst => ?_) htaken
    rcases List.mem_cons.mp ((popped_perm hq).subset hx) with rfl | hx
    · exact hst hxst
    · exact hnone x hx hxw hxst
  case refine_3 =>
    intro hst
    refine ⟨h.records.counted, h.records.apart, ?_, ?_, h.records.reported⟩
    · intro w hw hnone htaken
      show Function.update s.session.orders (s.order q'.2.order).localID
        (some q'.2.order) (s.order w).localID = some w
      by_cases hne : w = q'.2.order
      · rw [hne, Function.update_self]
      · rw [Function.update_of_ne fun heq =>
          hne (h.records.apart w hw q'.2.order hsent heq)]
        refine h.records.recorded w hw (fun x hx hxw hxst => ?_) htaken
        rcases List.mem_cons.mp ((popped_perm hq).subset hx) with rfl | hx
        · exact hne hxw.symm
        · exact hnone x hx hxw hxst
    · intro n w
      show Function.update s.session.orders (s.order q'.2.order).localID
        (some q'.2.order) n = some w → _
      by_cases hn : n = (s.order q'.2.order).localID
      · rw [hn, Function.update_self]
        rintro ⟨⟩
        exact ⟨rfl, hsent⟩
      · rw [Function.update_of_ne hn]
        exact h.records.record n w

end Pop

-- ================================================================= deliveries

section Deliver

variable {p : L2Sim ω ι} {q : SimEvent.Ordering × SimEvent ω}
  (hp : p.Serving q) {b : Bool} {e : Event ω}
  (he : e.reportOn = some q.2.order)

omit [DecidableEq ω] [DecidableEq ι] in
/-- A report is about the order it names. -/
theorem about_of_reportOn {e : Event ω} {w : ω} (he : e.reportOn = some w) :
    e.about = w := by
  cases e with
  | send => cases he
  | cancel => cases he
  | destroy => cases he
  | _ => exact Option.some.inj he

/-- A report sends no order. -/
theorem sent_of_reportOn (t : Trading ω ι) {e : Event ω} {w : ω}
    (he : e.reportOn = some w) :
    (t.step e).sent = t.sent ∧ (t.step e).om.localID = t.om.localID := by
  cases e with
  | send => cases he
  | cancel => cases he
  | destroy => cases he
  | _ => exact ⟨rfl, rfl⟩

include he

/-- Nothing is reported of another order. -/
theorem same_deliver {w : ω} (hw : w ≠ q.2.order)
    (hacked : w ∈ (p.trading.step e).acked ↔ w ∈ p.trading.acked) :
    View.Same (p.view w) ((p.deliver q.2 b e).view w) where
  order := by
    refine p.trading.step_order_of_ne ?_
    rw [about_of_reportOn he]
    exact Ne.symm hw
  sent := by
    show w ∈ (p.trading.step e).sent ↔ _
    rw [(sent_of_reportOn p.trading he).1]
    exact .rfl
  acked := hacked
  taken := by
    show taken (p.delivered ++ [q.2]) w = taken p.delivered w
    have hnone : eventsOf [q.2] w = [] := by
      refine eventsOf_eq_nil fun x hx => ?_
      rw [List.mem_singleton.mp hx]
      exact Ne.symm hw
    unfold taken
    rw [eventsOf_append, hnone, List.append_nil]
  events := .refl _
  entries _ _ := .refl _

/-- What a report does to the view of its order. -/
theorem view_deliver :
    (p.deliver q.2 b e).view q.2.order
      = { p.view q.2.order with
          order := (p.trading.step e).om.order q.2.order
          acked := q.2.order ∈ (p.trading.step e).acked
          taken := (p.view q.2.order).taken + q.2.takes } := by
  unfold view
  congr 1
  · show (q.2.order ∈ (p.trading.step e).sent) = _
    rw [(sent_of_reportOn p.trading he).1]
  · show taken (p.delivered ++ [q.2]) q.2.order = _
    unfold taken
    have hself : eventsOf [q.2] q.2.order = [q.2] :=
      eventsOf_self fun x hx => by rw [List.mem_singleton.mp hx]
    rw [eventsOf_append, sizes_append, hself]
    rfl

/-- No other order is written to. -/
theorem order_deliver {w : ω} (hw : w ≠ q.2.order) :
    (p.deliver q.2 b e).order w = p.order w := by
  refine p.trading.step_order_of_ne ?_
  rw [about_of_reportOn he]
  exact Ne.symm hw

/-- Nor is anything taken from another. -/
theorem taken_deliver_of_ne {w : ω} (hw : w ≠ q.2.order)
    (hacked : w ∈ (p.trading.step e).acked ↔ w ∈ p.trading.acked) :
    taken (p.deliver q.2 b e).delivered w = taken p.delivered w :=
  (same_deliver he hw hacked (b := b)).taken

/-- What the report takes is added to the account of its order. -/
theorem taken_deliver_self :
    taken (p.deliver q.2 b e).delivered q.2.order
      = taken p.delivered q.2.order + q.2.takes :=
  congrArg View.taken (view_deliver (b := b) he)

/-- An order keeps what the one that is reported on keeps. -/
theorem kept_deliver {α : Type} (f : Order ι → α)
    (hkept : f ((p.deliver q.2 b e).order q.2.order)
      = f (p.order q.2.order)) (w : ω) :
    f ((p.deliver q.2 b e).order w) = f (p.order w) := by
  by_cases hw : w = q.2.order
  · rw [hw]
    exact hkept
  · rw [order_deliver he hw]

section Reported

variable
  (hacked : ∀ w, w ∈ (p.trading.step e).acked
    ↔ w ∈ p.trading.acked ∨ w = q.2.order ∧ q.2.state = .acknowledged)
  (hlocal : ((p.deliver q.2 b e).order q.2.order).localID
    = (p.order q.2.order).localID)
  (hsize : ((p.deliver q.2 b e).order q.2.order).size
    = (p.order q.2.order).size)

omit he in
include hacked in
/-- No other order is acknowledged. -/
theorem acked_deliver_of_ne {w : ω} (hw : w ≠ q.2.order) :
    w ∈ (p.trading.step e).acked ↔ w ∈ p.trading.acked := by
  rw [hacked]
  exact ⟨fun h => h.elim id fun h => absurd h.1 hw, .inl⟩

include hp

include hacked in
/-- A report keeps the clock: the order's last response is the time of the
turn. -/
theorem clock_deliver
    (hresponse : ((p.deliver q.2 b e).order q.2.order).lastResponseTime
      = .ofNanos (ofLex q.1).1) : (p.deliver q.2 b e).Clock := by
  refine ⟨hp.clock.due, hp.clock.updating, hp.clock.acks, ?_⟩
  intro w hw
  by_cases hwq : w = q.2.order
  · rw [hwq, hresponse]
    exact ⟨_, Nat.le_of_eq hp.ts.symm, rfl⟩
  · rw [order_deliver he hwq]
    exact hp.clock.responses w ((acked_deliver_of_ne hacked hwq).mp hw)

include hacked hlocal in
/-- A report that is not an arrival needs no record. -/
theorem records_deliver (hsent : q.2.state ≠ .sent) :
    (p.deliver q.2 b e).Records := by
  have hr := hp.records hsent
  have hsentEq : (p.deliver q.2 b e).trading.sent = p.trading.sent :=
    (sent_of_reportOn p.trading he).1
  have hkept := kept_deliver he Order.localID hlocal
  refine ⟨?_, ?_, ?_, ?_, ?_⟩
  · intro w hw
    show _ ≤ (p.trading.step e).om.localID
    rw [hkept w, (sent_of_reportOn p.trading he).2]
    exact hr.counted w (hsentEq ▸ hw)
  · intro w hw w' hw' heq
    rw [hkept w, hkept w'] at heq
    exact hr.apart w (hsentEq ▸ hw) w' (hsentEq ▸ hw') heq
  · intro w hw hnone htaken
    rw [hkept w]
    refine hr.recorded w (hsentEq ▸ hw) hnone ?_
    by_cases hwq : w = q.2.order
    · rw [hwq, taken_deliver_self he] at htaken
      rw [hwq]
      omega
    · rw [taken_deliver_of_ne he hwq (acked_deliver_of_ne hacked hwq)]
        at htaken
      exact htaken
  · intro n w hn
    rw [hkept w, hsentEq]
    exact hr.record n w hn
  · intro w hw
    show ∃ a ∈ p.delivered ++ [q.2], _
    rcases (hacked w).mp hw with hw | ⟨rfl, hst⟩
    · obtain ⟨a, ha, hrest⟩ := hr.reported w hw
      exact ⟨a, List.mem_append_left _ ha, hrest⟩
    · exact ⟨q.2, List.mem_append_right _ (List.mem_singleton_self _), rfl,
        hst⟩

include hacked hsize in
/-- What was taken stays within the size of every order. -/
theorem conserves_deliver (hsent : q.2.state ≠ .sent)
    (hfilled : q.2.state = .filled → q.2.order ∈ p.trading.acked)
    (hb : b = true) : (p.deliver q.2 b e).Conserves := by
  have hr := hp.records hsent
  have hkept := kept_deliver he Order.size hsize
  refine ⟨?_, ?_, ?_, ?_⟩
  · intro x hx hkind
    rcases List.mem_append.mp hx with hx | hx
    · exact hp.conserves.positive x hx hkind
    · rw [List.mem_singleton.mp hx] at hkind ⊢
      exact hp.view.ledger.positive q List.mem_cons_self hkind
  · intro w
    rw [hkept w]
    by_cases hw : w = q.2.order
    · have hle := hp.view.ledger.spent_le
      rw [View.spent_push] at hle
      have hle : taken p.delivered q.2.order
          + sizes ((p.view q.2.order).events.map Prod.snd) + q.2.takes
          ≤ (p.order q.2.order).size := hle
      rw [hw, taken_deliver_self he]
      omega
    · rw [taken_deliver_of_ne he hw (acked_deliver_of_ne hacked hw)]
      exact hp.conserves.within w
  · intro before x after hsplit hst
    have hsplit : p.delivered ++ [q.2] = before ++ x :: after := hsplit
    rcases List.eq_nil_or_concat after with rfl | ⟨after', y, rfl⟩
    · obtain ⟨rfl, heq⟩ := List.append_inj' hsplit rfl
      obtain rfl : q.2 = x := List.head_eq_of_cons_eq heq
      exact hr.reported q.2.order (hfilled hst)
    · rw [List.concat_eq_append, ← List.cons_append,
        ← List.append_assoc] at hsplit
      exact hp.conserves.acknowledged before x after'
        (List.append_inj' hsplit rfl).1 hst
  · show (p.asserts && b) = true
    rw [hp.conserves.asserts, hb]
    rfl

end Reported

include hp

/-- A report, with what it does to its order given. -/
theorem Serving.deliver {o : Order ι}
    (ho : (p.trading.step e).om.order q.2.order = o)
    (hsize : o.size = (p.order q.2.order).size)
    (hlocal : o.localID = (p.order q.2.order).localID)
    (hresponse : o.lastResponseTime = .ofNanos (ofLex q.1).1)
    (hacked : ∀ w, w ∈ (p.trading.step e).acked
      ↔ w ∈ p.trading.acked ∨ w = q.2.order ∧ q.2.state = .acknowledged)
    (hsent : q.2.state ≠ .sent)
    (hfilled : q.2.state = .filled → q.2.order ∈ p.trading.acked)
    (hb : b = true)
    (hview : ((p.deliver q.2 b e).view q.2.order).Inv) :
    (p.deliver q.2 b e).SimInv := by
  have hself : (p.deliver q.2 b e).order q.2.order = o := ho
  rw [← hself] at hsize hlocal hresponse
  exact
    { clock := clock_deliver hp he hacked hresponse
      records := records_deliver hp he hacked hlocal hsent
      views := by
        intro w
        by_cases hw : w = q.2.order
        · rw [hw]
          exact hview
        · exact (hp.others w hw).of_same
            (same_deliver he hw (acked_deliver_of_ne hacked hw))
      conserves := conserves_deliver hp he hacked hsize hsent hfilled hb }

end Deliver

-- ---------------------------------------------------------------- the reports

omit [DecidableEq ι] in
/-- Once something of an order was reported, it may go off the record. -/
theorem SimInv.eraseOrder {s : L2Sim ω ι} (h : s.SimInv) {w : ω}
    (hw : w ∈ s.trading.sent) (htaken : taken s.delivered w ≠ 0) :
    (s.eraseOrder w).SimInv := by
  refine ⟨h.clock.withSession rfl rfl fun q hq => .inl hq, ?_, h.views,
    h.conserves.withSession⟩
  refine ⟨h.records.counted, h.records.apart, ?_, ?_, h.records.reported⟩
  · intro w' hw' hnone hzero
    show Function.update s.session.orders (s.order w).localID none
      (s.order w').localID = some w'
    have hne : w' ≠ w := by
      rintro rfl
      exact htaken hzero
    rw [Function.update_of_ne fun heq =>
      hne (h.records.apart w' hw' w hw heq)]
    exact h.records.recorded w' hw' hnone hzero
  · intro n w'
    show Function.update s.session.orders (s.order w).localID none n
      = some w' → _
    by_cases hn : n = (s.order w).localID
    · rw [hn, Function.update_self]
      exact nofun
    · rw [Function.update_of_ne hn]
      exact h.records.record n w'

section Reports

variable {p : L2Sim ω ι} {q : SimEvent.Ordering × SimEvent ω}
  (hp : p.Serving q)

include hp

omit [DecidableEq ι] in
/-- An event is only ever about an order that was sent. -/
theorem Serving.sent : q.2.order ∈ p.trading.sent :=
  hp.view.stages.sent (List.cons_ne_nil _ _)

omit [DecidableEq ι] in
/-- No acknowledgment is due after a fill or a cancel that is due first. -/
theorem Serving.no_acknowledgment
    (hkind : q.2.state = .filled ∨ q.2.state = .cancelled) :
    (p.view q.2.order).count .acknowledged = 0 := by
  refine View.count_eq_zero.mpr fun a ha hst => ?_
  have hin : a ∈ p.session.eventq := (mem_events.mp ha).1
  have hall := (hp.view.stages.acking a (List.mem_cons_of_mem _ ha) hst).1 q
    List.mem_cons_self
  rcases hall with h | ⟨-, hlt⟩
  · rw [h] at hkind
    rcases hkind with hkind | hkind <;> cases hkind
  · exact absurd (hp.first a hin) (not_le_of_gt hlt)

omit [DecidableEq ι] in
/-- There is room for what is reported. -/
theorem Serving.room
    (hkind : q.2.state = .filled ∨ q.2.state = .cancelled) :
    0 < q.2.size ∧ (p.order q.2.order).filledSize
        + (p.order q.2.order).cancelledSize + q.2.size
        + sizes ((p.view q.2.order).events.map Prod.snd)
      ≤ (p.order q.2.order).size := by
  obtain ⟨hpos, hroom⟩ := hp.view.room hkind
  have hbooked : (p.order q.2.order).filledSize
      + (p.order q.2.order).cancelledSize = (p.view q.2.order).taken :=
    hp.view.ledger.booked
  rw [hbooked]
  exact ⟨hpos, hroom⟩

/-- The turn of an acknowledgment. -/
theorem Serving.acknowledged (hstate : q.2.state = .acknowledged) :
    (p.onOrderAcknowledged (ofLex q.1).1 q.2).SimInv := by
  obtain ⟨hsentState, hinv⟩ := hp.view.acknowledged hstate
    (p.order q.2.order).localID (.ofNanos (ofLex q.1).1)
    (nanosecondsSinceMidnight (ofLex q.1).1)
  refine hp.deliver rfl (Function.update_self ..) rfl rfl rfl ?_ ?_ ?_ ?_ ?_
  · intro w
    show w ∈ insert q.2.order p.trading.acked ↔ _
    rw [Finset.mem_insert, or_comm, and_iff_left hstate]
  · rw [hstate]
    decide
  · intro h
    rw [hstate] at h
    cases h
  · unfold acknowledgedAssert
    have hst : (p.order q.2.order).state = .sent := hsentState
    rw [hst]
  · refine hinv.of_same ?_
    rw [view_deliver rfl]
    refine ⟨Function.update_self .., .rfl, ?_, ?_, .refl _,
      fun _ _ => .refl _⟩
    · show q.2.order ∈ insert q.2.order p.trading.acked ↔ True
      simp
    · show (p.view q.2.order).taken + q.2.takes = (p.view q.2.order).taken
      unfold SimEvent.takes
      rw [hstate]
      rfl

omit hp in
/-- The view after a fill or a cancel was reported. -/
theorem same_report {b : Bool} {e : Event ω}
    (he : e.reportOn = some q.2.order) {o : Order ι}
    (ho : (p.trading.step e).om.order q.2.order = o)
    (hacked : (p.trading.step e).acked = p.trading.acked)
    (hkind : q.2.state = .filled ∨ q.2.state = .cancelled) :
    View.Same ((p.view q.2.order).report o q.2.size)
      ((p.deliver q.2 b e).view q.2.order) := by
  rw [view_deliver he]
  refine ⟨ho, .rfl, ?_, ?_, .refl _, fun _ _ => .refl _⟩
  · show q.2.order ∈ (p.trading.step e).acked ↔ q.2.order ∈ p.trading.acked
    rw [hacked]
  · show (p.view q.2.order).taken + q.2.takes
      = (p.view q.2.order).taken + q.2.size
    have htakes : q.2.takes = q.2.size := if_pos hkind
    rw [htakes]

/-- Something of the order was reported then. -/
theorem Serving.taken_report {b : Bool} {e : Event ω}
    (he : e.reportOn = some q.2.order)
    (hkind : q.2.state = .filled ∨ q.2.state = .cancelled) :
    taken (p.deliver q.2 b e).delivered q.2.order ≠ 0 := by
  have htakes : q.2.takes = q.2.size := if_pos hkind
  have hpos := (hp.room hkind).1
  have heq : taken (p.deliver q.2 b e).delivered q.2.order
      = (p.view q.2.order).taken + q.2.takes :=
    congrArg View.taken (view_deliver he)
  omega

/-- The turn of a fill. -/
theorem Serving.filled (hstate : q.2.state = .filled) :
    (p.onOrderFilled (ofLex q.1).1 q.2).SimInv := by
  set ts := (ofLex q.1).1 with hts
  have hacked : q.2.order ∈ p.trading.acked := by
    have hfill := hp.view.stages.filled
      (View.count_pos.mpr ⟨q, List.mem_cons_self, hstate⟩)
    rw [View.count_push_of_ne (by rw [hstate]; decide),
      hp.no_acknowledgment (.inl hstate)] at hfill
    rcases hfill with hfill | hfill
    · exact hfill
    · cases hfill
  obtain ⟨hpos, hroom⟩ := hp.room (.inl hstate)
  have hlt := (p.order q.2.order).size_lt
  have hfilled := filledSize_fill (o := p.order q.2.order) (n := q.2.size)
    (by omega) q.2.price (.ofNanos ts) (nanosecondsSinceMidnight ts) .unknown
  have hinv := hp.view.filled hstate hacked
    (o := orderUpdateOnFill (p.order q.2.order) q.2.size q.2.price
      (.ofNanos ts) (nanosecondsSinceMidnight ts) .unknown)
    rfl hfilled rfl (by
      rw [hfilled]
      unfold orderUpdateOnFill
      dsimp only
      rw [u32_add_of_fits (by omega)]
      split
      case isTrue h => exact .inr ⟨rfl, by omega⟩
      case isFalse => exact .inl rfl)
  have hassert : p.filledAssert ts q.2 = true := by
    have hcode : L2SimSession.stateCode .acknowledged
        ≤ L2SimSession.stateCode (p.order q.2.order).state :=
      hp.view.manager.acked hacked
    obtain ⟨n, hn, hresponse⟩ := hp.clock.responses q.2.order hacked
    unfold filledAssert
    dsimp only
    rw [decide_eq_true hcode, hresponse,
      Timestamp.ofNanos_le (Nat.le_trans hn (Nat.le_of_eq hp.ts)),
      Bool.or_true]
    rfl
  have hdelivered : (p.deliver q.2 (p.filledAssert ts q.2)
      (.fill q.2.order q.2.size q.2.price (.ofNanos ts)
        (nanosecondsSinceMidnight ts) .unknown)).SimInv := by
    refine hp.deliver rfl (Function.update_self ..) rfl rfl rfl ?_ ?_
      (fun _ => hacked) hassert ?_
    · intro w
      show w ∈ p.trading.acked ↔ _
      rw [hstate]
      simp
    · rw [hstate]
      decide
    · exact hinv.of_same (same_report rfl (Function.update_self ..) rfl
        (.inl hstate))
  unfold onOrderFilled
  dsimp only
  split
  · exact hdelivered.eraseOrder hp.sent (hp.taken_report rfl (.inl hstate))
  · exact hdelivered

omit hp [DecidableEq ω] [DecidableEq ι] in
/-- When the assertions of `on_order_cancelled` hold. -/
theorem cancelledAssert_eq {se : SimEvent ω}
    (hexpects : View.cancelledExpects (p.order se.order).state)
    (hsize : se.size ≤ (p.order se.order).size)
    (hwhole : se.size = (p.order se.order).size →
      (p.session.orders (p.order se.order).localID).isSome = true) :
    p.cancelledAssert se = true := by
  have hrecord : (se.size != (p.order se.order).size
      || (p.session.orders (p.order se.order).localID).isSome) = true := by
    by_cases h : se.size = (p.order se.order).size
    · rw [hwhole h, Bool.or_true]
    · rw [bne_iff_ne.mpr h, Bool.true_or]
  unfold cancelledAssert
  dsimp only
  rw [decide_eq_true hsize, hrecord]
  rcases hexpects with h | h | h | h <;> rw [h] <;> rfl

/-- The turn of a cancel. -/
theorem Serving.cancelled (hstate : q.2.state = .cancelled) :
    (p.onOrderCancelled (ofLex q.1).1 q.2).SimInv := by
  set ts := (ofLex q.1).1 with hts
  have hexpects := (hp.view.stages.cancelled q List.mem_cons_self hstate).1
  obtain ⟨hpos, hroom⟩ := hp.room (.inr hstate)
  have hlt := (p.order q.2.order).size_lt
  have hcancelled := cancelledSize_cancel (o := p.order q.2.order)
    (n := q.2.size) (by omega) (.ofNanos ts) (nanosecondsSinceMidnight ts)
  have heq := orderUpdateOnCancel_eq (p.order q.2.order) q.2.size
    (.ofNanos ts) (nanosecondsSinceMidnight ts)
  have hinv := hp.view.cancelled hstate (hp.no_acknowledgment (.inr hstate))
    (o := orderUpdateOnCancel (p.order q.2.order) q.2.size (.ofNanos ts)
      (nanosecondsSinceMidnight ts))
    (by rw [heq]; rfl) (by rw [heq]; rfl) hcancelled
    (by
      intro hopen
      have hopen : (p.order q.2.order).openSize = 0 := hopen
      rw [heq]
      dsimp only
      rw [hopen, if_pos (Nat.zero_le _)])
    (by
      rw [heq]
      dsimp only
      split
      · exact .inl rfl
      · exact .inr rfl)
  have hassert : p.cancelledAssert q.2 = true := by
    refine cancelledAssert_eq hexpects (by omega) fun hwhole => ?_
    -- an order that is cancelled whole is on record
    have hbooked : (p.order q.2.order).filledSize
        + (p.order q.2.order).cancelledSize
        = taken p.delivered q.2.order := hp.view.ledger.booked
    have hrecorded := (hp.records (by rw [hstate]; decide)).recorded
      q.2.order hp.sent (fun x hx hxw hst => ?_) (by omega)
    · rw [hrecorded]
      rfl
    · have hone := (hp.view.stages.travelling x (List.mem_cons_of_mem _
        (mem_events.mpr ⟨hx, hxw⟩)) hst).1
      have hq : q ∈ [x] := hone ▸ List.mem_cons_self
      rw [List.mem_singleton.mp hq, hst] at hstate
      cases hstate
  have hdelivered : (p.deliver q.2 (p.cancelledAssert q.2)
      (.cancelled q.2.order q.2.size (.ofNanos ts)
        (nanosecondsSinceMidnight ts))).SimInv := by
    refine hp.deliver rfl (Function.update_self ..) ?_ ?_ ?_ ?_ ?_ ?_ hassert
      ?_
    · show (orderUpdateOnCancel (p.order q.2.order) _ _ _).size = _
      rw [heq]
    · show (orderUpdateOnCancel (p.order q.2.order) _ _ _).localID = _
      rw [heq]
    · show (orderUpdateOnCancel (p.order q.2.order) _ _ _).lastResponseTime
        = _
      rw [heq]
    · intro w
      show w ∈ p.trading.acked ↔ _
      rw [hstate]
      simp
    · rw [hstate]
      decide
    · intro h
      rw [hstate] at h
      cases h
    · exact hinv.of_same (same_report rfl (Function.update_self ..) rfl
        (.inr hstate))
  unfold onOrderCancelled
  dsimp only
  split
  · exact hdelivered.eraseOrder hp.sent (hp.taken_report rfl (.inr hstate))
  · exact hdelivered

/-- The turn of a refused cancel. -/
theorem Serving.cancelRejected (hstate : q.2.state = .cancelRejected) :
    (p.onOrderCancelRejected (ofLex q.1).1 q.2).SimInv := by
  have hrequest : View.IsRequest q.2.state := .inr hstate
  have hacked : q.2.order ∈ p.trading.acked :=
    hp.view.stages.requested q List.mem_cons_self hrequest
  have hnone : (p.view q.2.order).count .cancelled = 0 := by
    refine View.count_eq_zero.mpr fun c hc hst => ?_
    have hbefore := (hp.view.stages.cancelled c (List.mem_cons_of_mem _ hc)
      hst).2 q List.mem_cons_self hstate
    exact absurd (hp.first c (mem_events.mp hc).1) (not_le_of_gt hbefore)
  have hpop := hp.view.pop (by rw [hstate]; decide) (by rw [hstate]; decide)
    (by rw [hstate]; decide)
  have hinv := hpop.withState hacked
    (o := orderUpdateOnCancelRejected (p.order q.2.order)
      (.ofNanos (ofLex q.1).1) (nanosecondsSinceMidnight (ofLex q.1).1))
    rfl rfl rfl (.inr ⟨rfl, hnone⟩)
  refine hp.deliver rfl (Function.update_self ..) rfl rfl rfl ?_ ?_ ?_ rfl ?_
  · intro w
    show w ∈ p.trading.acked ↔ _
    rw [hstate]
    simp
  · rw [hstate]
    decide
  · exact fun _ => hacked
  · refine hinv.of_same ?_
    rw [view_deliver rfl]
    refine ⟨Function.update_self .., .rfl, .rfl, ?_, .refl _,
      fun _ _ => .refl _⟩
    show (p.view q.2.order).taken + q.2.takes = (p.view q.2.order).taken
    rw [View.takes_request hrequest]
    rfl

end Reports

end L2Sim

end TradingEngine.OE
