/-
The simulated exchange conserves orders: what is to be shown, and the
invariant that shows it.

# Where it goes wrong

A fill of nothing, when a market order meets an empty side. A remainder
cancelled before the acknowledgment, when cancels are faster. A second
cross of an auction, in which the orders the first one cancelled are still
there. And answers to cancel requests that overtake one another, so that
`on_order_cancelled` meets an order in a state that it asserts away.
`Sound` excludes these four, and orders that are sent again.

# The invariant

Each order's view keeps its own invariant (`View.Inv`). Beside that stand
the time (`Clock`) and the session's record of orders (`Records`).
-/
import TradingEngine.OE.Proofs.L2SimView
import TradingEngine.OE.Proofs.Send

namespace TradingEngine.OE

variable {ω ι : Type} [DecidableEq ω]

namespace L2Sim

open L2SimSession (restingContainer isAuction priceTaken crosses opposite
  takesOnly cancelable)

-- ================================================================ statements

/-- What was reported of every order is conserved, and no assertion has
failed. -/
structure Conserves (s : L2Sim ω ι) : Prop where
  positive : ∀ e ∈ s.delivered, e.state = .filled ∨ e.state = .cancelled →
    0 < e.size
  within : ∀ w, taken s.delivered w ≤ (s.order w).size
  acknowledged : ∀ before e after, s.delivered = before ++ e :: after →
    e.state = .filled →
    ∃ a ∈ before, a.order = e.order ∧ a.state = .acknowledged
  asserts : s.asserts = true

/-- An order that trades on arrival meets a quote with a size. If that is
not enough for one that is not to rest, cancels are not faster than
acknowledgments. -/
def ArrivalSound (s : L2Sim ω ι) (se : SimEvent ω) (view : BookView) :
    Prop :=
  let o := s.order se.order
  let be := s.session.books se.esi
  let q := opposite o view.best
  isAuction o = false → be.bookP = true → priceTaken o be = false →
    crosses o view.best = true →
    0 < q.size.toNat
      ∧ (q.size.toNat < o.size → takesOnly o = true →
        s.session.ackLatency ≤ s.session.cxlLatency)

/-- The order is on record and rests, with no less than is to be
cancelled. -/
def Grants (s : L2Sim ω ι) (se : SimEvent ω) : Prop :=
  let o := s.order se.order
  s.session.orders o.localID = some se.order ∧ cancelable o.state = true
    ∧ ∃ simo, ((s.session.books se.esi).orders (restingContainer o)).find
        o.price = some simo
      ∧ simo.order = se.order ∧ (se.size = 0 ∨ se.size ≤ simo.remains)

/-- A cancel request that is granted finds no other answer in the queue. A
`CANCELLED` that is in the queue is due before a refusal would be. -/
def RequestSound (s : L2Sim ω ι) (ts : Nat) (se : SimEvent ω) : Prop :=
  (s.Grants se → ∀ q ∈ s.session.eventq, q.2.order = se.order →
    q.2.state ≠ .cancelled ∧ q.2.state ≠ .cancelRejected)
  ∧ (¬ s.Grants se → ∀ q ∈ s.session.eventq, q.2.order = se.order →
    q.2.state = .cancelled → q.1 < dueAt (ts + s.session.cxlLatency) 0)

/-- No part of the order was cancelled or is about to be, and no cancel
request of it was rejected or will be by then. -/
structure Untouched (s : L2Sim ω ι) (due : SimEvent.Ordering) (w : ω) :
    Prop where
  cancelledSize : (s.order w).cancelledSize = 0
  state : (s.order w).state ≠ .cancelRejected
  cancelled : ∀ q ∈ s.session.eventq, q.2.order = w →
    q.2.state ≠ .cancelled
  rejected : ∀ q ∈ s.session.eventq, q.2.order = w →
    q.2.state = .cancelRejected → due < q.1

/-- The containers that a cross print crosses. -/
def crossed (mic : SimMarket) (type : CrossType) : List Container :=
  match mic, type with
  | .xnys, .closing => [.closeBids, .closeAsks]
  | .xnys, .opening => [.closeBids, .closeAsks]
  | .xnas, .closing => [.closeBids, .closeAsks]
  | .xnas, .opening => [.openBids, .openAsks]
  | _, _ => []

/-- A cross print finds no order that was touched before. -/
def CrossSound (s : L2Sim ω ι) (ts esi tradeId : Nat) (type : CrossType) :
    Prop :=
  esi < s.session.booksSize → tradeId ∉ (s.session.books esi).trades →
    ∀ k ∈ crossed s.session.mic type, ∀ y ∈ (s.session.books esi).orders k,
      s.Untouched (dueAt (ts + s.session.ackLatency) 0) y.2.order

/-- The condition. -/
def Sound (s : L2Sim ω ι) : Input ω ι → Prop
  | .send w _ => (s.order w).unsent = true
  | .turn k view => ∀ due se, s.session.eventq[k]? = some (due, se) →
      (se.state = .sent → s.ArrivalSound se view)
      ∧ (se.state = .pendingCancel → s.RequestSound (ofLex due).1 se)
  | .market ts esi (.trade tradeId _ _ (some type)) =>
      s.CrossSound ts esi tradeId type
  | _ => True

instance (s : L2Sim ω ι) (se : SimEvent ω) : Decidable (s.Grants se) :=
  inferInstanceAs (Decidable (_ ∧ _ ∧ ∃ simo ∈ ((s.session.books se.esi
    ).orders (restingContainer (s.order se.order))).find
      (s.order se.order).price,
    simo.order = se.order ∧ (se.size = 0 ∨ se.size ≤ simo.remains)))

instance (s : L2Sim ω ι) (due : SimEvent.Ordering) (w : ω) :
    Decidable (s.Untouched due w) :=
  decidable_of_iff ((s.order w).cancelledSize = 0
    ∧ (s.order w).state ≠ .cancelRejected
    ∧ (∀ q ∈ s.session.eventq, q.2.order = w → q.2.state ≠ .cancelled)
    ∧ ∀ q ∈ s.session.eventq, q.2.order = w →
      q.2.state = .cancelRejected → due < q.1)
    ⟨fun h => ⟨h.1, h.2.1, h.2.2.1, h.2.2.2⟩,
      fun h => ⟨h.cancelledSize, h.state, h.cancelled, h.rejected⟩⟩

instance (s : L2Sim ω ι) (se : SimEvent ω) (view : BookView) :
    Decidable (s.ArrivalSound se view) := by
  unfold ArrivalSound
  infer_instance

instance (s : L2Sim ω ι) (ts : Nat) (se : SimEvent ω) :
    Decidable (s.RequestSound ts se) := by
  unfold RequestSound
  infer_instance

instance (s : L2Sim ω ι) (ts esi tradeId : Nat) (type : CrossType) :
    Decidable (s.CrossSound ts esi tradeId type) := by
  unfold CrossSound
  infer_instance

instance (s : L2Sim ω ι) (i : Input ω ι) : Decidable (s.Sound i) :=
  match i with
  | .send w _ => inferInstanceAs (Decidable ((s.order w).unsent = true))
  | .cancel _ _ => .isTrue trivial
  | .startOfData _ => .isTrue trivial
  | .turn k view =>
      decidable_of_iff (∀ q ∈ s.session.eventq[k]?,
        (q.2.state = .sent → s.ArrivalSound q.2 view)
        ∧ (q.2.state = .pendingCancel → s.RequestSound (ofLex q.1).1 q.2))
        ⟨fun h due se hq => h (due, se) hq, fun h q hq => h q.1 q.2 hq⟩
  | .endOfUpdate => .isTrue trivial
  | .symbolDefinition _ _ => .isTrue trivial
  | .market ts esi e =>
      match e with
      | .trade tradeId _ _ (some type) =>
          inferInstanceAs (Decidable (s.CrossSound ts esi tradeId type))
      | .trade _ _ _ none => .isTrue trivial
      | .tradingStatus _ => .isTrue trivial
      | .bookAdded _ _ _ => .isTrue trivial
      | .bookCanceled _ _ _ _ _ => .isTrue trivial
      | .bookModified _ _ _ _ _ _ => .isTrue trivial
      | .bookExecuted _ _ _ _ _ _ _ _ => .isTrue trivial
      | .l2Update _ _ _ _ _ _ _ => .isTrue trivial
      | .nasdaqImbalance _ _ => .isTrue trivial

-- ================================================================= invariant

/-- What the simulation holds of the order. -/
def view (s : L2Sim ω ι) (w : ω) : View ω ι where
  order := s.order w
  sent := w ∈ s.trading.sent
  acked := w ∈ s.trading.acked
  taken := taken s.delivered w
  events := s.session.eventq.filter fun q => decide (q.2.order = w)
  entries esi k := entriesOf ((s.session.books esi).orders k) w

/-- Times do not run backwards, and an acknowledgment that is due comes
before anything that market data could cause now. -/
structure Clock (s : L2Sim ω ι) : Prop where
  due : ∀ q ∈ s.session.eventq, s.session.ts ≤ (ofLex q.1).1
  updating : ∀ ts, s.updating = some ts → s.session.ts ≤ ts
  acks : ∀ q ∈ s.session.eventq, q.2.state = .acknowledged →
    q.1 < dueAt (s.updating.getD s.session.ts + s.session.ackLatency) 0
  responses : ∀ w ∈ s.trading.acked, ∃ n ≤ s.session.ts,
    (s.order w).lastResponseTime = .ofNanos n

/-- The session has every order that arrived on record until something of
it is filled or cancelled. -/
structure Records (s : L2Sim ω ι) : Prop where
  counted : ∀ w ∈ s.trading.sent,
    (s.order w).localID ≤ s.trading.om.localID
  apart : ∀ w ∈ s.trading.sent, ∀ w' ∈ s.trading.sent,
    (s.order w).localID = (s.order w').localID → w = w'
  recorded : ∀ w ∈ s.trading.sent,
    (∀ q ∈ s.session.eventq, q.2.order = w → q.2.state ≠ .sent) →
    taken s.delivered w = 0 →
    s.session.orders (s.order w).localID = some w
  record : ∀ n w, s.session.orders n = some w →
    (s.order w).localID = n ∧ w ∈ s.trading.sent
  /-- Whose acknowledgment the order manager has, it was reported. -/
  reported : ∀ w ∈ s.trading.acked,
    ∃ a ∈ s.delivered, a.order = w ∧ a.state = .acknowledged

structure SimInv (s : L2Sim ω ι) : Prop where
  clock : s.Clock
  records : s.Records
  views : ∀ w, (s.view w).Inv
  conserves : s.Conserves

/-- The events of an order are those in the queue that name it. -/
theorem mem_events {s : L2Sim ω ι} {w : ω}
    {q : SimEvent.Ordering × SimEvent ω} :
    q ∈ (s.view w).events ↔ q ∈ s.session.eventq ∧ q.2.order = w := by
  show q ∈ s.session.eventq.filter _ ↔ _
  rw [List.mem_filter, decide_eq_true_eq]

/-- Its entries are those in the books that name it. -/
theorem mem_entries {s : L2Sim ω ι} {w : ω} {esi : Nat} {k : Container}
    {o : SimOrder ω} :
    o ∈ (s.view w).entries esi k
      ↔ (∃ p, (p, o) ∈ (s.session.books esi).orders k) ∧ o.order = w :=
  mem_entriesOf

/-- What is in a container has a size. -/
theorem SimInv.remains_pos {s : L2Sim ω ι} (h : s.SimInv) {esi : Nat}
    {k : Container} {y : Rat × SimOrder ω}
    (hy : y ∈ (s.session.books esi).orders k) : 0 < y.2.remains :=
  (h.views y.2.order).ledger.remains esi k y.2
    (mem_entries.mpr ⟨⟨y.1, hy⟩, rfl⟩)

-- ============================================================== other session

/-- The simulation with another session. -/
def withSession (s : L2Sim ω ι) (ss : L2SimSession ω ι) : L2Sim ω ι :=
  { s with session := ss }

section WithSession

variable {s : L2Sim ω ι} {ss : L2SimSession ω ι}

omit [DecidableEq ω] in
/-- What is queued late enough keeps the clock. -/
theorem Clock.withSession (h : s.Clock) (hts : ss.ts = s.session.ts)
    (hlatency : ss.ackLatency = s.session.ackLatency)
    (heventq : ∀ q ∈ ss.eventq, q ∈ s.session.eventq
      ∨ s.session.ts ≤ (ofLex q.1).1
        ∧ (q.2.state = .acknowledged → q.1 < dueAt
          (s.updating.getD s.session.ts + s.session.ackLatency) 0)) :
    (s.withSession ss).Clock where
  due q hq := by
    show ss.ts ≤ _
    rw [hts]
    rcases heventq q hq with hq | ⟨hdue, -⟩
    · exact h.due q hq
    · exact hdue
  updating ts hup := by
    show ss.ts ≤ _
    rw [hts]
    exact h.updating ts hup
  acks q hq hstate := by
    show q.1 < dueAt (s.updating.getD ss.ts + ss.ackLatency) 0
    rw [hts, hlatency]
    rcases heventq q hq with hq | ⟨-, hack⟩
    · exact h.acks q hq hstate
    · exact hack hstate
  responses := by
    show ∀ w ∈ _, ∃ n ≤ ss.ts, _
    rw [hts]
    exact h.responses

/-- Arrivals stay on record. -/
theorem Records.withSession (h : s.Records)
    (horders : ss.orders = s.session.orders)
    (heventq : ∀ q ∈ s.session.eventq, q.2.state = .sent → q ∈ ss.eventq) :
    (s.withSession ss).Records where
  counted := h.counted
  apart := h.apart
  recorded w hw hnone htaken := by
    show ss.orders _ = _
    rw [horders]
    exact h.recorded w hw (fun q hq hqw hst =>
      hnone q (heventq q hq hst) hqw hst) htaken
  record n w := by
    show ss.orders n = _ → _
    rw [horders]
    exact h.record n w
  reported := h.reported

/-- What was delivered is not touched by the session. -/
theorem Conserves.withSession (h : s.Conserves) :
    (s.withSession ss).Conserves := { h with }

end WithSession

-- ============================================================ the containers

section Containers

variable (s : L2Sim ω ι) (esi : Nat) (k : Container) (c : OrderContainer ω)
  (due : SimEvent.Ordering) (es : List (SimEvent ω))

omit [DecidableEq ω] in
/-- A container is replaced, and no other. -/
theorem orders_setOrders (ss : L2SimSession ω ι) (esi' : Nat)
    (k' : Container) :
    ((ss.setOrders esi k c).books esi').orders k'
      = if esi' = esi ∧ k' = k then c else (ss.books esi').orders k' := by
  unfold L2SimSession.setOrders
  dsimp only
  by_cases hesi : esi' = esi
  · subst hesi
    rw [Function.update_self]
    dsimp only
    by_cases hk : k' = k
    · subst hk
      rw [Function.update_self, if_pos ⟨rfl, rfl⟩]
    · rw [Function.update_of_ne hk, if_neg fun h => hk h.2]
  · rw [Function.update_of_ne hesi, if_neg fun h => hesi h.1]

omit [DecidableEq ω] in
/-- Events that are queued together are due together. -/
theorem mem_emplaceAll {ss : L2SimSession ω ι}
    {q : SimEvent.Ordering × SimEvent ω} :
    q ∈ (ss.emplaceAll due es).eventq
      ↔ q ∈ ss.eventq ∨ q.1 = due ∧ q.2 ∈ es := by
  obtain ⟨d, e⟩ := q
  unfold L2SimSession.emplaceAll
  simp only [List.mem_append, List.mem_map, Prod.mk.injEq]
  constructor
  · rintro (h | ⟨e', he', rfl, rfl⟩)
    · exact .inl h
    · exact .inr ⟨rfl, he'⟩
  · rintro (h | ⟨rfl, he⟩)
    · exact .inl h
    · exact .inr ⟨e, he, rfl, rfl⟩

/-- The session after a container was settled. -/
def settled : L2Sim ω ι :=
  s.withSession ((s.session.setOrders esi k c).emplaceAll due es)

/-- A container that is settled settles the view of each order in it. -/
theorem view_settled (w : ω) :
    (s.settled esi k c due es).view w
      = (s.view w).settle esi k (entriesOf c w) due (eventsOf es w) := by
  unfold view View.settle
  congr 1
  · show (s.session.eventq ++ es.map fun e => (due, e)).filter _ = _
    rw [List.filter_append, List.filter_map]
    rfl
  · funext esi' k'
    show entriesOf (((s.session.setOrders esi k c).books esi').orders k') w
      = _
    rw [orders_setOrders]
    split <;> rfl

end Containers

section Settled

variable {s : L2Sim ω ι} (h : s.SimInv) {esi : Nat} {k : Container}
  {c : OrderContainer ω} {due : SimEvent.Ordering} {es : List (SimEvent ω)}

include h

/-- A container is settled. -/
theorem SimInv.settled
    {keeps : SimOrder ω → SimOrder ω → List (SimEvent ω) → Prop}
    (hset : Settles keeps ((s.session.books esi).orders k) c es)
    (hkeeps : ∀ o o' es, keeps o o' es →
      (k.auction = false → Live o o' es) ∧ (k.auction = true → Dead o o' es))
    (hdue : s.session.ts ≤ (ofLex due).1)
    (hwithin : ∀ w, ∀ o ∈ (s.view w).entries esi k,
      (s.view w).spent + o.remains ≤ (s.order w).size)
    (hack : ∀ e ∈ es, ∀ a ∈ s.session.eventq, a.2.order = e.order →
      a.2.state = .acknowledged → a.1 < due)
    (hclear : ∀ e ∈ es, e.state = .cancelled →
      (s.view e.order).Clear due) :
    (s.settled esi k c due es).SimInv := by
  have horder : ∀ w, SettlesOrder keeps ((s.view w).entries esi k)
      (entriesOf c w) (eventsOf es w) :=
    fun w => hset.order ((h.views w).ledger.once esi k)
  refine ⟨?_, ?_, ?_, h.conserves.withSession⟩
  case refine_1 =>
    refine h.clock.withSession rfl rfl fun q hq => ?_
    rcases (mem_emplaceAll ..).mp hq with hq | ⟨hqdue, hq⟩
    · exact .inl hq
    · refine .inr ⟨hqdue ▸ hdue, fun hst => ?_⟩
      have hmine : q.2 ∈ eventsOf es q.2.order :=
        mem_eventsOf.mpr ⟨hq, rfl⟩
      rcases View.entry_of_event (horder q.2.order) with hnil | ⟨o, -, hes⟩
      · rw [hnil] at hmine
        cases hmine
      · rcases hes.kind _ hmine with hk | hk <;> rw [hk] at hst <;> cases hst
  case refine_2 =>
    exact h.records.withSession rfl fun q hq _ =>
      (mem_emplaceAll ..).mpr (.inl hq)
  case refine_3 =>
    intro w
    rw [view_settled]
    refine (h.views w).settle (horder w) (fun o o' => hkeeps o o' _)
      (hwithin w) (fun hne a ha hst => ?_) (fun hcount => ?_)
    · obtain ⟨e, he⟩ := List.exists_mem_of_ne_nil _ hne
      obtain ⟨he, hew⟩ := mem_eventsOf.mp he
      obtain ⟨ha, haw⟩ := mem_events.mp ha
      exact hack e he a ha (haw.trans hew.symm) hst
    · obtain ⟨e, he, hst⟩ := countOf_pos.mp hcount
      obtain ⟨hmem, rfl⟩ := mem_eventsOf.mp he
      exact hclear e hmem hst

/-- In the day what is not taken stays. -/
theorem SimInv.settled_live (due : SimEvent.Ordering)
    (hk : k.auction = false)
    (hset : Settles Live ((s.session.books esi).orders k) c es)
    (hdue : s.session.ts ≤ (ofLex due).1)
    (hack : ∀ e ∈ es, ∀ a ∈ s.session.eventq, a.2.order = e.order →
      a.2.state = .acknowledged → a.1 < due)
    (hclear : ∀ e ∈ es, e.state = .cancelled →
      (s.view e.order).Clear due) :
    (s.settled esi k c due es).SimInv := by
  refine h.settled hset (fun o o' es hlive => ⟨fun _ => hlive, fun h => ?_⟩)
    hdue (fun w o ho => (h.views w).ledger.live esi k o ho hk) hack hclear
  rw [hk] at h
  cases h

/-- What no cancel has touched may still be cancelled. -/
theorem SimInv.clear_of_untouched {w : ω} (huntouched : s.Untouched due w)
    (hsent : w ∈ s.trading.sent) (htaken : taken s.delivered w = 0) :
    (s.view w).Clear due where
  state := by
    rcases (h.views w).manager.quiet hsent htaken with hst | hst
    · exact hst
    · exact absurd hst huntouched.state
  cancelled := View.count_eq_zero.mpr fun q hq =>
    huntouched.cancelled q (mem_events.mp hq).1 (mem_events.mp hq).2
  rejected q hq := huntouched.rejected q (mem_events.mp hq).1
    (mem_events.mp hq).2

/-- An order that waits for an auction, untouched, is whole. -/
theorem SimInv.whole (hk : k.auction = true) {w : ω}
    (huntouched : s.Untouched due w) {o : SimOrder ω}
    (ho : o ∈ (s.view w).entries esi k) :
    (s.view w).spent = 0 ∧ o.remains = (s.order w).size :=
  (h.views w).ledger.waiting esi k o ho hk
    (View.count_eq_zero.mpr fun q hq => huntouched.cancelled q
      (mem_events.mp hq).1 (mem_events.mp hq).2)
    huntouched.cancelledSize

/-- An auction settles orders that were not touched before. -/
theorem SimInv.settled_dead (hk : k.auction = true)
    (hset : Settles Dead ((s.session.books esi).orders k) c es)
    (hdue : s.session.ts ≤ (ofLex due).1)
    (hack : ∀ e ∈ es, ∀ a ∈ s.session.eventq, a.2.order = e.order →
      a.2.state = .acknowledged → a.1 < due)
    (huntouched : ∀ y ∈ (s.session.books esi).orders k,
      s.Untouched due y.2.order) :
    (s.settled esi k c due es).SimInv := by
  have hone : ∀ {w o}, o ∈ (s.view w).entries esi k →
      s.Untouched due w := by
    intro w o ho
    obtain ⟨⟨p, hmem⟩, rfl⟩ := mem_entries.mp ho
    exact huntouched (p, o) hmem
  refine h.settled hset (fun o o' es hdead => ⟨fun h => ?_, fun _ => hdead⟩)
    hdue (fun w o ho => ?_) hack (fun e he _ => ?_)
  · rw [hk] at h
    cases h
  · obtain ⟨hzero, hwhole⟩ := h.whole hk (hone ho) ho
    omega
  · have hmine : e ∈ eventsOf es e.order := mem_eventsOf.mpr ⟨he, rfl⟩
    have horder := hset.order ((h.views e.order).ledger.once esi k)
    rcases View.entry_of_event (v := s.view e.order) horder with
      hnil | ⟨o, ho, -⟩
    · rw [hnil] at hmine
      cases hmine
    · have hmem : o ∈ (s.view e.order).entries esi k :=
        ho ▸ List.mem_singleton_self o
      have hzero := (h.whole hk (hone hmem) hmem).1
      refine h.clear_of_untouched (hone hmem) ?_ ?_
      · exact (h.views e.order).stages.entrySent esi k
          (List.ne_nil_of_mem hmem)
      · exact (Nat.add_eq_zero_iff.mp hzero).1

end Settled

-- ================================================================ same orders

/-- A session that differs in nothing that the invariant reads. -/
structure SameOrders (ss ss' : L2SimSession ω ι) : Prop where
  ts : ss'.ts = ss.ts
  ackLatency : ss'.ackLatency = ss.ackLatency
  eventq : ss'.eventq = ss.eventq
  orders : ss'.orders = ss.orders
  books : ∀ esi k, (ss'.books esi).orders k = (ss.books esi).orders k

/-- A change that no order sees keeps the invariant. -/
theorem SimInv.same {s : L2Sim ω ι} (h : s.SimInv)
    {ss : L2SimSession ω ι} (hsame : SameOrders s.session ss) :
    (s.withSession ss).SimInv := by
  refine ⟨?_, ?_, fun w => ?_, h.conserves.withSession⟩
  · exact h.clock.withSession hsame.ts hsame.ackLatency
      fun q hq => .inl (hsame.eventq ▸ hq)
  · exact h.records.withSession hsame.orders
      fun q hq _ => hsame.eventq.symm ▸ hq
  · have hview : (s.withSession ss).view w = s.view w := by
      unfold view
      congr 1
      · show ss.eventq.filter _ = _
        rw [hsame.eventq]
      · funext esi k
        show entriesOf ((ss.books esi).orders k) w = _
        rw [hsame.books]
    rw [hview]
    exact h.views w

end L2Sim

end TradingEngine.OE
