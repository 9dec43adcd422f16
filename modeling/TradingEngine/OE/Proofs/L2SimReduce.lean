/-
Whether cancels and reductions of a resting order are exact.

# Where it goes wrong

`reduce_helper` takes the new quantity for the amount to be cancelled, so
that what rests is the right size only if that is half of what rested. And
where the order is to go it erases the entry and then returns what the entry
says. A request that comes while the order is not in a state to be
cancelled, as after a partial cancel, is rejected although the order rests
(`cancel_exact_iff`).

# A request

A request for less than rests is served by taking its own size off what
remains, so what is left is right if that is half of it; a request for
nothing takes all and reads the entry after it is erased. Every other request
is rejected, without a change. Each of these is one lemma, for an order that
rests at its place (`Placed`), which it does in every run; so the result is
for all states that a run can reach.
-/
import TradingEngine.OE.L2SimDetail
import TradingEngine.OE.Proofs.L2SimPlaces

namespace TradingEngine.OE

variable {ω ι : Type}

namespace OrderContainer

variable {c : OrderContainer ω} {k : Container} {price : Rat}

/-- An entry that is erased is not there. -/
theorem find_erased (h : Sorted k c) :
    (c.updateAt price fun _ => none).find price = none := by
  cases hfind : (c.updateAt price fun _ => none).find price with
  | none => rfl
  | some o =>
      exfalso
      have hmem := mem_of_find hfind
      clear hfind
      unfold Sorted at h
      induction c with
      | nil => cases hmem
      | cons x c ih =>
          obtain ⟨p, o'⟩ := x
          obtain ⟨hfirst, hrest⟩ := List.pairwise_cons.mp h
          unfold updateAt at hmem
          split at hmem
          case isTrue hp =>
            subst hp
            have hbefore := hfirst _ (mem_keys.mpr ⟨o, hmem, rfl⟩)
            rw [Container.not_before_self] at hbefore
            cases hbefore
          case isFalse hp =>
            rcases List.mem_cons.mp hmem with heq | hmem
            · exact hp (congrArg Prod.fst heq).symm
            · exact ih hrest hmem

/-- An entry that is changed is there, changed. -/
theorem find_changed {o : SimOrder ω} (hfind : c.find price = some o)
    (f : SimOrder ω → SimOrder ω) :
    (c.updateAt price fun o => some (f o)).find price = some (f o) := by
  unfold find at hfind ⊢
  induction c with
  | nil => cases hfind
  | cons x c ih =>
      obtain ⟨p, o'⟩ := x
      unfold updateAt
      by_cases hp : p = price
      · subst hp
        simp only [List.lookup_cons_self, Option.some.injEq] at hfind
        simp [hfind]
      · have hne : (price == p) = false := beq_false_of_ne (Ne.symm hp)
        rw [List.lookup_cons, hne] at hfind
        rw [if_neg hp, List.lookup_cons, hne]
        exact ih hfind

end OrderContainer

-- ============================================================= reduce_helper

namespace L2SimSession

variable [DecidableEq ω] {c : OrderContainer ω} {k : Container} {price : Rat}
  {w : ω} {n : Nat}

/-- What `reduce_helper` leaves, and what it returns if it returns
anything. -/
theorem reduceThrough_spec (h : Sorted k c) (price : Rat) (w : ω) (n : Nat) :
    (reduceThrough c price w n).2 = (reduceHelper c price w n).2
    ∧ ∀ amount, (reduceThrough c price w n).1 = some amount →
      (reduceHelper c price w n).1 = amount := by
  unfold reduceThrough reduceHelper readRemains
  cases c.find price with
  | none => simp
  | some simo =>
      dsimp only
      split
      · split
        · -- erased, and nothing is read
          rw [OrderContainer.find_erased h]
          exact ⟨rfl, nofun⟩
        · split <;> simp
      · simp

variable {simo : SimOrder ω}

/-- What a request for less than rests comes to: its own size is taken off
what remains, or all if it is for nothing. -/
theorem reduceHelper_found (hfind : c.find price = some simo)
    (horder : simo.order = w) (hless : n < simo.remains) :
    reduceHelper c price w n =
      if n = 0 then (simo.remains, c.updateAt price fun _ => none)
      else (n, c.updateAt price fun o =>
        some { o with remains := o.remains - n }) := by
  unfold reduceHelper
  rw [hfind]
  dsimp only
  rw [if_pos horder]
  by_cases hn : n = 0
  · rw [if_pos (.inl hn), if_pos hn]
  · have hother : ¬ (n = 0 ∨ simo.remains = n) := by omega
    rw [if_neg hother, if_pos hless, if_neg hn]

/-- The erased entry is read where nothing is to be left. -/
theorem reduceThrough_found (h : Sorted k c)
    (hfind : c.find price = some simo) (horder : simo.order = w)
    (hless : n < simo.remains) :
    (reduceThrough c price w n).1.isNone = decide (n = 0) := by
  unfold reduceThrough readRemains
  rw [hfind]
  dsimp only
  rw [if_pos horder]
  by_cases hn : n = 0
  · rw [if_pos (.inl hn), OrderContainer.find_erased h]
    simp [hn]
  · have hother : ¬ (n = 0 ∨ simo.remains = n) := by omega
    rw [if_neg hother, if_pos hless]
    simp [hn]

end L2SimSession

namespace L2Sim

open L2SimSession (cancelable place placePrice reduceHelper
  reduceHelper_found reduceThrough_found restingContainer)

variable [DecidableEq ω] [DecidableEq ι]

-- ================================================================ statements

/-- How `OrderManager::cancel` ends. -/
def cancelResult (s : L2Sim ω ι) (w : ω) (newqty : Nat) :
    OrderManager.CancelResult :=
  (s.trading.om.cancel w newqty
    ⟨s.session.acceptsCancel (s.order w) newqty,
      .ofNanos s.session.ts⟩).1

/-- A request is served exactly, of an order of which this much rests at a
price of a book. -/
structure CancelsExactly (s : L2Sim ω ι) (i : Nat) (se : SimEvent ω)
    (esi : Nat) (k : Container) (p : Rat) (remains : Nat)
    (s' : L2Sim ω ι) : Prop where
  enqueued : ∃ due e,
    s'.session.eventq = s.session.eventq.eraseIdx i ++ [(due, e)]
      ∧ e.state = .cancelled ∧ e.order = se.order
      ∧ e.size = remains - se.size
  gone : se.size = 0 → ∀ esi k p, (p, se.order) ∉ s'.session.held esi k
  rests : se.size ≠ 0 → ∃ o, (p, o) ∈ (s'.session.books esi).orders k
    ∧ o.order = se.order ∧ o.remains = se.size
  /-- No erased entry is read. -/
  unread : s.session.readsErased s.order se = false
  /-- The rest can be cancelled too. -/
  later : se.size ≠ 0 → s'.cancelResult se.order 0 = .requested
    ∨ s'.cancelResult se.order 0 = .alreadyPending

/-- The condition: the order is on record and open, in a state to be
cancelled, in the book that the request is for, and half of it is to
rest. -/
structure Halves (s : L2Sim ω ι) (se : SimEvent ω) (esi remains : Nat) :
    Prop where
  book : se.esi = esi
  recorded : s.session.orders (s.order se.order).localID = some se.order
  cancelable : cancelable (s.order se.order).state = true
  open_ : (s.order se.order).isTerminal = false
  size : se.size ≠ 0
  half : remains = 2 * se.size

instance (s : L2Sim ω ι) (se : SimEvent ω) (esi remains : Nat) :
    Decidable (s.Halves se esi remains) :=
  decidable_of_iff (se.esi = esi
    ∧ s.session.orders (s.order se.order).localID = some se.order
    ∧ cancelable (s.order se.order).state = true
    ∧ (s.order se.order).isTerminal = false ∧ se.size ≠ 0
    ∧ remains = 2 * se.size)
    ⟨fun h => ⟨h.1, h.2.1, h.2.2.1, h.2.2.2.1, h.2.2.2.2.1, h.2.2.2.2.2⟩,
      fun h => ⟨h.book, h.recorded, h.cancelable, h.open_, h.size, h.half⟩⟩

-- ================================================================ a request

omit [DecidableEq ι] in
/-- A cancel of all that is left is taken as long as the order is open,
unless one is out already. -/
theorem Placed.cancelResult_iff {s : L2Sim ω ι}
    (h : s.Placed) {w : ω} (hw : w ∈ s.trading.sent) :
    (s.cancelResult w 0 = .requested ∨ s.cancelResult w 0 = .alreadyPending)
      ↔ (s.order w).isTerminal = false := by
  have hsession : (s.trading.om.order w).session ≠ none :=
    h.numbered.session w hw
  have haccepts : s.session.acceptsCancel (s.order w) 0 = true := by
    unfold L2SimSession.acceptsCancel
    have hsize : 0 < (s.order w).size := h.numbered.sized w hw
    rw [h.known w hw, decide_eq_true hsize]
    rfl
  unfold cancelResult OrderManager.cancel
  dsimp only
  rw [if_neg hsession, haccepts]
  change _ ↔ (s.trading.om.order w).isTerminal = false
  cases (s.trading.om.order w).isTerminal with
  | true => simp
  | false =>
      simp only [Bool.false_eq_true, if_false, if_true, iff_true]
      split
      · exact .inr rfl
      · exact .inl rfl

/-- A turn that serves a cancel request. -/
theorem turn_request (s : L2Sim ω ι) {i : Nat}
    {q : SimEvent.Ordering × SimEvent ω}
    (hq : s.session.eventq[i]? = some q) (hst : q.2.state = .pendingCancel)
    (view : BookView) :
    s.turn i view = (s.popped i q.1).withSession
      ((s.popped i q.1).session.onOrderPendingCancel s.order (ofLex q.1).1
        q.2) := by
  rw [turn_eq s hq]
  unfold serve
  rw [hst]
  rfl

section Request

variable {s : L2Sim ω ι} (h : s.Placed) {i : Nat}
  {q : SimEvent.Ordering × SimEvent ω}
  (hq : s.session.eventq[i]? = some q) (hst : q.2.state = .pendingCancel)
  {esi : Nat} {k : Container} {p : Rat} {simo : SimOrder ω}
  (hk : k.auction = false) (hmem : (p, simo) ∈ (s.session.books esi).orders k)
  (horder : simo.order = q.2.order)

include hmem horder

omit [DecidableEq ω] [DecidableEq ι] in
theorem held_order : (p, q.2.order) ∈ s.session.held esi k :=
  mem_keys.mpr ⟨simo, hmem, horder⟩

include h

omit [DecidableEq ω] [DecidableEq ι] in
include hk in
/-- An order of the day rests where it is looked for. -/
theorem Placed.rests_where :
    k = restingContainer (s.order q.2.order)
      ∧ p = (s.order q.2.order).price := by
  obtain ⟨hplace, hprice⟩ :=
    h.places.routed (held_order hmem horder)
  have hday : L2SimSession.isAuction (s.trading.om.order q.2.order)
      = false := by
    rw [← L2SimSession.place_auction, ← hplace, hk]
  unfold place at hplace
  unfold placePrice at hprice
  rw [hday] at hplace hprice
  exact ⟨hplace, hprice⟩

include hq hst in
/-- A request for another book, or of an order that is not on record or
cannot be cancelled, is rejected. -/
theorem Placed.request_rejected (view : BookView)
    (hnot : ¬ (q.2.esi = esi
      ∧ s.session.orders (s.order q.2.order).localID = some q.2.order
      ∧ cancelable (s.order q.2.order).state = true)) :
    ∃ due e, (s.turn i view).session.eventq
      = s.session.eventq.eraseIdx i ++ [(due, e)]
      ∧ e.state = .cancelRejected := by
  rw [turn_request s hq hst]
  by_cases hbook : q.2.esi = esi
  · -- not on record, or in another state
    have hdenied : ¬ (s.session.orders (s.order q.2.order).localID
          = some q.2.order
        ∧ cancelable (s.order q.2.order).state = true) :=
      fun hgranted => hnot ⟨hbook, hgranted⟩
    exact (h.popped (k := i) (q := q)).request_denied _ hdenied
  · -- in another book
    have hmissing : ∀ p k, (p, q.2.order) ∉ s.session.held q.2.esi k :=
      fun p k hin => hbook
        (h.places.apart hin (held_order hmem horder))
    exact (h.popped (k := i) (q := q)).request_missing _ fun p =>
      hmissing p _

variable (hless : q.2.size < simo.remains) (hbook : q.2.esi = esi)
  (hrec : s.session.orders (s.order q.2.order).localID = some q.2.order)
  (hcancelable : cancelable (s.order q.2.order).state = true)

include hk hless hbook hrec hcancelable

omit [DecidableEq ι] in
/-- A request that is granted reads an erased entry if nothing is to be
left. -/
theorem Placed.readsErased_eq :
    s.session.readsErased s.order q.2 = decide (q.2.size = 0) := by
  obtain ⟨rfl, rfl⟩ := h.rests_where hk hmem horder
  have hsorted := h.places.sorted esi (restingContainer (s.order q.2.order))
  unfold L2SimSession.readsErased
  rw [hrec]
  dsimp only
  rw [hcancelable, hbook, Bool.true_and]
  exact reduceThrough_found hsorted
    (OrderContainer.find_of_mem hsorted hmem) horder hless

include hq hst in
/-- And what it leaves. -/
theorem Placed.request_granted (view : BookView) (hsize : q.2.size ≠ 0) :
    (s.turn i view).session
      = ((s.popped i q.1).session.setOrders esi k
          (((s.session.books esi).orders k).updateAt p fun o =>
            some { o with remains := o.remains - q.2.size })).emplace
        (dueAt ((ofLex q.1).1 + s.session.cxlLatency) 0)
        ⟨.cancelled, q.2.order, esi, q.2.size, 0⟩ := by
  have hsorted := h.places.sorted esi k
  have hreduce := reduceHelper_found
    (OrderContainer.find_of_mem hsorted hmem) horder hless
  rw [if_neg hsize] at hreduce
  obtain ⟨rfl, rfl⟩ := h.rests_where hk hmem horder
  rw [turn_request s hq hst]
  unfold withSession L2SimSession.onOrderPendingCancel
  have hrec : (s.popped i q.1).session.orders
      (s.order q.2.order).localID = some q.2.order := hrec
  have hreduce : reduceHelper (((s.popped i q.1).session.books esi).orders
      (restingContainer (s.order q.2.order))) (s.order q.2.order).price
      q.2.order q.2.size = _ := hreduce
  dsimp only
  rw [hrec]
  dsimp only
  rw [if_pos hcancelable, hbook, hreduce, if_neg hsize]
  rfl

include hq hst

omit hless hbook hrec hcancelable in
/-- The result for one request. -/
theorem Placed.cancelsExactly_iff (hless : q.2.size < simo.remains)
    (view : BookView) :
    CancelsExactly s i q.2 esi k p simo.remains (s.turn i view)
      ↔ s.Halves q.2 esi simo.remains := by
  have hsent : q.2.order ∈ (s.turn i view).trading.sent := by
    rw [turn_request s hq hst]
    exact h.places.kept (held_order hmem horder)
  have horder' : (s.turn i view).order q.2.order = s.order q.2.order := by
    rw [turn_request s hq hst]
    rfl
  have hlater := (placed_step h (.turn i view)).cancelResult_iff hsent
  change _ ↔ ((s.turn i view).order q.2.order).isTerminal = false at hlater
  rw [horder'] at hlater
  constructor
  · intro hx
    obtain ⟨due, e, heventq, hstate, -, hamount⟩ := hx.enqueued
    by_cases hnot : q.2.esi = esi
      ∧ s.session.orders (s.order q.2.order).localID = some q.2.order
      ∧ cancelable (s.order q.2.order).state = true
    · obtain ⟨hbook, hrec, hcancelable⟩ := hnot
      have hread := h.readsErased_eq hk hmem horder hless hbook hrec
        hcancelable
      have hsize : q.2.size ≠ 0 := by
        rw [hx.unread] at hread
        exact of_decide_eq_false hread.symm
      refine ⟨hbook, hrec, hcancelable, hlater.mp (hx.later hsize), hsize,
        ?_⟩
      -- the amount is the size of the request
      rw [h.request_granted hq hst hk hmem horder hless hbook hrec
        hcancelable view hsize] at heventq
      have hlast := List.append_cancel_left heventq
      simp only [List.map_cons, List.map_nil, List.cons.injEq,
        Prod.mk.injEq, and_true] at hlast
      obtain ⟨-, rfl⟩ := hlast
      have hamount : q.2.size = simo.remains - q.2.size := hamount
      omega
    · -- rejected
      obtain ⟨due', e', heventq', hstate'⟩ :=
        h.request_rejected hq hst hmem horder view hnot
      rw [heventq'] at heventq
      have hlast := List.append_cancel_left heventq
      simp only [List.cons.injEq, Prod.mk.injEq, and_true] at hlast
      obtain ⟨-, rfl⟩ := hlast
      rw [hstate] at hstate'
      cases hstate'
  · rintro ⟨hbook, hrec, hcancelable, hopen, hsize, hhalf⟩
    have hgranted := h.request_granted hq hst hk hmem horder hless hbook
      hrec hcancelable view hsize
    refine ⟨?_, fun hzero => absurd hzero hsize, fun _ => ?_, ?_,
      fun _ => hlater.mpr hopen⟩
    · rw [hgranted]
      exact ⟨_, _, rfl, rfl, rfl, by dsimp only; omega⟩
    · refine ⟨{ simo with remains := simo.remains - q.2.size }, ?_, horder,
        by dsimp only; omega⟩
      have hfind := OrderContainer.find_changed
        (OrderContainer.find_of_mem (h.places.sorted esi k) hmem)
        fun o => { o with remains := o.remains - q.2.size }
      rw [hgranted]
      show _ ∈ (L2SimSession.books _ esi).orders k
      unfold L2SimSession.emplace L2SimSession.emplaceAll
      rw [orders_setOrders, if_pos ⟨rfl, rfl⟩]
      exact OrderContainer.mem_of_find hfind
    · rw [h.readsErased_eq hk hmem horder hless hbook hrec hcancelable]
      exact decide_eq_false hsize

end Request

/-- In every run, a cancel request of a resting order is served exactly if
and only if the order is in a state to be cancelled and half of it is to
rest. -/
theorem cancel_exact_iff (c : OrderManagerConf ω ι) (name : Bytes)
    (mic : SimMarket) (ackLatency cxlLatency : Nat)
    (imbalanceOnly : ω → Bool) (is : List (Input ω ι)) {s : L2Sim ω ι}
    (hs : s = Lib.run step (start c (.create name mic ackLatency cxlLatency
      imbalanceOnly)) is)
    {i : Nat} {q : SimEvent.Ordering × SimEvent ω}
    (hq : s.session.eventq[i]? = some q) (hst : q.2.state = .pendingCancel)
    {esi : Nat} {k : Container} {p : Rat} {simo : SimOrder ω}
    (hk : k.auction = false)
    (hmem : (p, simo) ∈ (s.session.books esi).orders k)
    (horder : simo.order = q.2.order) (hless : q.2.size < simo.remains)
    (view : BookView) :
    CancelsExactly s i q.2 esi k p simo.remains (s.turn i view)
      ↔ s.Halves q.2 esi simo.remains := by
  subst hs
  exact (placed_run c name mic ackLatency cxlLatency imbalanceOnly
    is).cancelsExactly_iff hq hst hk hmem horder hless view

-- ====================================================================== demos

/-- Ten are bid for, and all but this many are to be cancelled. -/
def demoCancel (newqty : Nat) : L2Sim Nat Nat :=
  Lib.run step (start (.plain fun _ : Nat => demoParams 10 .limit)
      (.create [66] .xnas 1 1 fun _ => false))
    (demoSend ++ [.turn 0 noOffer, .turn 0 noOffer, .endOfUpdate,
      .cancel 0 newqty, .startOfData 20])

/-- Five of ten. -/
theorem cancel_exact_iff_demo :
    CancelsExactly (demoCancel 5) 0 ⟨.pendingCancel, 0, 0, 5, 0⟩ 0 .bids 10
        10 ((demoCancel 5).turn 0 noOffer)
      ↔ (demoCancel 5).Halves ⟨.pendingCancel, 0, 0, 5, 0⟩ 0 10 := by
  have hmem : (10, ⟨0, 0, 0, 10⟩)
      ∈ ((demoCancel 5).session.books 0).orders .bids := by
    decide +kernel
  have hq : (demoCancel 5).session.eventq[0]?
      = some (dueAt 11 0, ⟨.pendingCancel, 0, 0, 5, 0⟩) := by
    decide +kernel
  exact cancel_exact_iff (.plain fun _ : Nat => demoParams 10 .limit) [66]
    .xnas 1 1 (fun _ => false) _ rfl hq rfl rfl hmem rfl (by decide) noOffer

/-- Ten are bid for, and the order manager takes a cancel that is to leave
four. Four are cancelled. -/
theorem cancel_of_six_takes_four :
    ¬ ∀ (is : List (Input Nat Nat)) (s : L2Sim Nat Nat) (i : Nat)
      (q : SimEvent.Ordering × SimEvent Nat) (esi : Nat) (k : Container)
      (p : Rat) (simo : SimOrder Nat) (view : BookView),
      Lib.Admits step Possible (start (.plain fun _ => demoParams 10 .limit)
        (.create [66] .xnas 1 1 fun _ => false)) is →
      s = Lib.run step (start (.plain fun _ => demoParams 10 .limit)
        (.create [66] .xnas 1 1 fun _ => false)) is →
      s.session.eventq[i]? = some q → q.2.state = .pendingCancel →
      k.auction = false → (p, simo) ∈ (s.session.books esi).orders k →
      simo.order = q.2.order → q.2.size < simo.remains →
      CancelsExactly s i q.2 esi k p simo.remains (s.turn i view) := by
  intro h
  have hx := h (demoSend ++ [.turn 0 noOffer, .turn 0 noOffer, .endOfUpdate,
      .cancel 0 4, .startOfData 20]) (demoCancel 4) 0
    (dueAt 11 0, ⟨.pendingCancel, 0, 0, 4, 0⟩) 0 .bids 10 ⟨0, 0, 0, 10⟩
    noOffer (by decide +kernel) rfl (by decide +kernel) rfl rfl
    (by decide +kernel) rfl (by decide)
  obtain ⟨due, e, heventq, -, -, hsize⟩ := hx.enqueued
  have hfour : ((demoCancel 4).turn 0 noOffer).session.eventq
      = [(dueAt 12 0, ⟨.cancelled, 0, 0, 4, 0⟩)] := by
    decide +kernel
  have hempty : (demoCancel 4).session.eventq.eraseIdx 0 = [] := by
    decide +kernel
  rw [hfour, hempty] at heventq
  simp only [List.nil_append, List.cons.injEq, Prod.mk.injEq,
    and_true] at heventq
  obtain ⟨-, rfl⟩ := heventq
  cases hsize

end L2Sim

end TradingEngine.OE
