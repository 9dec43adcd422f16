/-
What the simulated exchange holds of one order, as a state machine of its
own.

# The view

The events of the order in the queue, its entries, and what the order
manager has of it. Everything the simulation does touches the view of one
order at a time, but for market data, which settles a whole container.

# The invariant

What the queue holds for the order and what its entry still has adds up
with what was reported to no more than its size (`Ledger`). What the queue
may hold is told by how far the order has come (`Stages`): before the
acknowledgment nothing but fills and cancels that are due later, so that
nothing that is due first can come too early. The order's own state says
what was reported (`Manager`).
-/
import TradingEngine.OE.Proofs.L2SimBooks
import Mathlib.Algebra.Order.BigOperators.Group.List

namespace TradingEngine.OE

variable {ω ι : Type}

structure View (ω ι : Type) where
  order : Order ι
  sent : Prop
  acked : Prop
  /-- What was reported as filled or cancelled. -/
  taken : Nat
  events : List (SimEvent.Ordering × SimEvent ω)
  entries : Nat → Container → List (SimOrder ω)

namespace View

open L2SimSession (stateCode)

section Predicates

variable (v : View ω ι)

/-- How many of the events are of the state. -/
def count (st : OrderState) : Nat := countOf st (v.events.map Prod.snd)

/-- What is taken of the order, reported or in the queue. -/
def spent : Nat := v.taken + sizes (v.events.map Prod.snd)

/-- The order is in no container. -/
def Absent : Prop := ∀ esi k, v.entries esi k = []

/-- The states in which `on_order_cancelled` expects an order. -/
def cancelledExpects (st : OrderState) : Prop :=
  st = .sent ∨ st = .acknowledged ∨ st = .partiallyFilled
    ∨ st = .pendingCancel

/-- Nothing stands against a `CANCELLED` that is due then. -/
structure Clear (due : SimEvent.Ordering) : Prop where
  state : cancelledExpects v.order.state
  cancelled : v.count .cancelled = 0
  rejected : ∀ r ∈ v.events, r.2.state = .cancelRejected → due < r.1

-- ================================================================= invariant

/-- Sizes add up. An order in an auction container is whole until it is
cancelled. -/
structure Ledger : Prop where
  positive : ∀ q ∈ v.events, q.2.state = .filled ∨ q.2.state = .cancelled →
    0 < q.2.size
  spent_le : v.spent ≤ v.order.size
  booked : v.order.filledSize + v.order.cancelledSize = v.taken
  remains : ∀ esi k, ∀ o ∈ v.entries esi k, 0 < o.remains
  live : ∀ esi k, ∀ o ∈ v.entries esi k, k.auction = false →
    v.spent + o.remains ≤ v.order.size
  waiting : ∀ esi k, ∀ o ∈ v.entries esi k, k.auction = true →
    v.count .cancelled = 0 → v.order.cancelledSize = 0 →
    v.spent = 0 ∧ o.remains = v.order.size
  once : ∀ esi k, (v.entries esi k).length ≤ 1
  apart : ∀ esi k esi' k', v.entries esi k ≠ [] → v.entries esi' k' ≠ [] →
    esi = esi' ∧ k = k'

/-- What the queue and the containers hold, by how far the order has
come. -/
structure Stages : Prop where
  sent : v.events ≠ [] → v.sent
  entrySent : ∀ esi k, v.entries esi k ≠ [] → v.sent
  -- on its way
  travelling : ∀ q ∈ v.events, q.2.state = .sent →
    v.events = [q] ∧ v.Absent ∧ ¬ v.acked ∧ v.taken = 0
  -- arrived
  acking : ∀ a ∈ v.events, a.2.state = .acknowledged →
    (∀ q ∈ v.events, q.2.state = .acknowledged
      ∨ (q.2.state = .filled ∨ q.2.state = .cancelled) ∧ a.1 < q.1)
    ∧ ¬ v.acked ∧ v.taken = 0
  ackingOnce : v.count .acknowledged ≤ 1
  filled : 0 < v.count .filled → v.acked ∨ 0 < v.count .acknowledged
  entry : ∀ esi k, v.entries esi k ≠ [] →
    v.acked ∨ 0 < v.count .acknowledged
  requested : ∀ q ∈ v.events,
    q.2.state = .pendingCancel ∨ q.2.state = .cancelRejected → v.acked
  -- cancelled
  cancelledOnce : v.count .cancelled ≤ 1
  cancelled : ∀ q ∈ v.events, q.2.state = .cancelled →
    cancelledExpects v.order.state
    ∧ ∀ r ∈ v.events, r.2.state = .cancelRejected → q.1 < r.1

/-- What the order manager has of it. -/
structure Manager : Prop where
  sized : v.sent → 0 < v.order.size
  ackedSent : v.acked → v.sent
  unsent : ¬ v.sent → v.taken = 0
  unacked : ¬ v.acked → v.order.openSize = 0
  acked : v.acked → stateCode .acknowledged ≤ stateCode v.order.state
  quiet : v.sent → v.taken = 0 →
    cancelledExpects v.order.state ∨ v.order.state = .cancelRejected
  untaken : v.sent → ¬ v.acked → v.taken = 0 → v.order.state = .sent
  states : v.sent → v.order.state ≠ .newAndUnsent
    ∧ v.order.state ≠ .cancelReplaced
    ∧ v.order.state ≠ .pendingCancelReplace

structure Inv : Prop where
  ledger : v.Ledger
  stages : v.Stages
  manager : v.Manager

end Predicates

variable {v v' : View ω ι}

-- =================================================================== the same

/-- The same, but for the places of things in queue and containers. -/
structure Same (v v' : View ω ι) : Prop where
  order : v'.order = v.order
  sent : v'.sent ↔ v.sent
  acked : v'.acked ↔ v.acked
  taken : v'.taken = v.taken
  events : v'.events.Perm v.events
  entries : ∀ esi k, (v'.entries esi k).Perm (v.entries esi k)

/-- A view that is not touched. -/
theorem Same.refl (v : View ω ι) : Same v v :=
  ⟨rfl, .rfl, .rfl, rfl, .refl _, fun _ _ => .refl _⟩

/-- Over several changes that do not touch it. -/
theorem Same.trans {v'' : View ω ι} (h : Same v v') (h' : Same v' v'') :
    Same v v'' where
  order := h'.order.trans h.order
  sent := h'.sent.trans h.sent
  acked := h'.acked.trans h.acked
  taken := h'.taken.trans h.taken
  events := h'.events.trans h.events
  entries esi k := (h'.entries esi k).trans (h.entries esi k)

/-- The queue holds as many events of each kind. -/
theorem Same.count_eq (h : Same v v') (st : OrderState) :
    v'.count st = v.count st := (h.events.map _).countP_eq _

/-- And as much. -/
theorem Same.spent_eq (h : Same v v') : v'.spent = v.spent := by
  unfold spent
  rw [h.taken, sizes_perm (h.events.map _)]

/-- An entry is there as before. -/
theorem Same.nil_iff (h : Same v v') (esi : Nat) (k : Container) :
    v'.entries esi k = [] ↔ v.entries esi k = [] := by
  constructor
  · intro hnil
    exact (hnil ▸ h.entries esi k).nil_eq.symm
  · intro hnil
    exact (hnil ▸ h.entries esi k).eq_nil

/-- The ledger depends on the view alone. -/
theorem Ledger.of_same (hv : v.Ledger) (h : Same v v') : v'.Ledger where
  positive q hq := hv.positive q (h.events.subset hq)
  spent_le := by
    rw [h.spent_eq, h.order]
    exact hv.spent_le
  booked := by
    rw [h.order, h.taken]
    exact hv.booked
  remains esi k o ho := hv.remains esi k o ((h.entries esi k).subset ho)
  live esi k o ho hk := by
    rw [h.spent_eq, h.order]
    exact hv.live esi k o ((h.entries esi k).subset ho) hk
  waiting esi k o ho hk := by
    rw [h.spent_eq, h.order, h.count_eq]
    exact hv.waiting esi k o ((h.entries esi k).subset ho) hk
  once esi k := by
    rw [(h.entries esi k).length_eq]
    exact hv.once esi k
  apart esi k esi' k' hne hne' := hv.apart esi k esi' k'
    (mt (h.nil_iff esi k).mpr hne) (mt (h.nil_iff esi' k').mpr hne')

/-- So do the stages. -/
theorem Stages.of_same (hv : v.Stages) (h : Same v v') : v'.Stages where
  sent hne := h.sent.mpr (hv.sent fun hnil =>
    hne (hnil ▸ h.events).eq_nil)
  entrySent esi k hne :=
    h.sent.mpr (hv.entrySent esi k (mt (h.nil_iff esi k).mpr hne))
  travelling q hq hstate := by
    obtain ⟨hone, habsent, hacked, htaken⟩ :=
      hv.travelling q (h.events.subset hq) hstate
    exact ⟨(hone ▸ h.events).eq_singleton,
      fun esi k => (h.nil_iff esi k).mpr (habsent esi k),
      mt h.acked.mp hacked, h.taken.trans htaken⟩
  acking a ha hstate := by
    obtain ⟨hall, hacked, htaken⟩ :=
      hv.acking a (h.events.subset ha) hstate
    exact ⟨fun q hq => hall q (h.events.subset hq), mt h.acked.mp hacked,
      h.taken.trans htaken⟩
  ackingOnce := by
    rw [h.count_eq]
    exact hv.ackingOnce
  filled := by
    rw [h.count_eq, h.count_eq, h.acked]
    exact hv.filled
  entry esi k hne := by
    rw [h.count_eq, h.acked]
    exact hv.entry esi k (mt (h.nil_iff esi k).mpr hne)
  requested q hq hstate :=
    h.acked.mpr (hv.requested q (h.events.subset hq) hstate)
  cancelledOnce := by
    rw [h.count_eq]
    exact hv.cancelledOnce
  cancelled q hq hstate := by
    rw [h.order]
    obtain ⟨hexpects, hbefore⟩ :=
      hv.cancelled q (h.events.subset hq) hstate
    exact ⟨hexpects, fun r hr => hbefore r (h.events.subset hr)⟩

/-- And what the order manager has. -/
theorem Manager.of_same (hv : v.Manager) (h : Same v v') : v'.Manager := by
  refine ⟨?_, ?_, ?_, ?_, ?_, ?_, ?_, ?_⟩ <;>
    simp only [h.order, h.sent, h.acked, h.taken]
  · exact hv.sized
  · exact hv.ackedSent
  · exact hv.unsent
  · exact hv.unacked
  · exact hv.acked
  · exact hv.quiet
  · exact hv.untaken
  · exact hv.states

/-- So the invariant does. -/
theorem Inv.of_same (hv : v.Inv) (h : Same v v') : v'.Inv :=
  ⟨hv.ledger.of_same h, hv.stages.of_same h, hv.manager.of_same h⟩

-- ================================================================== the queue

/-- With one more event. -/
def push (v : View ω ι) (q : SimEvent.Ordering × SimEvent ω) : View ω ι :=
  { v with events := q :: v.events }

/-- After the order manager changed the order. -/
def withOrder (v : View ω ι) (o : Order ι) : View ω ι :=
  { v with order := o }

/-- After so much was reported. -/
def report (v : View ω ι) (o : Order ι) (size : Nat) : View ω ι :=
  { v with order := o, taken := v.taken + size }

/-- After the acknowledgment. -/
def acknowledge (v : View ω ι) (o : Order ι) : View ω ι :=
  { v with order := o, acked := True }

section Push

variable {q : SimEvent.Ordering × SimEvent ω}

/-- One event more in the queue. -/
theorem count_push (st : OrderState) :
    (v.push q).count st = v.count st + if q.2.state = st then 1 else 0 :=
  countOf_cons ..

/-- It is of one kind only. -/
theorem count_push_of_ne {st : OrderState} (h : q.2.state ≠ st) :
    (v.push q).count st = v.count st := by
  rw [count_push, if_neg h]
  rfl

/-- And holds what it takes. -/
theorem spent_push : (v.push q).spent = v.spent + q.2.takes := by
  show v.taken + (q.2.takes + sizes (v.events.map Prod.snd)) = _
  unfold spent
  omega

/-- None of a kind in the queue. -/
theorem count_eq_zero {st : OrderState} :
    v.count st = 0 ↔ ∀ q ∈ v.events, q.2.state ≠ st := by
  unfold count
  rw [countOf_eq_zero]
  exact List.forall_mem_map

/-- Some of a kind in the queue. -/
theorem count_pos {st : OrderState} :
    0 < v.count st ↔ ∃ q ∈ v.events, q.2.state = st := by
  unfold count
  rw [countOf_pos]
  constructor
  · rintro ⟨e, he, hst⟩
    obtain ⟨q, hq, rfl⟩ := List.mem_map.mp he
    exact ⟨q, hq, hst⟩
  · rintro ⟨q, hq, hst⟩
    exact ⟨q.2, List.mem_map_of_mem hq, hst⟩

/-- A request of the strategy, or its refusal. -/
def IsRequest (st : OrderState) : Prop :=
  st = .pendingCancel ∨ st = .cancelRejected

/-- A request takes nothing. -/
theorem takes_request (h : IsRequest q.2.state) : q.2.takes = 0 := by
  unfold SimEvent.takes
  rcases h with h | h <;> rw [h] <;> rfl

/-- Of an order that is acknowledged, nothing is on its way, and no
acknowledgment. -/
theorem Inv.of_acked (hv : v.Inv) (hacked : v.acked)
    (hq : q ∈ v.events) :
    q.2.state ≠ .sent ∧ q.2.state ≠ .acknowledged :=
  ⟨fun h => (hv.stages.travelling q hq h).2.2.1 hacked,
    fun h => (hv.stages.acking q hq h).2.1 hacked⟩

/-- A request is in the queue, or a refusal, which comes after a
`CANCELLED` that is in the queue. -/
theorem Inv.push_request (hv : v.Inv) (hacked : v.acked)
    (hstate : IsRequest q.2.state)
    (hafter : q.2.state = .cancelRejected →
      ∀ c ∈ v.events, c.2.state = .cancelled → c.1 < q.1) :
    (v.push q).Inv := by
  have hcount : ∀ st, ¬ IsRequest st → (v.push q).count st = v.count st :=
    fun st hst => count_push_of_ne fun h => hst (h ▸ hstate)
  have hspent : (v.push q).spent = v.spent := by
    rw [spent_push, takes_request hstate]
    rfl
  refine ⟨?_, ?_, { hv.manager with }⟩
  case refine_1 =>
    refine { hv.ledger with
      positive := ?_, spent_le := ?_, live := ?_, waiting := ?_ }
    · intro q' hq' hkind
      rcases List.mem_cons.mp hq' with rfl | hq'
      · rcases hstate with h | h <;> rw [h] at hkind <;>
          rcases hkind with hkind | hkind <;> cases hkind
      · exact hv.ledger.positive q' hq' hkind
    · rw [hspent]
      exact hv.ledger.spent_le
    · rw [hspent]
      exact hv.ledger.live
    · rw [hspent, hcount .cancelled (by rintro (h | h) <;> cases h)]
      exact hv.ledger.waiting
  case refine_2 =>
    have hack := hcount .acknowledged (by rintro (h | h) <;> cases h)
    refine { hv.stages with
      sent := fun _ => hv.manager.ackedSent hacked
      travelling := ?_, acking := ?_, ackingOnce := ?_, filled := ?_
      entry := fun _ _ _ => .inl hacked
      requested := fun _ _ _ => hacked, cancelledOnce := ?_
      cancelled := ?_ }
    · intro q' hq' hsent
      rcases List.mem_cons.mp hq' with rfl | hq'
      · rcases hstate with h | h <;> rw [h] at hsent <;> cases hsent
      · exact absurd hsent (hv.of_acked hacked hq').1
    · intro a ha hst
      rcases List.mem_cons.mp ha with rfl | ha
      · rcases hstate with h | h <;> rw [h] at hst <;> cases hst
      · exact absurd hst (hv.of_acked hacked ha).2
    · rw [hack]
      exact hv.stages.ackingOnce
    · exact fun _ => .inl hacked
    · rw [hcount .cancelled (by rintro (h | h) <;> cases h)]
      exact hv.stages.cancelledOnce
    · intro c hc hst
      rcases List.mem_cons.mp hc with rfl | hold
      · rcases hstate with h | h <;> rw [h] at hst <;> cases hst
      · obtain ⟨hexpects, hbefore⟩ := hv.stages.cancelled c hold hst
        refine ⟨hexpects, fun r hr hrst => ?_⟩
        rcases List.mem_cons.mp hr with rfl | hr
        · exact hafter hrst c hold hst
        · exact hbefore r hr hrst

/-- An event that reports nothing is taken out of the queue. -/
theorem Inv.pop (hv : (v.push q).Inv) (hack : q.2.state ≠ .acknowledged)
    (hfill : q.2.state ≠ .filled) (hcxl : q.2.state ≠ .cancelled) :
    v.Inv := by
  have hmem : ∀ q' ∈ v.events, q' ∈ (v.push q).events :=
    fun q' hq' => List.mem_cons_of_mem _ hq'
  have hspent : (v.push q).spent = v.spent := by
    have htakes : q.2.takes = 0 := if_neg fun h => h.elim hfill hcxl
    rw [spent_push, htakes]
    rfl
  refine ⟨?_, ?_, { hv.manager with }⟩
  case refine_1 =>
    refine { hv.ledger with
      positive := fun q' hq' => hv.ledger.positive q' (hmem q' hq')
      spent_le := ?_, live := ?_, waiting := ?_ }
    · rw [← hspent]
      exact hv.ledger.spent_le
    · rw [← hspent]
      exact hv.ledger.live
    · rw [← hspent, ← count_push_of_ne hcxl]
      exact hv.ledger.waiting
  case refine_2 =>
    refine ⟨fun _ => hv.stages.sent (List.cons_ne_nil _ _),
      hv.stages.entrySent, ?_, ?_, ?_, ?_, ?_, ?_, ?_, ?_⟩
    · intro q' hq' hsent
      have hone := (hv.stages.travelling q' (hmem q' hq') hsent).1
      rw [(List.cons.inj hone).2] at hq'
      cases hq'
    · intro a ha hst
      obtain ⟨hall, hrest⟩ := hv.stages.acking a (hmem a ha) hst
      exact ⟨fun q' hq' => hall q' (hmem q' hq'), hrest⟩
    · rw [← count_push_of_ne hack]
      exact hv.stages.ackingOnce
    · rw [← count_push_of_ne hack, ← count_push_of_ne hfill]
      exact hv.stages.filled
    · intro esi k hne
      rw [← count_push_of_ne hack]
      exact hv.stages.entry esi k hne
    · exact fun q' hq' => hv.stages.requested q' (hmem q' hq')
    · rw [← count_push_of_ne hcxl]
      exact hv.stages.cancelledOnce
    · intro c hc hst
      obtain ⟨hexpects, hbefore⟩ := hv.stages.cancelled c (hmem c hc) hst
      exact ⟨hexpects, fun r hr => hbefore r (hmem r hr)⟩

/-- The order manager has a cancel request out, or is told that one was
refused. -/
theorem Inv.withState (hv : v.Inv) (hacked : v.acked) {o : Order ι}
    (hsize : o.size = v.order.size)
    (hfilled : o.filledSize = v.order.filledSize)
    (hcancelled : o.cancelledSize = v.order.cancelledSize)
    (hstate : o.state = .pendingCancel
      ∨ o.state = .cancelRejected ∧ v.count .cancelled = 0) :
    (v.withOrder o).Inv := by
  refine ⟨?_, ?_, ?_⟩
  case refine_1 =>
    refine { hv.ledger with
      spent_le := ?_, booked := ?_, live := ?_, waiting := ?_ }
    · show v.spent ≤ o.size
      rw [hsize]
      exact hv.ledger.spent_le
    · show o.filledSize + o.cancelledSize = v.taken
      rw [hfilled, hcancelled]
      exact hv.ledger.booked
    · intro esi k o' ho' hk
      show v.spent + o'.remains ≤ o.size
      rw [hsize]
      exact hv.ledger.live esi k o' ho' hk
    · intro esi k o' ho' hk hcount hzero
      show v.spent = 0 ∧ o'.remains = o.size
      rw [hsize]
      exact hv.ledger.waiting esi k o' ho' hk hcount (hcancelled ▸ hzero)
  case refine_2 =>
    refine { hv.stages with cancelled := ?_ }
    intro c hc hst
    refine ⟨?_, (hv.stages.cancelled c hc hst).2⟩
    rcases hstate with h | ⟨-, hnone⟩
    · exact .inr (.inr (.inr h))
    · exact absurd hst (count_eq_zero.mp hnone c hc)
  case refine_3 =>
    refine { hv.manager with
      sized := ?_, unacked := absurd hacked, acked := ?_, quiet := ?_
      untaken := fun _ h => absurd hacked h, states := ?_ }
    · exact fun hsent => hsize ▸ hv.manager.sized hsent
    · intro _
      show _ ≤ stateCode o.state
      rcases hstate with h | ⟨h, -⟩ <;> rw [h] <;> decide
    · intro _ _
      rcases hstate with h | ⟨h, -⟩
      · exact .inl (.inr (.inr (.inr h)))
      · exact .inr h
    · intro _
      show o.state ≠ _ ∧ o.state ≠ _ ∧ o.state ≠ _
      rcases hstate with h | ⟨h, -⟩ <;> rw [h] <;> decide

-- ================================================================= deliveries

/-- An acknowledgment is delivered: the order was sent, and all that is due
later takes of it. -/
theorem Inv.acknowledged (hv : (v.push q).Inv)
    (hstate : q.2.state = .acknowledged) (exchangeID : Nat)
    (ts : Timestamp) (exts : Nat) :
    v.order.state = .sent
      ∧ (v.acknowledge (orderUpdateOnAck v.order exchangeID v.order.size ts
        exts)).Inv := by
  have hmem : ∀ q' ∈ v.events, q' ∈ (v.push q).events :=
    fun q' hq' => List.mem_cons_of_mem _ hq'
  have hsent : v.sent := hv.stages.sent (List.cons_ne_nil _ _)
  obtain ⟨hall, hunacked, htaken⟩ :=
    hv.stages.acking q List.mem_cons_self hstate
  have hnone : v.count .acknowledged = 0 := by
    have honce := hv.stages.ackingOnce
    rw [count_push, if_pos hstate] at honce
    omega
  have hkind : ∀ q' ∈ v.events,
      q'.2.state = .filled ∨ q'.2.state = .cancelled := by
    intro q' hq'
    rcases hall q' (hmem q' hq') with h | ⟨h, -⟩
    · exact absurd h (count_eq_zero.mp hnone q' hq')
    · exact h
  have hother : ∀ st, st ≠ .filled → st ≠ .cancelled → ∀ q' ∈ v.events,
      q'.2.state ≠ st := by
    intro st hf hc q' hq' h
    rcases hkind q' hq' with h' | h'
    · exact hf (h.symm.trans h')
    · exact hc (h.symm.trans h')
  have htakes : q.2.takes = 0 := by
    unfold SimEvent.takes
    rw [hstate]
    rfl
  have hspent : (v.push q).spent = v.spent := by
    rw [spent_push, htakes]
    rfl
  have hcancelled : (v.push q).count .cancelled = v.count .cancelled :=
    count_push_of_ne (by rw [hstate]; decide)
  refine ⟨hv.manager.untaken hsent hunacked htaken, ?_, ?_, ?_⟩
  case refine_1 =>
    refine { hv.ledger with
      positive := fun q' hq' => hv.ledger.positive q' (hmem q' hq')
      spent_le := ?_, live := ?_, waiting := ?_ }
    · exact hspent ▸ hv.ledger.spent_le
    · exact hspent ▸ hv.ledger.live
    · intro esi k o ho hk hcount
      exact hspent ▸ hv.ledger.waiting esi k o ho hk (hcancelled ▸ hcount)
  case refine_2 =>
    refine { hv.stages with
      sent := fun _ => hsent
      travelling := fun q' hq' h =>
        absurd h (hother .sent nofun nofun q' hq')
      acking := fun q' hq' h =>
        absurd h (hother .acknowledged nofun nofun q' hq')
      ackingOnce := hnone ▸ Nat.zero_le 1
      filled := fun _ => .inl trivial, entry := fun _ _ _ => .inl trivial
      requested := fun _ _ _ => trivial
      cancelledOnce := hcancelled ▸ hv.stages.cancelledOnce
      cancelled := fun c hc hst => ⟨.inr (.inl rfl), fun r hr hrst =>
        absurd hrst (hother .cancelRejected nofun nofun r hr)⟩ }
  case refine_3 =>
    exact { hv.manager with
      sized := fun _ => hv.manager.sized hsent
      ackedSent := fun _ => hsent
      unacked := fun h => absurd trivial h
      acked := fun _ => Nat.le_refl _
      quiet := fun _ _ => .inl (.inr (.inl rfl))
      untaken := fun _ h => absurd trivial h
      states := fun _ => ⟨nofun, nofun, nofun⟩ }

/-- What a fill or a cancel takes moves from the queue to the reports. -/
theorem spent_report
    (hkind : q.2.state = .filled ∨ q.2.state = .cancelled) (o : Order ι) :
    (v.report o q.2.size).spent = (v.push q).spent := by
  have htakes : q.2.takes = q.2.size := if_pos hkind
  rw [spent_push, htakes]
  exact Nat.add_right_comm ..

/-- There is room for it. -/
theorem Inv.room (hv : (v.push q).Inv)
    (hkind : q.2.state = .filled ∨ q.2.state = .cancelled) :
    0 < q.2.size ∧ v.taken + q.2.size + sizes (v.events.map Prod.snd)
      ≤ v.order.size := by
  refine ⟨hv.ledger.positive q List.mem_cons_self hkind, ?_⟩
  have hle := hv.ledger.spent_le
  rw [← spent_report hkind v.order] at hle
  exact hle

/-- What is in the queue takes no more than all of it. -/
theorem size_le_sizes (hq : q ∈ v.events)
    (hkind : q.2.state = .filled ∨ q.2.state = .cancelled) :
    q.2.size ≤ sizes (v.events.map Prod.snd) := by
  have htakes : q.2.takes = q.2.size := if_pos hkind
  have hmem : q.2.takes ∈ (v.events.map Prod.snd).map SimEvent.takes :=
    List.mem_map_of_mem (List.mem_map_of_mem hq)
  rw [htakes] at hmem
  exact List.le_sum_of_mem hmem

/-- A fill of an acknowledged order is delivered. -/
theorem Inv.filled (hv : (v.push q).Inv) (hstate : q.2.state = .filled)
    (hacked : v.acked) {o : Order ι} (hsize : o.size = v.order.size)
    (hfilled : o.filledSize = v.order.filledSize + q.2.size)
    (hcancelled : o.cancelledSize = v.order.cancelledSize)
    (hnew : o.state = .partiallyFilled
      ∨ o.state = .filled ∧ o.filledSize = o.size) :
    (v.report o q.2.size).Inv := by
  have hmem : ∀ q' ∈ v.events, q' ∈ (v.push q).events :=
    fun q' hq' => List.mem_cons_of_mem _ hq'
  have hsent : v.sent := hv.manager.ackedSent hacked
  obtain ⟨hpos, hroom⟩ := hv.room (.inl hstate)
  have hbooked : v.order.filledSize + v.order.cancelledSize = v.taken :=
    hv.ledger.booked
  have hspent := spent_report (v := v) (.inl hstate) o
  have hcount : (v.push q).count .cancelled = v.count .cancelled :=
    count_push_of_ne (by rw [hstate]; decide)
  refine ⟨?_, ?_, ?_⟩
  case refine_1 =>
    refine { hv.ledger with
      positive := fun q' hq' => hv.ledger.positive q' (hmem q' hq')
      spent_le := ?_, booked := ?_, live := ?_, waiting := ?_ }
    · rw [hspent]
      exact hsize ▸ hv.ledger.spent_le
    · show o.filledSize + o.cancelledSize = v.taken + q.2.size
      omega
    · rw [hspent]
      exact hsize ▸ hv.ledger.live
    · -- an order that waits is not filled
      intro esi k o' ho' hk hnone hzero
      have hzero : o.cancelledSize = 0 := hzero
      have hwhole := (hv.ledger.waiting esi k o' ho' hk
        (hcount.trans hnone) (hcancelled ▸ hzero)).1
      rw [← hspent] at hwhole
      have hle : q.2.size ≤ (v.report o q.2.size).spent :=
        Nat.le_add_right_of_le (Nat.le_add_left ..)
      omega
  case refine_2 =>
    refine { hv.stages with
      sent := fun _ => hsent, travelling := ?_, acking := ?_
      ackingOnce := ?_, filled := fun _ => .inl hacked
      entry := fun _ _ _ => .inl hacked, requested := fun _ _ _ => hacked
      cancelledOnce := hcount ▸ hv.stages.cancelledOnce
      cancelled := ?_ }
    · exact fun q' hq' h => absurd h (hv.of_acked hacked (hmem q' hq')).1
    · exact fun q' hq' h => absurd h (hv.of_acked hacked (hmem q' hq')).2
    · have honce := hv.stages.ackingOnce
      rw [count_push_of_ne (by rw [hstate]; decide)] at honce
      exact honce
    · -- what is about to be cancelled is not filled whole
      intro c hc hst
      obtain ⟨-, hbefore⟩ := hv.stages.cancelled c (hmem c hc) hst
      refine ⟨?_, fun r hr => hbefore r (hmem r hr)⟩
      rcases hnew with hpart | ⟨-, hwhole⟩
      · exact .inr (.inr (.inl hpart))
      · have hcpos := hv.ledger.positive c (hmem c hc) (.inr hst)
        have hcle : c.2.size ≤ sizes (v.events.map Prod.snd) :=
          size_le_sizes hc (.inr hst)
        omega
  case refine_3 =>
    refine { hv.manager with
      sized := fun h => hsize ▸ hv.manager.sized h
      unsent := fun h => absurd hsent h
      unacked := fun h => absurd hacked h
      acked := ?_, quiet := ?_
      untaken := fun _ h => absurd hacked h, states := ?_ }
    · intro _
      show _ ≤ stateCode o.state
      rcases hnew with h | ⟨h, -⟩ <;> rw [h] <;> decide
    · intro _ htaken
      have htaken : v.taken + q.2.size = 0 := htaken
      omega
    · intro _
      show o.state ≠ _ ∧ o.state ≠ _ ∧ o.state ≠ _
      rcases hnew with h | ⟨h, -⟩ <;> rw [h] <;> decide

/-- A cancel is delivered, when no acknowledgment is due. -/
theorem Inv.cancelled (hv : (v.push q).Inv)
    (hstate : q.2.state = .cancelled)
    (hnone : v.count .acknowledged = 0) {o : Order ι}
    (hsize : o.size = v.order.size)
    (hfilled : o.filledSize = v.order.filledSize)
    (hcancelled : o.cancelledSize = v.order.cancelledSize + q.2.size)
    (hopen : v.order.openSize = 0 → o.openSize = 0)
    (hnew : o.state = .cancelled ∨ o.state = .partiallyCancelled) :
    (v.report o q.2.size).Inv := by
  have hmem : ∀ q' ∈ v.events, q' ∈ (v.push q).events :=
    fun q' hq' => List.mem_cons_of_mem _ hq'
  have hsent : v.sent := hv.stages.sent (List.cons_ne_nil _ _)
  obtain ⟨hpos, hroom⟩ := hv.room (.inr hstate)
  have hbooked : v.order.filledSize + v.order.cancelledSize = v.taken :=
    hv.ledger.booked
  have hspent := spent_report (v := v) (.inr hstate) o
  have honly : v.count .cancelled = 0 := by
    have honce := hv.stages.cancelledOnce
    rw [count_push, if_pos hstate] at honce
    omega
  have hack : (v.push q).count .acknowledged = v.count .acknowledged :=
    count_push_of_ne (by rw [hstate]; decide)
  refine ⟨?_, ?_, ?_⟩
  case refine_1 =>
    refine { hv.ledger with
      positive := fun q' hq' => hv.ledger.positive q' (hmem q' hq')
      spent_le := ?_, booked := ?_, live := ?_, waiting := ?_ }
    · rw [hspent]
      exact hsize ▸ hv.ledger.spent_le
    · show o.filledSize + o.cancelledSize = v.taken + q.2.size
      omega
    · rw [hspent]
      exact hsize ▸ hv.ledger.live
    · intro _ _ _ _ _ _ hzero
      have hzero : o.cancelledSize = 0 := hzero
      omega
  case refine_2 =>
    refine { hv.stages with
      sent := fun _ => hsent, travelling := ?_, acking := ?_
      ackingOnce := hnone ▸ Nat.zero_le 1, filled := ?_, entry := ?_
      requested := fun q' hq' => hv.stages.requested q' (hmem q' hq')
      cancelledOnce := honly ▸ Nat.zero_le 1, cancelled := ?_ }
    · intro q' hq' h
      have hone := (hv.stages.travelling q' (hmem q' hq') h).1
      have hq : q ∈ [q'] := hone ▸ List.mem_cons_self
      rw [List.mem_singleton.mp hq, h] at hstate
      cases hstate
    · exact fun a ha h => absurd h (count_eq_zero.mp hnone a ha)
    · intro hcount
      have hfill := hv.stages.filled
      rw [hack, count_push] at hfill
      exact hfill (Nat.lt_of_lt_of_le hcount (Nat.le_add_right _ _))
    · intro esi k hne
      have hentry := hv.stages.entry esi k hne
      rw [hack] at hentry
      exact hentry
    · exact fun c hc h => absurd h (count_eq_zero.mp honly c hc)
  case refine_3 =>
    refine { hv.manager with
      sized := fun h => hsize ▸ hv.manager.sized h
      unsent := fun h => absurd hsent h
      unacked := fun h => hopen (hv.manager.unacked h)
      acked := ?_, quiet := ?_, untaken := ?_, states := ?_ }
    · intro _
      show _ ≤ stateCode o.state
      rcases hnew with h | h <;> rw [h] <;> decide
    · intro _ htaken
      have htaken : v.taken + q.2.size = 0 := htaken
      omega
    · intro _ _ htaken
      have htaken : v.taken + q.2.size = 0 := htaken
      omega
    · intro _
      show o.state ≠ _ ∧ o.state ≠ _ ∧ o.state ≠ _
      rcases hnew with h | h <;> rw [h] <;> decide

-- =================================================================== arrivals

/-- Nothing is known of an order that was not sent. -/
theorem Inv.of_unsent (hv : v.Inv) (hunsent : ¬ v.sent) :
    v.events = [] ∧ v.Absent ∧ ¬ v.acked ∧ v.taken = 0 := by
  refine ⟨?_, fun esi k => ?_, mt hv.manager.ackedSent hunsent,
    hv.manager.unsent hunsent⟩
  · by_contra hne
    exact hunsent (hv.stages.sent hne)
  · by_contra hne
    exact hunsent (hv.stages.entrySent esi k hne)

/-- An order that is not sent may be changed, as long as nothing of it is
open. -/
theorem Inv.withOrder (hv : v.Inv) (hunsent : ¬ v.sent) {o : Order ι}
    (hfilled : o.filledSize = v.order.filledSize)
    (hcancelled : o.cancelledSize = v.order.cancelledSize)
    (hopen : o.openSize = v.order.openSize) : (v.withOrder o).Inv := by
  obtain ⟨hevents, habsent, hunacked, htaken⟩ := hv.of_unsent hunsent
  have hnone : ∀ esi k (o : SimOrder ω), o ∉ v.entries esi k := by
    intro esi k o ho
    rw [habsent esi k] at ho
    cases ho
  refine ⟨?_, ?_, ?_⟩
  case refine_1 =>
    refine { hv.ledger with spent_le := ?_, booked := ?_, live := ?_
                            waiting := ?_ }
    · show v.taken + sizes (v.events.map Prod.snd) ≤ o.size
      rw [htaken, hevents]
      exact Nat.zero_le _
    · show o.filledSize + o.cancelledSize = v.taken
      rw [hfilled, hcancelled]
      exact hv.ledger.booked
    · exact fun esi k o' ho' => absurd ho' (hnone esi k o')
    · exact fun esi k o' ho' => absurd ho' (hnone esi k o')
  case refine_2 =>
    refine { hv.stages with cancelled := ?_ }
    show ∀ q ∈ v.events, _
    rw [hevents]
    exact nofun
  case refine_3 =>
    exact { hv.manager with
      sized := fun h => absurd h hunsent
      unacked := fun h => hopen.trans (hv.manager.unacked h)
      acked := fun h => absurd h hunacked
      quiet := fun h => absurd h hunsent
      untaken := fun h => absurd h hunsent
      states := fun h => absurd h hunsent }

/-- An order with nothing but one event, on its way or refused whole. -/
theorem Inv.lone (hevents : v.events = [q]) (habsent : v.Absent)
    (hsent : v.sent) (hunacked : ¬ v.acked) (htaken : v.taken = 0)
    (hbooked : v.order.filledSize + v.order.cancelledSize = v.taken)
    (hmanager : v.Manager)
    (hkind : q.2.state = .sent
      ∨ q.2.state = .cancelled ∧ q.2.size = v.order.size) : v.Inv := by
  have honly : ∀ q' ∈ v.events, q' = q := by
    rw [hevents]
    exact fun q' hq' => List.mem_singleton.mp hq'
  have hother : ∀ st, st ≠ .sent → st ≠ .cancelled → ∀ q' ∈ v.events,
      q'.2.state ≠ st := by
    intro st hs hc q' hq' h
    rw [honly q' hq'] at h
    rcases hkind with h' | ⟨h', -⟩
    · exact hs (h.symm.trans h')
    · exact hc (h.symm.trans h')
  have hcount : ∀ st, st ≠ .sent → st ≠ .cancelled → v.count st = 0 :=
    fun st hs hc => count_eq_zero.mpr (hother st hs hc)
  have hnone : ∀ esi k (o : SimOrder ω), o ∉ v.entries esi k := by
    intro esi k o ho
    rw [habsent esi k] at ho
    cases ho
  have hspent : v.spent = q.2.takes := by
    unfold spent
    rw [htaken, hevents, List.map_singleton, sizes_cons, sizes_nil]
    omega
  refine ⟨?_, ?_, hmanager⟩
  case refine_1 =>
    refine ⟨?_, ?_, hbooked, ?_, ?_, ?_, ?_, ?_⟩
    · intro q' hq' hst
      rw [honly q' hq'] at hst ⊢
      rcases hkind with h | ⟨-, h⟩
      · rw [h] at hst
        rcases hst with hst | hst <;> cases hst
      · exact h ▸ hmanager.sized hsent
    · rw [hspent]
      unfold SimEvent.takes
      rcases hkind with h | ⟨h, hsize⟩
      · rw [h]
        exact Nat.zero_le _
      · rw [if_pos (.inr h)]
        exact Nat.le_of_eq hsize
    · exact fun esi k o ho => absurd ho (hnone esi k o)
    · exact fun esi k o ho => absurd ho (hnone esi k o)
    · exact fun esi k o ho => absurd ho (hnone esi k o)
    · intro esi k
      rw [habsent esi k]
      exact Nat.zero_le 1
    · exact fun esi k _ _ hne => absurd (habsent esi k) hne
  case refine_2 =>
    refine ⟨fun _ => hsent, fun _ _ _ => hsent, ?_, ?_, ?_, ?_, ?_, ?_, ?_,
      ?_⟩
    · intro q' hq' _
      rw [honly q' hq']
      exact ⟨hevents, habsent, hunacked, htaken⟩
    · exact fun a ha h => absurd h (hother .acknowledged nofun nofun a ha)
    · rw [hcount .acknowledged nofun nofun]
      exact Nat.zero_le 1
    · intro h
      rw [hcount .filled nofun nofun] at h
      exact absurd h (Nat.lt_irrefl 0)
    · exact fun esi k hne => absurd (habsent esi k) hne
    · rintro q' hq' (h | h)
      · exact absurd h (hother .pendingCancel nofun nofun q' hq')
      · exact absurd h (hother .cancelRejected nofun nofun q' hq')
    · refine Nat.le_trans List.countP_le_length ?_
      rw [hevents]
      exact Nat.le_refl 1
    · exact fun _ _ _ => ⟨.inl (hmanager.untaken hsent hunacked htaken),
        fun r hr h => absurd h (hother .cancelRejected nofun nofun r hr)⟩

/-- An order is sent. -/
theorem Inv.sent (hv : v.Inv) (hunsent : ¬ v.sent) {o : Order ι}
    (hsized : 0 < o.size) (hfilled : o.filledSize = v.order.filledSize)
    (hcancelled : o.cancelledSize = v.order.cancelledSize)
    (hopen : o.openSize = v.order.openSize) (hnew : o.state = .sent)
    (hstate : q.2.state = .sent) :
    (({ v with order := o, sent := True } : View ω ι).push q).Inv := by
  obtain ⟨hevents, habsent, hunacked, htaken⟩ := hv.of_unsent hunsent
  refine Inv.lone ?_ habsent trivial hunacked htaken ?_ ?_ (.inl hstate)
  · show q :: v.events = [q]
    rw [hevents]
  · show o.filledSize + o.cancelledSize = v.taken
    rw [hfilled, hcancelled]
    exact hv.ledger.booked
  · refine ⟨fun _ => hsized, fun _ => trivial, fun h => absurd trivial h,
      fun h => hopen.trans (hv.manager.unacked h),
      fun h => absurd h hunacked, fun _ _ => .inl (.inl hnew),
      fun _ _ _ => hnew, fun _ => ?_⟩
    show o.state ≠ _ ∧ o.state ≠ _ ∧ o.state ≠ _
    rw [hnew]
    decide

/-- What is known of an order as it arrives. -/
theorem Inv.of_travelling (hv : (v.push q).Inv) (hstate : q.2.state = .sent) :
    v.events = [] ∧ v.Absent ∧ ¬ v.acked ∧ v.taken = 0 ∧ v.sent
      ∧ v.order.state = .sent ∧ 0 < v.order.size := by
  obtain ⟨hone, habsent, hunacked, htaken⟩ :=
    hv.stages.travelling q List.mem_cons_self hstate
  have hsent : v.sent := hv.stages.sent (List.cons_ne_nil _ _)
  exact ⟨(List.cons.inj hone).2, habsent, hunacked, htaken, hsent,
    hv.manager.untaken hsent hunacked htaken, hv.manager.sized hsent⟩

/-- The exchange takes the order: it is acknowledged, with what is filled
and cancelled after that, and what rests. -/
theorem Inv.accepted (hv : (v.push q).Inv) (hstate : q.2.state = .sent)
    {a : SimEvent.Ordering × SimEvent ω} (ha : a.2.state = .acknowledged)
    {rest : List (SimEvent.Ordering × SimEvent ω)}
    (hrest : ∀ r ∈ rest, (r.2.state = .filled ∨ r.2.state = .cancelled)
      ∧ a.1 < r.1 ∧ 0 < r.2.size)
    (honce : countOf .cancelled (rest.map Prod.snd) ≤ 1)
    (hsum : sizes (rest.map Prod.snd) ≤ v.order.size)
    (esi : Nat) (k : Container) {l : List (SimOrder ω)}
    (hlength : l.length ≤ 1)
    (hentry : ∀ o ∈ l, 0 < o.remains
      ∧ sizes (rest.map Prod.snd) + o.remains ≤ v.order.size
      ∧ (k.auction = true → rest = [] ∧ o.remains = v.order.size)) :
    ({ v with
      events := a :: rest
      entries := fun esi' k' =>
        if esi' = esi ∧ k' = k then l else v.entries esi' k' } :
      View ω ι).Inv := by
  obtain ⟨-, habsent, hunacked, htaken, hsent, hsentState, hsized⟩ :=
    hv.of_travelling hstate
  set v' : View ω ι := { v with
    events := a :: rest
    entries := fun esi' k' =>
      if esi' = esi ∧ k' = k then l else v.entries esi' k' } with hv'
  -- entries are in the one place
  have hplace : ∀ {esi' k'}, v'.entries esi' k' ≠ [] →
      esi' = esi ∧ k' = k := by
    intro esi' k' hne
    by_contra hnot
    exact hne ((if_neg hnot).trans (habsent esi' k'))
  have hmem : ∀ {esi' k' o}, o ∈ v'.entries esi' k' → k' = k ∧ o ∈ l := by
    intro esi' k' o ho
    obtain ⟨rfl, rfl⟩ := hplace (List.ne_nil_of_mem ho)
    have heq : v'.entries esi' k' = l := if_pos ⟨rfl, rfl⟩
    exact ⟨rfl, heq ▸ ho⟩
  have htakes : a.2.takes = 0 := by
    unfold SimEvent.takes
    rw [ha]
    rfl
  have hspent : v'.spent = sizes (rest.map Prod.snd) := by
    show v.taken + (a.2.takes + sizes (rest.map Prod.snd)) = _
    omega
  have hkind : ∀ {q'}, q' ∈ v'.events → ∀ st, st ≠ .acknowledged →
      st ≠ .filled → st ≠ .cancelled → q'.2.state ≠ st := by
    intro q' hq' st hack hfill hcxl h
    rcases List.mem_cons.mp hq' with rfl | hq'
    · exact hack (h.symm.trans ha)
    · rcases (hrest q' hq').1 with h' | h'
      · exact hfill (h.symm.trans h')
      · exact hcxl (h.symm.trans h')
  have hack : v'.count .acknowledged = 1 := by
    show countOf .acknowledged (a.2 :: rest.map Prod.snd) = 1
    rw [countOf_cons, if_pos ha, countOf_eq_zero.mpr]
    intro e he h
    obtain ⟨r, hr, rfl⟩ := List.mem_map.mp he
    rcases (hrest r hr).1 with h' | h' <;> rw [h'] at h <;> cases h
  have hcxl : v'.count .cancelled
      = countOf .cancelled (rest.map Prod.snd) := by
    show countOf .cancelled (a.2 :: rest.map Prod.snd) = _
    rw [countOf_cons, if_neg (by rw [ha]; decide)]
    rfl
  refine ⟨?_, ?_, ?_⟩
  case refine_1 =>
    refine ⟨?_, ?_, hv.ledger.booked, ?_, ?_, ?_, ?_, ?_⟩
    · intro q' hq' hst
      rcases List.mem_cons.mp hq' with rfl | hq'
      · rw [ha] at hst
        rcases hst with h | h <;> cases h
      · exact (hrest q' hq').2.2
    · rw [hspent]
      exact hsum
    · exact fun esi' k' o ho => (hentry o (hmem ho).2).1
    · intro esi' k' o ho _
      rw [hspent]
      exact (hentry o (hmem ho).2).2.1
    · intro esi' k' o ho hk _ _
      obtain ⟨rfl, hl⟩ := hmem ho
      obtain ⟨hnil, hwhole⟩ := (hentry o hl).2.2 hk
      refine ⟨?_, hwhole⟩
      rw [hspent, hnil]
      rfl
    · intro esi' k'
      show (if esi' = esi ∧ k' = k then l else v.entries esi' k').length ≤ 1
      split
      · exact hlength
      · exact hv.ledger.once esi' k'
    · intro esi₁ k₁ esi₂ k₂ h₁ h₂
      obtain ⟨rfl, rfl⟩ := hplace h₁
      obtain ⟨rfl, rfl⟩ := hplace h₂
      exact ⟨rfl, rfl⟩
  case refine_2 =>
    refine ⟨fun _ => hsent, fun _ _ _ => hsent, ?_, ?_, Nat.le_of_eq hack,
      ?_, ?_, ?_, ?_, ?_⟩
    · exact fun q' hq' h => absurd h (hkind hq' .sent nofun nofun nofun)
    · intro a' ha' hst
      refine ⟨fun q' hq' => ?_, hunacked, htaken⟩
      have haa : a' = a := by
        rcases List.mem_cons.mp ha' with rfl | hr
        · rfl
        · rcases (hrest a' hr).1 with h | h <;> rw [h] at hst <;> cases hst
      rcases List.mem_cons.mp hq' with rfl | hr
      · exact .inl ha
      · obtain ⟨hst', hlt, -⟩ := hrest q' hr
        exact .inr ⟨hst', haa ▸ hlt⟩
    · exact fun _ => .inr (hack ▸ Nat.one_pos)
    · exact fun _ _ _ => .inr (hack ▸ Nat.one_pos)
    · rintro q' hq' (h | h)
      · exact absurd h (hkind hq' .pendingCancel nofun nofun nofun)
      · exact absurd h (hkind hq' .cancelRejected nofun nofun nofun)
    · rw [hcxl]
      exact honce
    · refine fun c _ _ => ⟨.inl hsentState, fun r hr h => ?_⟩
      exact absurd h (hkind hr .cancelRejected nofun nofun nofun)
  case refine_3 => exact { hv.manager with }

/-- The exchange does not take the order, and cancels it whole. -/
theorem Inv.refused (hv : (v.push q).Inv) (hstate : q.2.state = .sent)
    {c : SimEvent.Ordering × SimEvent ω} (hc : c.2.state = .cancelled)
    (hsize : c.2.size = v.order.size) : (v.push c).Inv := by
  obtain ⟨hevents, habsent, hunacked, htaken, hsent, -⟩ :=
    hv.of_travelling hstate
  refine Inv.lone ?_ habsent hsent hunacked htaken hv.ledger.booked
    { hv.manager with } (.inr ⟨hc, hsize⟩)
  show c :: v.events = [c]
  rw [hevents]

end Push

-- =================================================================== settling

/-- After a container was settled, with what it has of the order now. -/
def settle (v : View ω ι) (esi : Nat) (k : Container)
    (l : List (SimOrder ω)) (due : SimEvent.Ordering)
    (es : List (SimEvent ω)) : View ω ι :=
  { v with
    events := v.events ++ es.map fun e => (due, e)
    entries := fun esi' k' =>
      if esi' = esi ∧ k' = k then l else v.entries esi' k' }

section Settle

variable {keeps : SimOrder ω → SimOrder ω → List (SimEvent ω) → Prop}
  {esi : Nat} {k : Container} {l : List (SimOrder ω)}
  {due : SimEvent.Ordering} {es : List (SimEvent ω)}

/-- What a container leaves behind goes into the queue. -/
theorem spent_settle :
    (v.settle esi k l due es).spent = v.spent + sizes es := by
  show v.taken + sizes ((v.events ++ es.map fun e => (due, e)).map Prod.snd)
    = v.taken + sizes (v.events.map Prod.snd) + sizes es
  rw [List.map_append, sizes_append, List.map_map]
  show v.taken + (_ + sizes (es.map id)) = _
  rw [List.map_id, Nat.add_assoc]

/-- Event by event. -/
theorem count_settle (st : OrderState) :
    (v.settle esi k l due es).count st = v.count st + countOf st es := by
  show countOf st ((v.events ++ es.map fun e => (due, e)).map Prod.snd) = _
  rw [List.map_append, countOf_append, List.map_map]
  show _ + countOf st (es.map id) = _
  rw [List.map_id]
  rfl

/-- All of it due at one time. -/
theorem mem_settle {q : SimEvent.Ordering × SimEvent ω} :
    q ∈ (v.settle esi k l due es).events
      ↔ q ∈ v.events ∨ q.1 = due ∧ q.2 ∈ es := by
  obtain ⟨d, e⟩ := q
  show (d, e) ∈ v.events ++ es.map (fun e => (due, e)) ↔ _
  simp only [List.mem_append, List.mem_map, Prod.mk.injEq]
  constructor
  · rintro (h | ⟨e', he', rfl, rfl⟩)
    · exact .inl h
    · exact .inr ⟨rfl, he'⟩
  · rintro (h | ⟨rfl, he⟩)
    · exact .inl h
    · exact .inr ⟨e, he, rfl, rfl⟩

variable (hset : SettlesOrder keeps (v.entries esi k) l es)

include hset

/-- Events come of an entry. -/
theorem entry_of_event :
    es = [] ∨ ∃ o, v.entries esi k = [o] ∧ EntryEvents o es := by
  generalize v.entries esi k = l₀ at hset
  cases hset with
  | none => exact .inl rfl
  | gone he => exact .inr ⟨_, rfl, he⟩
  | kept he => exact .inr ⟨_, rfl, he⟩

/-- What is in the container came of what was. -/
theorem entry_of_kept {o' : SimOrder ω} (ho' : o' ∈ l) :
    0 < o'.remains ∧ ∃ o, v.entries esi k = [o] ∧ keeps o o' es := by
  generalize v.entries esi k = l₀ at hset
  cases hset with
  | none => cases ho'
  | gone => cases ho'
  | kept he horder hpos hkeeps =>
      rw [List.mem_singleton.mp ho']
      exact ⟨hpos, _, rfl, hkeeps⟩

/-- An order that is in a container once stays so. -/
theorem length_settle (esi' : Nat) (k' : Container)
    (honce : (v.entries esi' k').length ≤ 1) :
    ((v.settle esi k l due es).entries esi' k').length ≤ 1 := by
  show (if esi' = esi ∧ k' = k then l else v.entries esi' k').length ≤ 1
  split
  · generalize v.entries esi k = l₀ at hset
    cases hset with
    | none => exact Nat.zero_le 1
    | gone => exact Nat.zero_le 1
    | kept => exact Nat.le_refl 1
  · exact honce

/-- Where there is an entry, there was one. -/
theorem entries_of_settle {esi' : Nat} {k' : Container}
    (hne : (v.settle esi k l due es).entries esi' k' ≠ []) :
    v.entries esi' k' ≠ [] := by
  intro hnil
  refine hne ?_
  show (if esi' = esi ∧ k' = k then l else v.entries esi' k') = []
  split
  case isTrue h =>
    rw [h.1, h.2] at hnil
    rw [hnil] at hset
    cases hset
    rfl
  case isFalse => exact hnil

/-- An entry is a kept one, or elsewhere, and then there are no events. -/
theorem mem_entries_settle
    (hapart : ∀ esi k esi' k', v.entries esi k ≠ [] →
      v.entries esi' k' ≠ [] → esi = esi' ∧ k = k')
    {esi' : Nat} {k' : Container} {o' : SimOrder ω}
    (ho' : o' ∈ (v.settle esi k l due es).entries esi' k') :
    (k' = k ∧ o' ∈ l) ∨ (o' ∈ v.entries esi' k' ∧ es = []) := by
  have heq : (v.settle esi k l due es).entries esi' k'
      = if esi' = esi ∧ k' = k then l else v.entries esi' k' := rfl
  rw [heq] at ho'
  by_cases h : esi' = esi ∧ k' = k
  · rw [if_pos h] at ho'
    exact .inl ⟨h.2, ho'⟩
  · rw [if_neg h] at ho'
    refine .inr ⟨ho', ?_⟩
    rcases entry_of_event hset with hnil | ⟨o, ho, -⟩
    · exact hnil
    · refine absurd (hapart esi' k' esi k (List.ne_nil_of_mem ho') ?_) h
      rw [ho]
      exact List.cons_ne_nil _ _

/-- Sizes add up after the container was settled, if they did with what
was in it, and what is kept is in order. -/
theorem Inv.ledger_settle (hv : v.Inv)
    (hkeeps : ∀ o o', keeps o o' es →
      (k.auction = false → Live o o' es) ∧ (k.auction = true → Dead o o' es))
    (hwithin : ∀ o ∈ v.entries esi k, v.spent + o.remains ≤ v.order.size) :
    (v.settle esi k l due es).Ledger where
  positive q hq hkind := by
    rcases mem_settle.mp hq with hq | ⟨-, hq⟩
    · exact hv.ledger.positive q hq hkind
    · rcases entry_of_event hset with hnil | ⟨o, -, hes⟩
      · rw [hnil] at hq
        cases hq
      · exact hes.positive q.2 hq
  spent_le := by
    rw [spent_settle]
    rcases entry_of_event hset with hnil | ⟨o, ho, hes⟩
    · rw [hnil]
      exact hv.ledger.spent_le
    · have hsum := hwithin o (ho ▸ List.mem_singleton_self o)
      have hle := hes.within
      show v.spent + sizes es ≤ v.order.size
      omega
  booked := hv.ledger.booked
  remains esi' k' o' ho' := by
    rcases mem_entries_settle hset hv.ledger.apart ho' with
      ⟨-, ho'⟩ | ⟨ho', -⟩
    · exact (entry_of_kept hset ho').1
    · exact hv.ledger.remains esi' k' o' ho'
  live esi' k' o' ho' hk' := by
    rw [spent_settle]
    rcases mem_entries_settle hset hv.ledger.apart ho' with
      ⟨rfl, hl⟩ | ⟨ho', hnil⟩
    · obtain ⟨-, o, ho, hkeep⟩ := entry_of_kept hset hl
      have hlive := (hkeeps o o' hkeep).1 hk'
      have hsum := hwithin o (ho ▸ List.mem_singleton_self o)
      unfold Live at hlive
      show v.spent + sizes es + o'.remains ≤ v.order.size
      omega
    · rw [hnil]
      exact hv.ledger.live esi' k' o' ho' hk'
  waiting esi' k' o' ho' hk' hcount hzero := by
    rw [count_settle] at hcount
    rw [spent_settle]
    rcases mem_entries_settle hset hv.ledger.apart ho' with
      ⟨rfl, hl⟩ | ⟨ho', hnil⟩
    · obtain ⟨-, o, ho, hkeep⟩ := entry_of_kept hset hl
      have hdead := (hkeeps o o' hkeep).2 hk'
      unfold Dead at hdead
      omega
    · rw [hnil] at hcount ⊢
      exact hv.ledger.waiting esi' k' o' ho' hk' hcount hzero
  once esi' k' := length_settle hset esi' k' (hv.ledger.once esi' k')
  apart esi₁ k₁ esi₂ k₂ h₁ h₂ := hv.ledger.apart esi₁ k₁ esi₂ k₂
    (entries_of_settle hset h₁) (entries_of_settle hset h₂)

/-- What the events are for is acknowledged before they are due, and
nothing stands against one that cancels. -/
theorem Inv.stages_settle (hv : v.Inv)
    (hack : es ≠ [] → ∀ a ∈ v.events, a.2.state = .acknowledged →
      a.1 < due)
    (hclear : 0 < countOf .cancelled es → v.Clear due) :
    (v.settle esi k l due es).Stages := by
  have hkind : ∀ e ∈ es, e.state = .filled ∨ e.state = .cancelled := by
    rcases entry_of_event hset with hnil | ⟨o, -, hes⟩
    · rw [hnil]
      exact nofun
    · exact hes.kind
  have hother : ∀ st, st ≠ .filled → st ≠ .cancelled →
      ∀ q ∈ (v.settle esi k l due es).events, q.2.state = st →
      q ∈ v.events := by
    intro st hf hc q hq h
    rcases mem_settle.mp hq with hq | ⟨-, hq⟩
    · exact hq
    · rcases hkind q.2 hq with h' | h'
      · exact absurd (h.symm.trans h') hf
      · exact absurd (h.symm.trans h') hc
  have hcount : (v.settle esi k l due es).count .acknowledged
      = v.count .acknowledged := by
    rw [count_settle, countOf_eq_zero.mpr]
    · rfl
    · intro e he h
      rcases hkind e he with h' | h' <;> rw [h'] at h <;> cases h
  -- events are for an order with an entry
  have hentry : es ≠ [] → v.entries esi k ≠ [] := by
    intro hne
    rcases entry_of_event hset with hnil | ⟨o, ho, -⟩
    · exact absurd hnil hne
    · rw [ho]
      exact List.cons_ne_nil _ _
  have hes : v.Absent → es = [] := by
    intro habsent
    by_contra hne
    exact hentry hne (habsent esi k)
  refine ⟨?_, ?_, ?_, ?_, ?_, ?_, ?_, ?_, ?_, ?_⟩
  case refine_1 =>
    intro hne
    by_cases hnil : es = []
    · refine hv.stages.sent fun h => hne ?_
      show v.events ++ _ = []
      rw [h, hnil]
      rfl
    · exact hv.stages.entrySent esi k (hentry hnil)
  case refine_2 =>
    exact fun esi' k' hne =>
      hv.stages.entrySent esi' k' (entries_of_settle hset hne)
  case refine_3 =>
    intro q hq hst
    have hq := hother .sent nofun nofun q hq hst
    obtain ⟨hone, habsent, hrest⟩ := hv.stages.travelling q hq hst
    refine ⟨?_, fun esi' k' => ?_, hrest⟩
    · show v.events ++ _ = [q]
      rw [hes habsent, List.map_nil, List.append_nil, hone]
    · by_contra hne
      exact entries_of_settle hset hne (habsent esi' k')
  case refine_4 =>
    intro a ha hst
    have ha := hother .acknowledged nofun nofun a ha hst
    obtain ⟨hall, hrest⟩ := hv.stages.acking a ha hst
    refine ⟨fun q hq => ?_, hrest⟩
    rcases mem_settle.mp hq with hq | ⟨hdue, hq⟩
    · exact hall q hq
    · exact .inr ⟨hkind q.2 hq,
        hdue ▸ hack (List.ne_nil_of_mem hq) a ha hst⟩
  case refine_5 =>
    rw [hcount]
    exact hv.stages.ackingOnce
  case refine_6 =>
    intro hfill
    rw [hcount]
    by_cases hnil : es = []
    · rw [count_settle, hnil] at hfill
      exact hv.stages.filled hfill
    · exact hv.stages.entry esi k (hentry hnil)
  case refine_7 =>
    intro esi' k' hne
    rw [hcount]
    exact hv.stages.entry esi' k' (entries_of_settle hset hne)
  case refine_8 =>
    rintro q hq (h | h)
    · exact hv.stages.requested q
        (hother .pendingCancel nofun nofun q hq h) (.inl h)
    · exact hv.stages.requested q
        (hother .cancelRejected nofun nofun q hq h) (.inr h)
  case refine_9 =>
    rw [count_settle]
    by_cases hnew : 0 < countOf .cancelled es
    · rw [(hclear hnew).cancelled]
      rcases entry_of_event hset with hnil | ⟨o, -, hes⟩
      · rw [hnil] at hnew
        cases hnew
      · rw [Nat.zero_add]
        exact hes.once
    · have hold := hv.stages.cancelledOnce
      omega
  case refine_10 =>
    intro c hc hst
    rcases mem_settle.mp hc with hc | ⟨hdue, hc⟩
    · obtain ⟨hexpects, hbefore⟩ := hv.stages.cancelled c hc hst
      exact ⟨hexpects, fun r hr h =>
        hbefore r (hother .cancelRejected nofun nofun r hr h) h⟩
    · have hcl := hclear (countOf_pos.mpr ⟨c.2, hc, hst⟩)
      exact ⟨hcl.state, fun r hr h => hdue ▸ hcl.rejected r
        (hother .cancelRejected nofun nofun r hr h) h⟩

/-- The step lemma for market data: a container is settled, and the events are
due after the acknowledgment and after anything that a cancel rests on. -/
theorem Inv.settle (hv : v.Inv)
    (hkeeps : ∀ o o', keeps o o' es →
      (k.auction = false → Live o o' es) ∧ (k.auction = true → Dead o o' es))
    (hwithin : ∀ o ∈ v.entries esi k, v.spent + o.remains ≤ v.order.size)
    (hack : es ≠ [] → ∀ a ∈ v.events, a.2.state = .acknowledged →
      a.1 < due)
    (hclear : 0 < countOf .cancelled es → v.Clear due) :
    (v.settle esi k l due es).Inv :=
  ⟨hv.ledger_settle hset hkeeps hwithin, hv.stages_settle hset hack hclear,
    { hv.manager with }⟩

end Settle

end View

end TradingEngine.OE
