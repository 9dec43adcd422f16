/-
The simulated exchange conserves orders, in every run that meets the
condition.

# The condition

Four things go wrong in the simulation, each in one place: a fill of size
zero, a cancel that is due before the acknowledgment, an auction that finds
an order filled in part, and a second cancel request while one is answered.
The condition of a run excludes them input by input, looking at the state
before the input, and at what the queue holds there.

# The argument

The modules before this one have one lemma for each thing that the simulation
does: the turns of `update_ts`, what arrives, and what market data does to
the containers. Here they become the step lemma, one case for each input: a
`send` is a step of the order manager with an arrival behind it, a `cancel`
one with a request, and a packet is an event of the market. The run lemma is
the induction over the inputs, and `orders_conserved` reads off the invariant
what was reported of each order.
-/
import TradingEngine.OE.Proofs.L2SimArrivals
import TradingEngine.OE.Proofs.L2SimMarket

namespace TradingEngine.OE

variable {ω ι : Type} [DecidableEq ω] [DecidableEq ι]

namespace L2Sim

-- ====================================================================== turns

/-- The step lemma of `update_ts`. -/
theorem simInv_turn {s : L2Sim ω ι} (h : s.SimInv) {k : Nat}
    {view : BookView} (hpossible : s.Possible (.turn k view))
    (hsound : s.Sound (.turn k view)) :
    (s.step (.turn k view)).SimInv := by
  obtain ⟨ts, hup, htop⟩ := hpossible
  obtain ⟨⟨due, se⟩, hq, -⟩ := id htop
  have hp := serving_popped hq h hup htop
  obtain ⟨harrival, hrequest⟩ := hsound due se hq
  show (s.turn k view).SimInv
  unfold turn
  rw [hq]
  show ((s.popped k due).serve (ofLex due).1 se view).SimInv
  have hold : ∀ x ∈ (s.popped k due).session.eventq,
      x ∈ s.session.eventq := fun x hx => List.mem_of_mem_eraseIdx hx
  unfold serve
  split
  case h_1 hst =>
    obtain ⟨hassert, hinv⟩ := hp.onOrderSent hst view
      (harrival hst)
    have hassert : ((s.popped k due).session.onOrderSent
        ((s.popped k due).order se.order) (ofLex due).1 se view).2
        = true := hassert
    dsimp only
    rw [hassert, Bool.and_true]
    exact hinv
  case h_2 hst => exact hp.acknowledged hst
  case h_3 hst =>
    obtain ⟨hgrant, hreject⟩ := hrequest hst
    exact hp.pendingCancel hst (fun hg x hx => hgrant hg x (hold x hx))
      (fun hg x hx => hreject hg x (hold x hx))
  case h_4 hst => exact hp.cancelled hst
  case h_5 hst => exact hp.cancelRejected hst
  case h_6 hst => exact hp.filled hst
  case h_7 h₁ h₂ h₃ h₄ h₅ h₆ => exact hp.pop h₁ h₂ h₆ h₄

-- ====================================================================== sends

section Send

variable {s s' : L2Sim ω ι} (h : s.SimInv) {w : ω} {name : Bytes}
  {a : OrderManager.SendAnswer}

omit [DecidableEq ι] in
include h in
/-- An order that is to be sent was not sent before. -/
theorem SimInv.not_sent (hunsent : (s.order w).unsent = true) :
    w ∉ s.trading.sent := by
  intro hw
  have hstate : (s.order w).state = .newAndUnsent := beq_iff_eq.mp hunsent
  exact ((h.views w).manager.states hw).1 hstate

variable (htrading : s'.trading = s.trading.step (.send w name a))
  (hsession : s'.session = s.session ∧ w ∉ s'.trading.sent
    ∨ ∃ due e, e.order = w ∧ e.state = .sent
      ∧ s.session.ts ≤ (ofLex due).1
      ∧ s'.session = s.session.emplace due e)
  (hdelivered : s'.delivered = s.delivered)

include htrading hsession

/-- Another order's view, after a send. -/
theorem same_send (hdelivered : s'.delivered = s.delivered) {v : ω}
    (hv : v ≠ w) : View.Same (s.view v) (s'.view v) := by
  have hbefore : View.Same (s.view v)
      ((s.withSession s'.session).view v) := by
    rcases hsession with ⟨hsession, -⟩ | ⟨due, e, rfl, -, -, hsession⟩
    · rw [hsession]
      exact .refl _
    · rw [hsession]
      exact same_emplace_of_ne hv
  refine hbefore.trans ⟨?_, ?_, ?_, ?_, .refl _, fun _ _ => .refl _⟩
  · show s'.trading.om.order v = s.trading.om.order v
    rw [htrading]
    exact s.trading.step_order_of_ne (Ne.symm hv)
  · show v ∈ s'.trading.sent ↔ v ∈ s.trading.sent
    rw [htrading, Trading.mem_sent_send]
    exact ⟨fun h => h.elim id fun h => absurd h.1 hv, .inl⟩
  · show v ∈ s'.trading.acked ↔ v ∈ s.trading.acked
    rw [htrading]
    exact .rfl
  · show taken s'.delivered v = taken s.delivered v
    rw [hdelivered]

omit hsession in
/-- A send is of one order. -/
theorem order_send {v : ω} (hv : v ≠ w) : s'.order v = s.order v := by
  show s'.trading.om.order v = _
  rw [htrading]
  exact s.trading.step_order_of_ne (Ne.symm hv)

omit hsession in
theorem sent_send {v : ω} (hv : v ∈ s'.trading.sent) (hne : v ≠ w) :
    v ∈ s.trading.sent := by
  rw [htrading, Trading.mem_sent_send] at hv
  exact hv.elim id fun h => absurd h.1 hne

omit hsession in
theorem acked_send : s'.trading.acked = s.trading.acked := by
  rw [htrading]
  rfl

omit [DecidableEq ω] [DecidableEq ι] htrading in
/-- A send touches nothing of the session but its queue, and takes nothing
off that. -/
theorem session_send : s'.session.ts = s.session.ts
    ∧ s'.session.ackLatency = s.session.ackLatency
    ∧ s'.session.orders = s.session.orders
    ∧ ∀ q ∈ s.session.eventq, q ∈ s'.session.eventq := by
  rcases hsession with ⟨heq, -⟩ | ⟨due, e, -, -, -, heq⟩
  · rw [heq]
    exact ⟨rfl, rfl, rfl, fun _ hq => hq⟩
  · rw [heq]
    exact ⟨rfl, rfl, rfl, fun _ hq => List.mem_append_left _ hq⟩

include h

theorem clock_send (hunsent : w ∉ s.trading.sent)
    (hupdating : s'.updating = s.updating) : s'.Clock := by
  obtain ⟨hts, hlatency, -, -⟩ := session_send hsession
  have hunacked : w ∉ s.trading.acked :=
    mt (h.views w).manager.ackedSent hunsent
  have hclock : (s.withSession s'.session).Clock := by
    refine h.clock.withSession hts hlatency fun q hq => ?_
    rcases hsession with ⟨heq, -⟩ | ⟨due, e, -, hst, hdue, heq⟩
    · exact .inl (heq ▸ hq)
    · rw [heq] at hq
      rcases List.mem_append.mp hq with hq | hq
      · exact .inl hq
      · rw [List.mem_singleton.mp hq]
        refine .inr ⟨hdue, fun hack => ?_⟩
        have hack : e.state = .acknowledged := hack
        rw [hst] at hack
        cases hack
  refine ⟨hclock.due, hupdating ▸ hclock.updating, ?_, fun v hv => ?_⟩
  · rw [hupdating]
    exact hclock.acks
  · rw [acked_send htrading] at hv
    rw [order_send htrading fun heq => hunacked (heq ▸ hv)]
    exact hclock.responses v hv

theorem records_send (hunsent : w ∉ s.trading.sent)
    (hdelivered : s'.delivered = s.delivered)
    (hcounter : s'.trading.om.localID = s.trading.om.localID + 1)
    (hlocal : (s'.order w).localID = s.trading.om.localID + 1) :
    s'.Records := by
  obtain ⟨-, -, horders, hold⟩ := session_send hsession
  have horder := fun v => order_send (v := v) htrading
  have hsent := fun v => sent_send (v := v) htrading
  refine ⟨fun v hv => ?_, fun v hv v' hv' heq => ?_,
    fun v hv hnone hzero => ?_, fun n v hn => ?_, fun v hv => ?_⟩
  · rw [hcounter]
    by_cases hne : v = w
    · rw [hne, hlocal]
    · rw [horder v hne]
      exact Nat.le_succ_of_le (h.records.counted v (hsent v hv hne))
  · by_cases hne : v = w
    · by_cases hne' : v' = w
      · exact hne.trans hne'.symm
      · rw [hne, hlocal, horder v' hne'] at heq
        have hle := h.records.counted v' (hsent v' hv' hne')
        omega
    · by_cases hne' : v' = w
      · rw [hne', hlocal, horder v hne] at heq
        have hle := h.records.counted v (hsent v hv hne)
        omega
      · rw [horder v hne, horder v' hne'] at heq
        exact h.records.apart v (hsent v hv hne) v' (hsent v' hv' hne') heq
  · by_cases hne : v = w
    · -- it is on its way
      rw [hne] at hv hnone
      rcases hsession with ⟨-, hnot⟩ | ⟨due, e, hew, hst, -, heq⟩
      · exact absurd hv hnot
      · refine absurd hst (hnone (due, e) ?_ hew)
        rw [heq]
        exact List.mem_append_right _ (List.mem_singleton_self _)
    · rw [horders, horder v hne]
      exact h.records.recorded v (hsent v hv hne)
        (fun q hq => hnone q (hold q hq)) (hdelivered ▸ hzero)
  · rw [horders] at hn
    obtain ⟨hid, hv⟩ := h.records.record n v hn
    have hne : v ≠ w := fun heq => hunsent (heq ▸ hv)
    rw [horder v hne, htrading, Trading.mem_sent_send]
    exact ⟨hid, .inl hv⟩
  · rw [acked_send htrading] at hv
    rw [hdelivered]
    exact h.records.reported v hv

omit hsession in
theorem conserves_send (hunsent : w ∉ s.trading.sent)
    (hdelivered : s'.delivered = s.delivered)
    (hasserts : s'.asserts = s.asserts) : s'.Conserves := by
  have htaken : taken s.delivered w = 0 := (h.views w).manager.unsent hunsent
  refine ⟨?_, fun v => ?_, ?_, hasserts.trans h.conserves.asserts⟩
  · rw [hdelivered]
    exact h.conserves.positive
  · rw [hdelivered]
    by_cases hv : v = w
    · rw [hv, htaken]
      exact Nat.zero_le _
    · rw [order_send htrading hv]
      exact h.conserves.within v
  · rw [hdelivered]
    exact h.conserves.acknowledged

/-- An order was handed to `send`, with what became of it given. -/
theorem SimInv.send (hunsent : w ∉ s.trading.sent)
    (hdelivered : s'.delivered = s.delivered)
    (hupdating : s'.updating = s.updating) (hasserts : s'.asserts = s.asserts)
    (hcounter : s'.trading.om.localID = s.trading.om.localID + 1)
    (hlocal : (s'.order w).localID = s.trading.om.localID + 1)
    (hview : (s'.view w).Inv) : s'.SimInv where
  clock := clock_send h htrading hsession hunsent hupdating
  records :=
    records_send h htrading hsession hunsent hdelivered hcounter hlocal
  views := by
    intro v
    by_cases hv : v = w
    · rw [hv]
      exact hview
    · exact (h.views v).of_same (same_send htrading hsession hdelivered hv)
  conserves := conserves_send h htrading hunsent hdelivered hasserts

end Send

theorem simInv_send {s : L2Sim ω ι} (h : s.SimInv) {w : ω}
    {validated : Bool} (hsound : s.Sound (.send w validated)) :
    (s.step (.send w validated)).SimInv := by
  have hunsent : w ∉ s.trading.sent := h.not_sent hsound
  show (s.send w validated).SimInv
  unfold L2Sim.send
  dsimp only
  generalize ({ validated := validated
                sent := s.session.accepts (s.order w)
                sentTime := if s.session.accepts (s.order w)
                  then .ofNanos s.session.ts else (s.order w).sentTime
                clientOrderID := (s.order w).clientOrderID } :
    OrderManager.SendAnswer) = a
  rcases s.trading.om.send_spec w s.session.name a with
    ⟨hr, side, hacc⟩ | ⟨hr, href⟩
  · rw [hr]
    have horder : (s.trading.step (.send w s.session.name a)).om.order w
        = _ := (congrFun hacc.order w).trans (Function.update_self ..)
    have hsent : w ∈ (s.trading.step (.send w s.session.name a)).sent :=
      (Trading.mem_sent_send ..).mpr (.inr ⟨rfl, hr⟩)
    refine h.send rfl (.inr ⟨dueAt (s.session.ts + s.session.ackLatency) 0,
      ⟨.sent, w, _, 0, 0⟩, rfl, rfl, Nat.le_add_right _ _, rfl⟩) hunsent rfl
      rfl rfl hacc.localID (congrArg Order.localID horder) ?_
    have hinv := (h.views w).sent hunsent
      (o := { s.order w with
        localID := s.trading.om.localID + 1
        side := side
        session := some s.session.name
        sentTime := a.sentTime
        clientOrderID := a.clientOrderID
        state := .sent })
      (Order.validateBase_spec hacc.valid).2.2.1 rfl rfl rfl rfl
      (q := (dueAt (s.session.ts + s.session.ackLatency) 0,
        ⟨.sent, w, (s.session.indexMap (s.order w).instrument).getD 0, 0,
          0⟩)) rfl
    refine hinv.of_same ⟨horder, iff_of_true hsent trivial, .rfl, rfl, ?_,
      fun _ _ => .refl _⟩
    exact (same_emplace (s := s) (e := ⟨.sent, w,
      (s.session.indexMap (s.order w).instrument).getD 0, 0, 0⟩)).events
  · rw [hr]
    obtain ⟨o, ho, -, hlocal, hfilled, hcancelled, hopen, -⟩ := href.order
    have horder : (s.trading.step (.send w s.session.name a)).om.order w
        = o := (congrFun ho w).trans (Function.update_self ..)
    have hnot : w ∉ (s.trading.step (.send w s.session.name a)).sent := by
      rw [Trading.mem_sent_send, hr]
      rintro (hw | ⟨-, hw⟩)
      · exact hunsent hw
      · cases hw
    refine h.send rfl (.inl ⟨rfl, hnot⟩) hunsent rfl rfl rfl href.localID
      ((congrArg Order.localID horder).trans hlocal) ?_
    exact ((h.views w).withOrder hunsent hfilled hcancelled hopen).of_same
      ⟨horder, iff_of_false hnot hunsent, .rfl, rfl, .refl _,
        fun _ _ => .refl _⟩

-- ==================================================================== cancels

omit [DecidableEq ι] in
/-- A cancel request goes out for an order with something open, or nothing
changes. -/
theorem cancel_requested (om : OrderManager ω ι) (w : ω) (newqty : Nat)
    (a : OrderManager.CancelAnswer) :
    (om.cancel w newqty a).1 ≠ .requested ∧ (om.cancel w newqty a).2 = om
    ∨ (om.cancel w newqty a).1 = .requested ∧ (om.order w).openSize ≠ 0
      ∧ (om.cancel w newqty a).2.order = Function.update om.order w
        (OrderManager.pendingCancelOrder (om.order w) newqty a)
      ∧ (om.cancel w newqty a).2.localID = om.localID := by
  unfold OrderManager.cancel
  dsimp only
  split
  · exact .inl ⟨(fun h => by cases h), rfl⟩
  · split
    · exact .inl ⟨(fun h => by cases h), rfl⟩
    case isFalse hterminal =>
      split
      · exact .inl ⟨(fun h => by cases h), rfl⟩
      · split
        · exact .inr ⟨rfl, (Order.isTerminal_eq_false.mp
            (Bool.eq_false_iff.mpr hterminal)).1, rfl, rfl⟩
        · exact .inl ⟨(fun h => by cases h), rfl⟩

omit [DecidableEq ι] in
/-- The order manager changes an order, but neither its size nor its local
id nor the time of its last response. -/
theorem SimInv.withTrading {s : L2Sim ω ι} (h : s.SimInv)
    {t : Trading ω ι} {w : ω} {o : Order ι}
    (horder : t.om.order = Function.update s.trading.om.order w o)
    (hsent : t.sent = s.trading.sent) (hacked : t.acked = s.trading.acked)
    (hcounter : t.om.localID = s.trading.om.localID)
    (hsize : o.size = (s.order w).size)
    (hlocal : o.localID = (s.order w).localID)
    (hresponse : o.lastResponseTime = (s.order w).lastResponseTime)
    (hview : ((s.view w).withOrder o).Inv) :
    ({ s with trading := t } : L2Sim ω ι).SimInv := by
  have hself : ({ s with trading := t } : L2Sim ω ι).order w = o := by
    show t.om.order w = o
    rw [horder, Function.update_self]
  have hother : ∀ v, v ≠ w →
      ({ s with trading := t } : L2Sim ω ι).order v = s.order v := by
    intro v hv
    show t.om.order v = _
    rw [horder, Function.update_of_ne hv]
    rfl
  have hkeeps : ∀ v, (({ s with trading := t } : L2Sim ω ι).order v).size
      = (s.order v).size
      ∧ (({ s with trading := t } : L2Sim ω ι).order v).localID
        = (s.order v).localID
      ∧ (({ s with trading := t } : L2Sim ω ι).order v).lastResponseTime
        = (s.order v).lastResponseTime := by
    intro v
    by_cases hv : v = w
    · rw [hv, hself]
      exact ⟨hsize, hlocal, hresponse⟩
    · rw [hother v hv]
      exact ⟨rfl, rfl, rfl⟩
  refine ⟨⟨h.clock.due, h.clock.updating, h.clock.acks, fun v hv => ?_⟩,
    ⟨fun v hv => ?_, fun v hv v' hv' heq => ?_,
      fun v hv hnone hzero => ?_, fun n v hn => ?_, fun v hv => ?_⟩,
    fun v => ?_,
    ⟨h.conserves.positive, fun v => ?_, h.conserves.acknowledged,
      h.conserves.asserts⟩⟩
  · rw [(hkeeps v).2.2]
    exact h.clock.responses v (hacked ▸ hv)
  · rw [(hkeeps v).2.1]
    exact hcounter ▸ h.records.counted v (hsent ▸ hv)
  · rw [(hkeeps v).2.1, (hkeeps v').2.1] at heq
    exact h.records.apart v (hsent ▸ hv) v' (hsent ▸ hv') heq
  · rw [(hkeeps v).2.1]
    exact h.records.recorded v (hsent ▸ hv) hnone hzero
  · rw [(hkeeps v).2.1]
    obtain ⟨hid, hin⟩ := h.records.record n v hn
    exact ⟨hid, hsent.symm ▸ hin⟩
  · exact h.records.reported v (hacked ▸ hv)
  · have hiff : (v ∈ t.sent ↔ v ∈ s.trading.sent)
        ∧ (v ∈ t.acked ↔ v ∈ s.trading.acked) := by
      rw [hsent, hacked]
      exact ⟨.rfl, .rfl⟩
    by_cases hv : v = w
    · subst hv
      exact hview.of_same ⟨hself, hiff.1, hiff.2, rfl, .refl _,
        fun _ _ => .refl _⟩
    · exact (h.views v).of_same ⟨hother v hv, hiff.1, hiff.2, rfl, .refl _,
        fun _ _ => .refl _⟩
  · rw [(hkeeps v).1]
    exact h.conserves.within v

theorem simInv_cancel {s : L2Sim ω ι} (h : s.SimInv) {w : ω} {newqty : Nat} :
    (s.step (.cancel w newqty)).SimInv := by
  show (s.cancel w newqty).SimInv
  unfold L2Sim.cancel
  dsimp only
  generalize (⟨s.session.acceptsCancel (s.order w) newqty,
    .ofNanos s.session.ts⟩ : OrderManager.CancelAnswer) = a
  have hsame : ∀ {t : Trading ω ι}, t = s.trading →
      ({ s with trading := t } : L2Sim ω ι).SimInv := by
    rintro t rfl
    exact h
  rcases cancel_requested s.trading.om w newqty a with
    ⟨hr, heq⟩ | ⟨hr, hopen, horder, hcounter⟩
  · rw [if_neg hr]
    refine hsame ?_
    show { s.trading with om := (s.trading.om.cancel w newqty a).2 } = _
    rw [heq]
  · rw [if_pos hr]
    have hacked : w ∈ s.trading.acked := by
      by_contra hnot
      exact hopen ((h.views w).manager.unacked hnot)
    have hview := (h.views w).withState hacked
      (o := OrderManager.pendingCancelOrder (s.order w) newqty a)
      rfl rfl rfl (.inl rfl)
    have hpending := h.withTrading (t := s.trading.step (.cancel w newqty a))
      horder rfl rfl hcounter rfl rfl rfl hview
    refine hpending.emplace (Nat.le_add_right _ _) nofun ?_
    exact (hpending.views w).push_request hacked (.inl rfl) nofun

-- ==================================================================== packets

omit [DecidableEq ι] in
/-- A time of the session is as good as another as long as the clock goes
right. -/
theorem SimInv.withClock {s s' : L2Sim ω ι} (h : s.SimInv)
    (hsame : SameOrders { s.session with ts := s'.session.ts } s'.session)
    (htrading : s'.trading = s.trading)
    (hdelivered : s'.delivered = s.delivered)
    (hasserts : s'.asserts = s.asserts) (hclock : s'.Clock) :
    s'.SimInv := by
  obtain ⟨ss, t, up, delivered, asserts⟩ := s'
  obtain rfl : t = s.trading := htrading
  obtain rfl : delivered = s.delivered := hdelivered
  obtain rfl : asserts = s.asserts := hasserts
  have hrecords : (s.withSession ss).Records :=
    h.records.withSession hsame.orders
      fun q hq _ => hsame.eventq.symm ▸ hq
  refine ⟨hclock, { hrecords with }, fun w => ?_, { h.conserves with }⟩
  refine (h.views w).of_same ⟨rfl, .rfl, .rfl, rfl, .of_eq ?_,
    fun esi k => .of_eq ?_⟩
  · show ss.eventq.filter _ = s.session.eventq.filter _
    rw [hsame.eventq]
  · show entriesOf ((ss.books esi).orders k) w = _
    rw [hsame.books]
    rfl

theorem simInv_startOfData {s : L2Sim ω ι} (h : s.SimInv) {ts : Nat}
    (hpossible : s.Possible (.startOfData ts)) :
    (s.step (.startOfData ts)).SimInv := by
  obtain ⟨hup, hts⟩ := hpossible
  refine h.withClock ⟨rfl, rfl, rfl, rfl, fun _ _ => rfl⟩ rfl rfl rfl
    ⟨h.clock.due, ?_, fun q hq hst => ?_, h.clock.responses⟩
  · rintro ts' ⟨⟩
    exact hts
  · have hack := h.clock.acks q hq hst
    rw [hup] at hack
    refine lt_of_lt_of_le hack (Prod.Lex.toLex_le_toLex.mpr ?_)
    show s.session.ts + s.session.ackLatency < ts + s.session.ackLatency
      ∨ s.session.ts + s.session.ackLatency = ts + s.session.ackLatency
        ∧ 0 ≤ 0
    omega

theorem simInv_endOfUpdate {s : L2Sim ω ι} (h : s.SimInv)
    (hpossible : s.Possible .endOfUpdate) :
    (s.step .endOfUpdate).SimInv := by
  obtain ⟨ts, hup, hdone⟩ := hpossible
  have hstep : s.step .endOfUpdate
      = { s with session := { s.session with ts := ts }
                 updating := none } := by
    unfold step
    dsimp only
    rw [hup]
  rw [hstep]
  refine h.withClock ⟨rfl, rfl, rfl, rfl, fun _ _ => rfl⟩ rfl rfl rfl
    ⟨hdone, nofun, fun q hq hst => ?_, fun w hw => ?_⟩
  · have hack := h.clock.acks q hq hst
    rw [hup] at hack
    exact hack
  · obtain ⟨n, hn, heq⟩ := h.clock.responses w hw
    exact ⟨n, Nat.le_trans hn (h.clock.updating ts hup), heq⟩

-- ======================================================================= runs

/-- The step lemma. -/
theorem simInv_step {s : L2Sim ω ι} (h : s.SimInv) {i : Input ω ι}
    (hpossible : s.Possible i) (hsound : s.Sound i) : (s.step i).SimInv := by
  cases i with
  | send w validated => exact simInv_send h hsound
  | cancel w newqty => exact simInv_cancel h
  | startOfData ts => exact simInv_startOfData h hpossible
  | turn k view => exact simInv_turn h hpossible hsound
  | endOfUpdate => exact simInv_endOfUpdate h hpossible
  | symbolDefinition ticker esi =>
      exact h.same ⟨rfl, rfl, rfl, rfl, fun _ _ => rfl⟩
  | market ts esi e => exact simInv_onMarketEvent h hpossible hsound

omit [DecidableEq ι] in
/-- Nothing was sent yet. -/
theorem simInv_start (c : OrderManagerConf ω ι) (name : Bytes)
    (mic : SimMarket) (ackLatency cxlLatency : Nat)
    (imbalanceOnly : ω → Bool) :
    (start c (.create name mic ackLatency cxlLatency
      imbalanceOnly)).SimInv := by
  obtain ⟨sessions, records, hstart, -⟩ := OrderManager.start_frame c
  have horder : ∀ w, (start c (L2SimSession.create name mic ackLatency
      cxlLatency imbalanceOnly)).order w = Order.create (c.params w) := by
    intro w
    show (OrderManager.start c).order w = _
    rw [hstart]
    rfl
  refine ⟨⟨nofun, nofun, nofun, nofun⟩, ⟨nofun, nofun, nofun, nofun, nofun⟩,
    fun w => ?_, ⟨nofun, fun _ => Nat.zero_le _, ?_, rfl⟩⟩
  · refine ⟨⟨nofun, Nat.zero_le _, ?_, nofun, nofun, nofun,
      fun _ _ => Nat.zero_le 1, fun _ _ _ _ hne => absurd rfl hne⟩,
      ⟨fun hne => absurd rfl hne, fun _ _ hne => absurd rfl hne, nofun,
        nofun, Nat.zero_le 1, nofun, fun _ _ hne => absurd rfl hne, nofun,
        Nat.zero_le 1, nofun⟩,
      ⟨nofun, nofun, fun _ => rfl, fun _ => ?_, nofun, nofun, nofun,
        nofun⟩⟩
    · show ((start c _).order w).filledSize + ((start c _).order w
        ).cancelledSize = 0
      rw [horder]
      rfl
    · show ((start c _).order w).openSize = 0
      rw [horder]
      rfl
  · intro before e after hsplit
    cases before <;> cases hsplit

/-- The simulated exchange conserves orders, as long as fills have a size,
cancels come after acknowledgments, auctions find whole orders and cancel
requests are answered one at a time. -/
theorem orders_conserved (c : OrderManagerConf ω ι) (name : Bytes)
    (mic : SimMarket) (ackLatency cxlLatency : Nat)
    (imbalanceOnly : ω → Bool) {is : List (Input ω ι)}
    (hpossible : Lib.Admits step Possible (start c (.create name mic
      ackLatency cxlLatency imbalanceOnly)) is)
    (hsound : Lib.Admits step Sound (start c (.create name mic ackLatency
      cxlLatency imbalanceOnly)) is) :
    Conserves (Lib.run step (start c (.create name mic ackLatency cxlLatency
      imbalanceOnly)) is) := by
  have hadm := Lib.admits_and.mpr ⟨hpossible, hsound⟩
  exact (Lib.run_invariant (I := SimInv)
    (fun _ _ h hok => simInv_step h hok.1 hok.2)
    (simInv_start c name mic ackLatency cxlLatency imbalanceOnly)
    hadm).conserves

/-- A plain order of the instrument. -/
def demoParams (size : Nat) (type : OrderType) : OrderParams Nat :=
  { OrderParams.dayLimit 0 .buy size 10 with type := type }

/-- A book with this offer, and no bid. -/
def demoView (price : MD.Price) (size : UInt32) : BookView where
  best := ⟨⟨0, 0, 0⟩, ⟨price, size, 1⟩⟩
  l2Bid := fun _ => 0
  l2Ask := fun _ => 0

/-- An empty book: `EMPTY_ASK_PRICE`, and no size. -/
def noOffer : BookView := demoView 18446744073709551615 0

/-- The symbol is known, its book is there, and the order is sent. -/
def demoSend : List (Input Nat Nat) :=
  [.startOfData 1, .endOfUpdate, .symbolDefinition 0 0,
    .market 1 0 (.bookAdded .buy 0 0), .send 0 true, .startOfData 10]

/-- Ten bought of an offer of four, and the rest cancelled. -/
theorem orders_conserved_demo :
    Conserves (Lib.run step (start (.plain fun _ : Nat =>
        demoParams 10 .market) (.create [66] .xnas 1 1 fun _ => false))
      (demoSend ++ [.turn 0 (demoView 90000 4), .turn 0 noOffer,
        .turn 0 noOffer, .turn 0 noOffer, .endOfUpdate])) :=
  orders_conserved _ _ _ _ _ _ (by decide +kernel) (by decide +kernel)

/-- A market order that arrives while nothing is offered is filled with a
size of zero. -/
theorem market_order_fills_nothing :
    ¬ ∀ (c : OrderManagerConf Nat Nat) (name : Bytes) (mic : SimMarket)
      (ackLatency cxlLatency : Nat) (imbalanceOnly : Nat → Bool)
      (is : List (Input Nat Nat)),
      Lib.Admits step Possible (start c (.create name mic ackLatency
        cxlLatency imbalanceOnly)) is →
      Conserves (Lib.run step (start c (.create name mic ackLatency
        cxlLatency imbalanceOnly)) is) := by
  intro h
  have hrun := h (.plain fun _ => demoParams 10 .market) [66] .xnas 1 1
    (fun _ => false)
    (demoSend ++ [.turn 0 noOffer, .turn 0 noOffer, .turn 0 noOffer,
      .turn 0 noOffer, .endOfUpdate])
    (by decide +kernel)
  have hfilled : ∃ e ∈ (Lib.run step (start (.plain fun _ : Nat =>
      demoParams 10 .market) (.create [66] .xnas 1 1 fun _ => false))
      (demoSend ++ [.turn 0 noOffer, .turn 0 noOffer, .turn 0 noOffer,
        .turn 0 noOffer, .endOfUpdate])).delivered,
      e.state = .filled ∧ e.size = 0 := by
    decide +kernel
  obtain ⟨e, he, hstate, hsize⟩ := hfilled
  exact absurd (hrun.positive e he (.inl hstate)) (by omega)

end L2Sim

end TradingEngine.OE
