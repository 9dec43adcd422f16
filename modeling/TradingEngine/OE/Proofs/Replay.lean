/-
The order log rebuilds the order manager.

Two implementations of every event meet here: the live handler, which
writes a record, and the replay handler, which reads it. `Mirrors` relates
the live day to the replaying order manager: same local id, same book, and
for every order that was sent and not destroyed an entry at its local id
that looks the same. Each operation writes at most one record, and reading
that record keeps `Mirrors` (`journaled_step`); the rest is
`Lib.recovered_run`.

# What is not compared

Locates are not given back in replay, breakers and the mode follow the
operations and not the log, and an order's own times, ids and cancel
quantities are not restored. `OrderView` and `Book` leave these out.
-/
import TradingEngine.OE.Trading
import TradingEngine.OE.Proofs.Reader
import TradingEngine.Lib.Journal

namespace TradingEngine.OE

variable {ω ι : Type}

-- ============================================================ the live day

variable [DecidableEq ω] [DecidableEq ι]

/-- What the live day keeps about orders and their local ids. -/
structure LoggedInv (c : OrderManagerConf ω ι) (t : Trading ω ι) :
    Prop where
  sent_seen : t.sent ⊆ t.seen
  fresh : ∀ w ∉ t.seen, t.om.order w = Order.create (c.params w)
  numbered : ∀ w ∈ t.seen, 0 < (t.om.order w).localID
    ∧ (t.om.order w).localID ≤ t.om.localID
  distinct : ∀ w ∈ t.seen, ∀ v ∈ t.seen,
    (t.om.order w).localID = (t.om.order v).localID → w = v
  sessions : t.om.sessions = (OrderManager.start c).sessions
  /-- A refused order never leaves its state. -/
  refused : ∀ w ∈ t.seen, w ∉ t.sent →
    (t.om.order w).state = .locallyRejected

/-- Sent orders have local ids, each its own. -/
structure Placed (t : Trading ω ι) : Prop where
  numbered : ∀ w ∈ t.sent, (t.om.order w).localID ≤ t.om.localID
  distinct : ∀ w ∈ t.sent, ∀ v ∈ t.sent,
    (t.om.order w).localID = (t.om.order v).localID → w = v

omit [DecidableEq ω] [DecidableEq ι] in
theorem LoggedInv.placed {c : OrderManagerConf ω ι} {t : Trading ω ι}
    (h : LoggedInv c t) : Placed t :=
  ⟨fun w hw => (h.numbered w (h.sent_seen hw)).2,
    fun w hw v hv => h.distinct w (h.sent_seen hw) v (h.sent_seen hv)⟩

/-- The replaying order manager looks like the live day. -/
structure Mirrors (t : Trading ω ι) (r : OrderManager ℕ ι) : Prop where
  localID : r.localID = t.om.localID
  aligned : r.Aligned
  sessions : r.sessions = t.om.sessions
  book : r.book = t.om.book
  order : ∀ w ∈ t.sent, w ∉ t.destroyed →
    r.orderAt (t.om.order w).localID = some (t.om.order w).localID
    ∧ (r.order (t.om.order w).localID).view = (t.om.order w).view
  /-- There is nothing else in `m_orders`. -/
  only : ∀ l p, r.orderAt l = some p →
    ∃ w ∈ t.sent, w ∉ t.destroyed ∧ (t.om.order w).localID = l

omit [DecidableEq ι] in
/-- An event that writes one sent order. -/
theorem LoggedInv.touch {c : OrderManagerConf ω ι} {t t' : Trading ω ι}
    (h : LoggedInv c t) {w : ω} {o : Order ι} (hw : w ∈ t.sent)
    (hseen : t'.seen = t.seen) (hsent : t'.sent = t.sent)
    (hid : t'.om.localID = t.om.localID)
    (hsessions : t'.om.sessions = t.om.sessions)
    (horder : t'.om.order = Function.update t.om.order w o)
    (hlid : o.localID = (t.om.order w).localID) : LoggedInv c t' := by
  have hids : ∀ v, (t'.om.order v).localID = (t.om.order v).localID := by
    intro v
    rw [horder]
    by_cases hv : v = w
    · subst hv
      rw [Function.update_self, hlid]
    · rw [Function.update_of_ne hv]
  have hother : ∀ v, v ≠ w → t'.om.order v = t.om.order v := by
    intro v hv
    rw [horder, Function.update_of_ne hv]
  refine ⟨?_, fun v hv => ?_, fun v hv => ?_, fun v hv u hu he => ?_,
    hsessions.trans h.sessions, fun v hv hnot => ?_⟩
  · rw [hsent, hseen]
    exact h.sent_seen
  · rw [hseen] at hv
    have hne : v ≠ w := by
      rintro rfl
      exact hv (h.sent_seen hw)
    rw [hother v hne]
    exact h.fresh v hv
  · rw [hseen] at hv
    rw [hids, hid]
    exact h.numbered v hv
  · rw [hseen] at hv hu
    rw [hids, hids] at he
    exact h.distinct v hv u hu he
  · rw [hseen] at hv
    rw [hsent] at hnot
    have hne : v ≠ w := fun he => hnot (he ▸ hw)
    rw [hother v hne]
    exact h.refused v hv hnot

omit [DecidableEq ι] in
/-- The same event on both sides: one order written, and the book moved
alike. -/
theorem Mirrors.touch {t t' : Trading ω ι} {r r' : OrderManager ℕ ι}
    (hinv : Placed t) (h : Mirrors t r) {w : ω} {o o' : Order ι}
    (hw : w ∈ t.sent)
    (hsent : t'.sent = t.sent) (hdestroyed : t'.destroyed = t.destroyed)
    (hid : t'.om.localID = t.om.localID)
    (hsessions : t'.om.sessions = t.om.sessions)
    (horder : t'.om.order = Function.update t.om.order w o)
    (hlid : o.localID = (t.om.order w).localID)
    (hid' : r'.localID = r.localID) (horders' : r'.orders = r.orders)
    (hsessions' : r'.sessions = r.sessions)
    (horder' : r'.order
      = Function.update r.order (t.om.order w).localID o')
    (hview : o'.view = o.view) (hbook : r'.book = t'.om.book) :
    Mirrors t' r' := by
  have hids : ∀ v, (t'.om.order v).localID = (t.om.order v).localID := by
    intro v
    rw [horder]
    by_cases hv : v = w
    · subst hv
      rw [Function.update_self, hlid]
    · rw [Function.update_of_ne hv]
  have hat : ∀ l, r'.orderAt l = r.orderAt l := by
    intro l
    unfold OrderManager.orderAt
    rw [horders']
  refine ⟨?_, ?_, ?_, hbook, fun v hv hnot => ?_, fun l p hp => ?_⟩
  · rw [hid', hid]
    exact h.localID
  · unfold OrderManager.Aligned
    rw [horders', hid']
    exact h.aligned
  · rw [hsessions', hsessions]
    exact h.sessions
  · rw [hsent] at hv
    rw [hdestroyed] at hnot
    obtain ⟨hentry, hlook⟩ := h.order v hv hnot
    rw [hids, hat]
    refine ⟨hentry, ?_⟩
    by_cases hv' : v = w
    · subst hv'
      rw [horder', horder, Function.update_self, Function.update_self]
      exact hview
    · have hne : (t.om.order v).localID ≠ (t.om.order w).localID := by
        intro he
        exact hv' (hinv.distinct v hv w hw he)
      rw [horder', horder, Function.update_of_ne hne,
        Function.update_of_ne hv']
      exact hlook
  · rw [hat] at hp
    obtain ⟨v, hv, hnot, hl⟩ := h.only l p hp
    exact ⟨v, hsent ▸ hv, hdestroyed ▸ hnot, (hids v).trans hl⟩

-- =================================================================== sends

theorem loggedInv_send {c : OrderManagerConf ω ι} {t : Trading ω ι}
    (h : LoggedInv c t) {w : ω} (hw : w ∉ t.seen) (session : Bytes)
    (a : OrderManager.SendAnswer) :
    LoggedInv c (t.step (.send w session a)) := by
  obtain ⟨o, hw'⟩ := t.om.send_writes w session a
  have hself : (t.step (.send w session a)).om.order w = o := by
    show (t.om.send w session a).2.order w = o
    rw [hw'.order, Function.update_self]
  have hother : ∀ v, v ≠ w →
      (t.step (.send w session a)).om.order v = t.om.order v :=
    fun v hv => t.step_order_of_ne (Ne.symm hv)
  have hseen : ∀ v, v ∈ (t.step (.send w session a)).seen ↔
      v = w ∨ v ∈ t.seen := fun v => Finset.mem_insert
  have hold : ∀ v ∈ t.seen, v ≠ w := fun v hv he => hw (he ▸ hv)
  refine ⟨fun v hv => ?_, fun v hv => ?_, fun v hv => ?_,
    fun v hv u hu he => ?_, hw'.sessions.trans h.sessions,
    fun v hv hnot => ?_⟩
  · rw [hseen]
    rcases (t.mem_sent_send w session a v).mp hv with hv | ⟨rfl, -⟩
    · exact .inr (h.sent_seen hv)
    · exact .inl rfl
  · rw [hseen, not_or] at hv
    rw [hother v hv.1]
    exact h.fresh v hv.2
  · show _ ∧ _ ≤ (t.om.send w session a).2.localID
    rw [hw'.counter]
    rcases (hseen v).mp hv with rfl | hv
    · rw [hself, hw'.localID]
      omega
    · rw [hother v (hold v hv)]
      have := h.numbered v hv
      omega
  · by_cases hv' : v = w <;> by_cases hu' : u = w
    · exact hv'.trans hu'.symm
    · have hmem := ((hseen u).mp hu).resolve_left hu'
      have := h.numbered u hmem
      rw [hv', hself, hother u hu', hw'.localID] at he
      omega
    · have hmem := ((hseen v).mp hv).resolve_left hv'
      have := h.numbered v hmem
      rw [hu', hself, hother v hv', hw'.localID] at he
      omega
    · have hmemv := ((hseen v).mp hv).resolve_left hv'
      have hmemu := ((hseen u).mp hu).resolve_left hu'
      rw [hother v hv', hother u hu'] at he
      exact h.distinct v hmemv u hmemu he
  · rw [t.mem_sent_send, not_or] at hnot
    rcases (hseen v).mp hv with rfl | hv
    · have hr : (t.om.send v session a).1 = false :=
        Bool.eq_false_iff.mpr fun hr => hnot.2 ⟨rfl, hr⟩
      rw [hself, hw'.state, hr]
      rfl
    · rw [hother v (hold v hv)]
      exact h.refused v hv hnot.1

/-- The record of an accepted order creates it on the other side. -/
theorem journaled_sent {c : OrderManagerConf ω ι} {t : Trading ω ι}
    {create : CreateReplayOrder ι} (hinv : LoggedInv c t)
    (hcreate : create.Faithful t.om.sessions) {w : ω}
    (hw : w ∉ t.seen) (hkept : w ∉ t.destroyed) {session : Bytes}
    {a : OrderManager.SendAnswer}
    (hreg : (session, (t.om.order w).market) ∈ t.om.sessions)
    (hname : NameOk session)
    {side : Side}
    (hacc : t.om.SendAccepted w session a (t.om.send w session a).2 side)
    (hr : (t.om.send w session a).1 = true) {r : OrderManager ℕ ι}
    (h : Mirrors t r) :
    Mirrors (t.step (.send w session a)) (OrderManager.decode create r
      (logOrderSent ((t.om.send w session a).2.order w))) := by
  let o := (t.om.send w session a).2.order w
  have ho : o = { t.om.order w with
      localID := t.om.localID + 1
      side := side
      session := some session
      sentTime := a.sentTime
      clientOrderID := a.clientOrderID
      state := .sent } := by
    show (t.om.send w session a).2.order w = _
    rw [hacc.order, Function.update_self]
  have hfresh : t.om.order w = Order.create (c.params w) :=
    hinv.fresh w hw
  have hlid : o.localID = t.om.localID + 1 := by rw [ho]
  have hprice : o.price = o.originalPrice := by
    rw [ho, hfresh]
    rfl
  have huntouched : o.filledSize = 0 ∧ o.openSize = 0 ∧ o.cancelledSize = 0
      ∧ o.totalValuePaid = 0 := by
    rw [ho, hfresh]
    exact ⟨rfl, rfl, rfl, rfl⟩
  rw [← h.sessions] at hreg hcreate
  have hnew : r.localID < o.localID := by
    rw [hlid, h.localID]
    exact Nat.lt_succ_self _
  have hsession : o.session = some session := by rw [ho]
  obtain ⟨o', hadopt, hview⟩ := OrderManager.decode_logOrderSent h.aligned
    hnew hsession hname (by rw [ho]; exact hreg) hcreate hprice huntouched
    (by rw [ho])
  have hself : (t.step (.send w session a)).om.order w = o := rfl
  have hother : ∀ v, v ≠ w →
      (t.step (.send w session a)).om.order v = t.om.order v := by
    intro v hv
    show (t.om.send w session a).2.order v = _
    rw [hacc.order, Function.update_of_ne hv]
  have hsentOld : ∀ v ∈ t.sent, v ≠ w ∧ (t.om.order v).localID
      ≠ o.localID := by
    intro v hv
    have hseen := hinv.sent_seen hv
    have hnum := hinv.numbered v hseen
    exact ⟨fun he => hw (he ▸ hseen), by omega⟩
  refine ⟨?_, hadopt.aligned, ?_, ?_, fun v hv hnot => ?_, fun l p hp => ?_⟩
  · rw [hadopt.localID, hlid]
    exact hacc.localID.symm
  · rw [hadopt.sessions, h.sessions]
    exact hacc.sessions.symm
  · rw [hadopt.book, h.book]
    refine Eq.trans ?_ hacc.book.symm
    have h1 := congrArg OrderView.instrument hview
    have h2 := congrArg OrderView.side hview
    have h3 := congrArg OrderView.price hview
    have h4 := congrArg OrderView.size hview
    simp only [Order.view] at h1 h2 h3 h4
    rw [h1, h2, h3, h4, ho]
  · rcases (t.mem_sent_send w session a v).mp hv with hv | ⟨rfl, -⟩
    · obtain ⟨hne, hid⟩ := hsentOld v hv
      rw [hother v hne, hadopt.orderAt, if_neg hid, hadopt.order,
        Function.update_of_ne hid]
      exact h.order v hv hnot
    · rw [hself]
      rw [hadopt.orderAt, if_pos rfl, hadopt.order, Function.update_self]
      exact ⟨rfl, hview⟩
  · rw [hadopt.orderAt] at hp
    by_cases hl : l = o.localID
    · refine ⟨w, (t.mem_sent_send w session a w).mpr (.inr ⟨rfl, hr⟩),
        hkept, ?_⟩
      rw [hself, hl]
    · rw [if_neg hl] at hp
      obtain ⟨v, hv, hnot, hid⟩ := h.only l p hp
      refine ⟨v, (t.mem_sent_send w session a v).mpr (.inl hv), hnot, ?_⟩
      rw [hother v (hsentOld v hv).1]
      exact hid

/-- A refused order only takes its local id along. -/
theorem journaled_refused {c : OrderManagerConf ω ι} {t : Trading ω ι}
    (create : CreateReplayOrder ι) (hinv : LoggedInv c t) {w : ω}
    (hw : w ∉ t.seen) {session : Bytes} {a : OrderManager.SendAnswer}
    (href : t.om.SendRefused w (t.om.send w session a).2)
    (hr : (t.om.send w session a).1 = false) {r : OrderManager ℕ ι}
    (h : Mirrors t r) :
    Mirrors (t.step (.send w session a)) (OrderManager.decode create r
      (logLocalReject ((t.om.send w session a).2.order w))) := by
  let o := (t.om.send w session a).2.order w
  obtain ⟨o', horder, -, hlid, -⟩ := href.order
  have ho : o = o' := by
    show (t.om.send w session a).2.order w = o'
    rw [horder, Function.update_self]
  have hid : o.localID = t.om.localID + 1 := by
    show o.localID = _
    rw [ho, hlid]
  obtain ⟨-, hext⟩ :=
    OrderManager.extendLocalIDHelper_spec h.aligned (newOrderBody o).oid
  have hsent : ∀ v, v ∈ (t.step (.send w session a)).sent ↔ v ∈ t.sent := by
    intro v
    rw [t.mem_sent_send, hr]
    simp
  have hother : ∀ v ∈ t.sent,
      (t.step (.send w session a)).om.order v = t.om.order v := by
    intro v hv
    have hne : v ≠ w := fun he => hw (he ▸ hinv.sent_seen hv)
    show (t.om.send w session a).2.order v = _
    rw [horder, Function.update_of_ne hne]
  show Mirrors _ (r.extendLocalIDHelper (newOrderBody o).oid).2
  refine ⟨?_, hext.aligned, ?_, ?_, fun v hv hnot => ?_, fun l p hp => ?_⟩
  · have hmax : (r.extendLocalIDHelper (newOrderBody o).oid).2.localID
        = max r.localID o.localID := hext.localID
    have hsame := h.localID
    show _ = (t.om.send w session a).2.localID
    rw [href.localID]
    omega
  · rw [hext.sessions, h.sessions]
    exact href.sessions.symm
  · show Desk.book _ = (t.om.send w session a).2.book
    rw [hext.desk, href.book]
    exact h.book
  · rw [hsent] at hv
    rw [hother v hv, hext.orderAt, hext.order]
    exact h.order v hv hnot
  · rw [hext.orderAt] at hp
    obtain ⟨v, hv, hnot, hl⟩ := h.only l p hp
    exact ⟨v, (hsent v).mpr hv, hnot, (hother v hv) ▸ hl⟩

-- ============================================================ one order

omit [DecidableEq ω] [DecidableEq ι] in
/-- A record of a sent order finds its entry. -/
theorem Mirrors.onLogOrder {t : Trading ω ι} {r : OrderManager ℕ ι}
    (hinv : Placed t) (h : Mirrors t r) {w : ω} (hw : w ∈ t.sent)
    (hkept : w ∉ t.destroyed) {oid : OrderIdentifier}
    (hoid : oid.localID = (t.om.order w).localID)
    (update : OrderManager ℕ ι → ℕ → OrderManager ℕ ι) :
    r.onLogOrder oid update = update r (t.om.order w).localID := by
  have hle := hinv.numbered w hw
  rw [OrderManager.onLogOrder_known (by rw [hoid, h.localID]; exact hle),
    hoid, (h.order w hw hkept).1]

omit [DecidableEq ι] in
/-- An order that could be cancelled was sent. -/
theorem LoggedInv.sent_of_not_terminal {c : OrderManagerConf ω ι}
    {t : Trading ω ι} (h : LoggedInv c t) {w : ω}
    (hsession : (t.om.order w).session ≠ none)
    (hterm : (t.om.order w).isTerminal = false) : w ∈ t.sent := by
  by_contra hnot
  by_cases hseen : w ∈ t.seen
  · obtain ⟨-, hfinal⟩ := Order.isTerminal_eq_false.mp hterm
    rw [h.refused w hseen hnot] at hfinal
    cases hfinal
  · rw [h.fresh w hseen] at hsession
    exact hsession rfl

section Events

variable {t : Trading ω ι} {r : OrderManager ℕ ι} {w : ω}
  (create : CreateReplayOrder ι)

theorem Mirrors.pendingCancel (hinv : Placed t) (h : Mirrors t r)
    (hw : w ∈ t.sent) (hkept : w ∉ t.destroyed) {newqty : Nat}
    {a : OrderManager.CancelAnswer}
    (heq : (t.om.cancel w newqty a).2
      = (t.om.setOrder w (OrderManager.pendingCancelOrder (t.om.order w)
          newqty a)).append (logPendingCancel
            (OrderManager.pendingCancelOrder (t.om.order w) newqty a)
            newqty)) :
    Mirrors (t.step (.cancel w newqty a)) (OrderManager.decode create r
      (logPendingCancel
        (OrderManager.pendingCancelOrder (t.om.order w) newqty a)
        newqty)) := by
  show Mirrors { t with om := (t.om.cancel w newqty a).2 }
    (r.onLogPendingCancel _)
  rw [heq]
  unfold OrderManager.onLogPendingCancel
  rw [h.onLogOrder hinv hw hkept rfl]
  exact h.touch hinv hw rfl rfl rfl rfl rfl rfl rfl rfl rfl rfl
    (Order.view_state (h.order w hw hkept).2 .pendingCancel) h.book

theorem Mirrors.acknowledged (hinv : Placed t) (h : Mirrors t r)
    (hw : w ∈ t.sent) (hkept : w ∉ t.destroyed) (exchangeID size : Nat)
    (ts : Timestamp) (exts : Nat) :
    Mirrors (t.step (.acknowledged w exchangeID size ts exts))
      (OrderManager.decode create r (logAcknowledged
        ((t.om.applyAcknowledged w exchangeID size ts exts).order w))) := by
  let o := orderUpdateOnAck (t.om.order w) exchangeID size ts exts
  have ho : (t.om.applyAcknowledged w exchangeID size ts exts).order w = o :=
    Function.update_self ..
  rw [ho]
  show Mirrors _ (r.onLogAcknowledged ts ⟨orderIdentifier o, size, exts⟩)
  unfold OrderManager.onLogAcknowledged
  rw [h.onLogOrder hinv hw hkept rfl]
  exact h.touch hinv hw rfl rfl rfl rfl rfl rfl rfl rfl rfl rfl
    (Order.view_ack (h.order w hw hkept).2 ..) h.book

theorem Mirrors.rejected (hinv : Placed t) (h : Mirrors t r)
    (hw : w ∈ t.sent) (hkept : w ∉ t.destroyed) (ts : Timestamp)
    (exts : Nat) :
    Mirrors (t.step (.rejected w ts exts))
      (OrderManager.decode create r
        (logRejected ((t.om.applyRejected w ts exts).order w))) := by
  let o := orderUpdateOnReject (t.om.order w) ts exts
  have ho : (t.om.applyRejected w ts exts).order w = o :=
    Function.update_self ..
  have hview := (h.order w hw hkept).2
  rw [ho]
  show Mirrors _ (r.onLogRejected ts ⟨orderIdentifier o, exts⟩)
  unfold OrderManager.onLogRejected
  rw [h.onLogOrder hinv hw hkept rfl]
  refine h.touch hinv hw rfl rfl rfl rfl rfl rfl rfl rfl rfl rfl
    (Order.view_reject hview ..) ?_
  have hsize : (r.order (t.om.order w).localID).size
      = (t.om.order w).size := congrArg OrderView.size hview
  show (r.desk.onOrderRemoves _ (r.order (t.om.order w).localID).size).book
    = (t.om.desk.onOrderRemoves o (t.om.order w).size).book
  rw [hsize]
  exact Desk.book_onOrderRemoves_congr h.book
    (Order.view_reject hview ..) _

theorem Mirrors.filled (hinv : Placed t) (h : Mirrors t r)
    (hw : w ∈ t.sent) (hkept : w ∉ t.destroyed) (size : Nat) (price : Rat)
    (ts : Timestamp) (exts : Nat) (feeCode : FillFeeCode) :
    Mirrors (t.step (.fill w size price ts exts feeCode))
      (OrderManager.decode create r (logFilled
        ((t.om.applyFill w size price ts exts feeCode).order w) size price
        feeCode)) := by
  let o := orderUpdateOnFill (t.om.order w) size price ts exts feeCode
  let b : OrderFillBody := ⟨orderIdentifier o, size, price, feeCode, exts⟩
  have ho : (t.om.applyFill w size price ts exts feeCode).order w = o :=
    Function.update_self ..
  have hview := (h.order w hw hkept).2
  rw [ho]
  -- both record types lead to the same handler
  have hdecode : OrderManager.decode create r
      (logFilled o size price feeCode)
        = r.onLogFilled ts (decide (o.state ≠ .filled)) b := by
    unfold logFilled
    by_cases hs : o.state = .filled
    · rw [if_pos hs, decide_eq_false (fun hn => hn hs)]
      rfl
    · rw [if_neg hs, decide_eq_true hs]
      rfl
  rw [hdecode]
  unfold OrderManager.onLogFilled
  rw [h.onLogOrder hinv hw hkept rfl]
  refine h.touch hinv hw rfl rfl rfl rfl rfl rfl rfl rfl rfl rfl
    (Order.view_fill hview ..) ?_
  show (r.desk.onOrderFill _ size price _).book
    = (Desk.onOrderFill _ o size price _).book
  rw [Desk.book_onOrderFill_congr (h.book.trans (Desk.book_locates _
    (sansLocates_recycleOnFill ..)).symm) (Order.view_fill hview ..)]
  rfl

theorem Mirrors.cancelled (hinv : Placed t) (h : Mirrors t r)
    (hw : w ∈ t.sent) (hkept : w ∉ t.destroyed) (size : Nat)
    (ts : Timestamp) (exts : Nat) :
    Mirrors (t.step (.cancelled w size ts exts))
      (OrderManager.decode create r (logCancelled
        ((t.om.applyCancel w size ts exts).order w) size)) := by
  let o := orderUpdateOnCancel (t.om.order w) size ts exts
  have ho : (t.om.applyCancel w size ts exts).order w = o :=
    Function.update_self ..
  have hview := (h.order w hw hkept).2
  have htimes : o.localID = (t.om.order w).localID
      ∧ o.lastResponseTime = ts ∧ o.lastExchangeTime = exts := by
    simp only [o, orderUpdateOnCancel_eq, and_self]
  obtain ⟨hlid, hts, hexts⟩ := htimes
  rw [ho]
  unfold logCancelled
  rw [hts, hexts]
  show Mirrors _ (r.onLogCancelled ts ⟨orderIdentifier o, size, exts⟩)
  unfold OrderManager.onLogCancelled
  rw [h.onLogOrder hinv hw hkept hlid]
  refine h.touch hinv hw rfl rfl rfl rfl rfl hlid rfl rfl rfl rfl
    (Order.view_cancel hview ..) ?_
  exact Desk.book_onOrderRemoves_congr (h.book.trans (Desk.book_locates _
    (sansLocates_recycleOnCancel ..)).symm) (Order.view_cancel hview ..) _

theorem Mirrors.cancelRejected (hinv : Placed t) (h : Mirrors t r)
    (hw : w ∈ t.sent) (hkept : w ∉ t.destroyed) (ts : Timestamp)
    (exts : Nat) :
    Mirrors (t.step (.cancelRejected w ts exts))
      (OrderManager.decode create r (logCancelRejected
        ((t.om.applyCancelRejected w ts exts).order w))) := by
  let o := orderUpdateOnCancelRejected (t.om.order w) ts exts
  have ho : (t.om.applyCancelRejected w ts exts).order w = o :=
    Function.update_self ..
  rw [ho]
  show Mirrors _ (r.onLogCancelRejected ts ⟨orderIdentifier o, exts⟩)
  unfold OrderManager.onLogCancelRejected
  rw [h.onLogOrder hinv hw hkept rfl]
  exact h.touch hinv hw rfl rfl rfl rfl rfl rfl rfl rfl rfl rfl
    (Order.view_state (h.order w hw hkept).2 .cancelRejected) h.book

/-- Reading the record of an event does on the other side what the event
did. -/
theorem Mirrors.report (hinv : Placed t) (h : Mirrors t r) {e : Event ω}
    (he : e.reportOn = some w) (hw : w ∈ t.sent) (hkept : w ∉ t.destroyed) :
    Mirrors (t.step e) (r.replay create ((t.om.update e).record e)) := by
  cases e with
  | send v session a => cases he
  | cancel v newqty a => cases he
  | destroy v onlyIfTerminal sessionDestroys => cases he
  | acknowledged v exchangeID size ts exts =>
      obtain rfl := Option.some.inj he
      exact h.acknowledged create hinv hw hkept exchangeID size ts exts
  | rejected v ts exts =>
      obtain rfl := Option.some.inj he
      exact h.rejected create hinv hw hkept ts exts
  | fill v size price ts exts feeCode =>
      obtain rfl := Option.some.inj he
      exact h.filled create hinv hw hkept size price ts exts feeCode
  | cancelled v size ts exts =>
      obtain rfl := Option.some.inj he
      exact h.cancelled create hinv hw hkept size ts exts
  | cancelRejected v ts exts =>
      obtain rfl := Option.some.inj he
      exact h.cancelRejected create hinv hw hkept ts exts

end Events

-- ================================================================= destroy

omit [DecidableEq ω] [DecidableEq ι] in
/-- A destroy record empties the entry. -/
theorem OrderManager.onLogDestroy_spec {om : OrderManager ℕ ι}
    (h : om.Aligned) {b : OrderDestroyBody}
    (hle : b.oid.localID ≤ om.localID) :
    (om.onLogDestroy b).localID = om.localID
      ∧ (om.onLogDestroy b).Aligned
      ∧ (∀ l, (om.onLogDestroy b).orderAt l
          = if l = b.oid.localID then none else om.orderAt l)
      ∧ (om.onLogDestroy b).order = om.order
      ∧ (om.onLogDestroy b).desk = om.desk
      ∧ (om.onLogDestroy b).sessions = om.sessions := by
  have hlt : b.oid.localID < om.orders.length := by
    unfold Aligned at h
    omega
  unfold onLogDestroy
  rw [onLogOrder_known hle]
  cases hat : om.orderAt b.oid.localID with
  | none =>
      refine ⟨rfl, h, fun l => ?_, rfl, rfl, rfl⟩
      show om.orderAt l = _
      split
      case isTrue hl => rw [hl, hat]
      case isFalse => rfl
  | some p =>
      refine ⟨rfl, ?_, om.orderAt_set hlt none, rfl, rfl, rfl⟩
      show (List.set _ _ _).length = _
      rw [List.length_set]
      exact h

theorem Mirrors.destroyed {c : OrderManagerConf ω ι} {t t' : Trading ω ι}
    {r : OrderManager ℕ ι} (create : CreateReplayOrder ι)
    (hinv : LoggedInv c t) (h : Mirrors t r) {w : ω}
    (hid : t'.om.localID = t.om.localID)
    (horder : t'.om.order = t.om.order) (hdesk : t'.om.desk = t.om.desk)
    (hsessions : t'.om.sessions = t.om.sessions)
    (hsent : t'.sent = t.sent)
    (hdestroyed : t'.destroyed = insert w t.destroyed) :
    Mirrors t' (OrderManager.decode create r
      (logDestroy (t.om.order w))) := by
  have hzero : w ∉ t.seen → (t.om.order w).localID = 0 := by
    intro hw
    rw [hinv.fresh w hw]
    rfl
  have hle : (t.om.order w).localID ≤ r.localID := by
    rw [h.localID]
    by_cases hw : w ∈ t.seen
    · exact (hinv.numbered w hw).2
    · rw [hzero hw]
      exact Nat.zero_le _
  -- no other sent order has the entry
  have hother : ∀ v ∈ t.sent, v ≠ w →
      (t.om.order v).localID ≠ (t.om.order w).localID := by
    intro v hv hne he
    by_cases hw : w ∈ t.seen
    · exact hne (hinv.distinct v (hinv.sent_seen hv) w hw he)
    · have := (hinv.numbered v (hinv.sent_seen hv)).1
      rw [he, hzero hw] at this
      omega
  show Mirrors t' (r.onLogDestroy ⟨orderIdentifier (t.om.order w)⟩)
  obtain ⟨did, dal, dat, dord, ddesk, dses⟩ :=
    OrderManager.onLogDestroy_spec
      (b := ⟨orderIdentifier (t.om.order w)⟩) h.aligned hle
  have dat : ∀ l, (r.onLogDestroy ⟨orderIdentifier (t.om.order w)⟩).orderAt l
      = if l = (t.om.order w).localID then none else r.orderAt l := dat
  refine ⟨?_, dal, ?_, ?_, fun v hv hnot => ?_, fun l p hp => ?_⟩
  · rw [did, hid]
    exact h.localID
  · rw [dses, hsessions]
    exact h.sessions
  · show Desk.book _ = Desk.book _
    rw [ddesk, hdesk]
    exact h.book
  · rw [hsent] at hv
    rw [hdestroyed, Finset.mem_insert, not_or] at hnot
    rw [horder, dat, dord, if_neg (hother v hv hnot.1)]
    exact h.order v hv hnot.2
  · rw [dat] at hp
    split at hp
    case isTrue => cases hp
    case isFalse hl =>
      obtain ⟨v, hv, hnot, he⟩ := h.only l p hp
      refine ⟨v, hsent ▸ hv, ?_, by rw [horder]; exact he⟩
      rw [hdestroyed, Finset.mem_insert, not_or]
      refine ⟨?_, hnot⟩
      rintro rfl
      exact hl he.symm

-- ================================================================ one step

/-- A destroy does nothing, or it is logged and touches `m_orders` only. -/
theorem Trading.step_destroy (t : Trading ω ι) (w : ω)
    (onlyIfTerminal sessionDestroys : Bool) :
    t.step (.destroy w onlyIfTerminal sessionDestroys) = t
    ∨ ∃ orders, t.step (.destroy w onlyIfTerminal sessionDestroys)
      = { t with
          om := { t.om with orders := orders }.append
            (logDestroy (t.om.order w))
          destroyed := insert w t.destroyed } := by
  unfold Trading.step
  dsimp only
  rcases t.om.destroy_cases w onlyIfTerminal sessionDestroys with
    heq | ⟨-, heq⟩ | ⟨-, heq⟩
  · rw [heq]
    exact .inl rfl
  · rw [heq]
    exact .inr ⟨t.om.orders, rfl⟩
  · rw [heq]
    exact .inr ⟨t.om.orders.set (t.om.order w).localID none, rfl⟩

theorem loggedInv_step {c : OrderManagerConf ω ι} (t : Trading ω ι)
    (e : Event ω) (h : LoggedInv c t) (hok : t.Logged e) :
    LoggedInv c (t.step e) := by
  cases e with
  | send w session a => exact loggedInv_send h hok.1 session a
  | cancel w newqty a =>
      show LoggedInv c { t with om := (t.om.cancel w newqty a).2 }
      rcases t.om.cancel_cases w newqty a with heq | ⟨hs, hterm, heq⟩
      · rw [heq]
        exact h
      · rw [heq]
        exact h.touch (h.sent_of_not_terminal hs hterm) rfl rfl rfl rfl rfl
          rfl
  | destroy w onlyIfTerminal sessionDestroys =>
      rcases t.step_destroy w onlyIfTerminal sessionDestroys with
        heq | ⟨orders, heq⟩
      · rw [heq]
        exact h
      · rw [heq]
        exact ⟨h.sent_seen, h.fresh, h.numbered, h.distinct, h.sessions,
          h.refused⟩
  | cancelled w size ts exts =>
      refine h.touch hok.1 rfl rfl rfl rfl rfl ?_
      rw [orderUpdateOnCancel_eq]
  | acknowledged w exchangeID size ts exts =>
      exact h.touch hok.1 rfl rfl rfl rfl rfl rfl
  | rejected w ts exts => exact h.touch hok.1 rfl rfl rfl rfl rfl rfl
  | fill w size price ts exts feeCode =>
      exact h.touch hok.1 rfl rfl rfl rfl rfl rfl
  | cancelRejected w ts exts =>
      exact h.touch hok.1 rfl rfl rfl rfl rfl rfl

/-- Every operation writes at most one record, and the record does on the
other side what the operation did. -/
theorem journaled_step {c : OrderManagerConf ω ι}
    {create : CreateReplayOrder ι}
    (hcreate : create.Faithful (OrderManager.start c).sessions)
    (t : Trading ω ι) (e : Event ω) (h : LoggedInv c t)
    (hok : t.Logged e) :
    Lib.Journaled (fun t : Trading ω ι => t.om.orderlog)
      (OrderManager.decode create) Mirrors t (t.step e) := by
  have hreport : ∀ w, e.reportOn = some w → w ∈ t.sent →
      w ∉ t.destroyed → Lib.Journaled (fun t : Trading ω ι => t.om.orderlog)
        (OrderManager.decode create) Mirrors t (t.step e) := by
    intro w he hw hkept
    refine ⟨(t.om.update e).record e, ?_, fun r hR =>
      hR.report create h.placed he hw hkept⟩
    show (t.step e).om.orderlog = _
    rw [t.step_report he]
    exact congrArg (· ++ _) (t.om.update_orderlog e)
  cases e with
  | send w session a =>
      obtain ⟨hw, hkept, hreg, hname⟩ := hok
      rw [← h.sessions] at hcreate
      rcases t.om.send_spec w session a with ⟨hr, side, hacc⟩ | ⟨hr, href⟩
      · exact .record hacc.orderlog fun r hR =>
          journaled_sent h hcreate hw hkept hreg hname hacc hr hR
      · exact .record href.orderlog fun r hR =>
          journaled_refused create h hw href hr hR
  | cancel w newqty a =>
      rcases t.om.cancel_cases w newqty a with heq | ⟨hs, hterm, heq⟩
      · have hstep : t.step (.cancel w newqty a) = t := by
          show { t with om := (t.om.cancel w newqty a).2 } = t
          rw [heq]
        rw [hstep]
        exact .silent rfl fun _ hR => hR
      · have hsent := h.sent_of_not_terminal hs hterm
        refine .record ?_ fun r hR =>
          hR.pendingCancel create h.placed hsent hok heq
        exact congrArg OrderManager.orderlog heq
  | destroy w onlyIfTerminal sessionDestroys =>
      rcases t.step_destroy w onlyIfTerminal sessionDestroys with
        heq | ⟨orders, heq⟩
      · rw [heq]
        exact .silent rfl fun _ hR => hR
      · rw [heq]
        exact .record rfl fun r hR =>
          hR.destroyed create h rfl rfl rfl rfl rfl rfl
  | acknowledged w exchangeID size ts exts =>
      exact hreport w rfl hok.1 hok.2
  | rejected w ts exts =>
      exact hreport w rfl hok.1 hok.2
  | fill w size price ts exts feeCode =>
      exact hreport w rfl hok.1 hok.2.1
  | cancelled w size ts exts =>
      exact hreport w rfl hok.1 hok.2.1
  | cancelRejected w ts exts =>
      exact hreport w rfl hok.1 hok.2

-- =================================================================== start

/-- The fresh order manager is given the same firm limits, universe, start
positions and sessions. -/
structure OrderManagerConf.SameDay (c : OrderManagerConf ω ι)
    (c' : OrderManagerConf ℕ ι) : Prop where
  firmRisk : c'.firmRisk = c.firmRisk
  instrument : c'.instrument = c.instrument
  startQuantity : c'.startQuantity = c.startQuantity
  priorAdjustedClose : c'.priorAdjustedClose = c.priorAdjustedClose
  sessions : c'.sessions = c.sessions

omit [DecidableEq ω] [DecidableEq ι] in
/-- Which sessions get in depends on the sessions only. -/
theorem OrderManager.addSessions_sessions (ss : List (Bytes × MIC))
    (now now' : Timestamp) :
    ∀ {om : OrderManager ω ι} {om' : OrderManager ℕ ι},
      om'.sessions = om.sessions →
      (ss.foldl (fun om s => (om.addSession s.1 s.2 true now').2)
        om').sessions
      = (ss.foldl (fun om s => (om.addSession s.1 s.2 true now).2)
        om).sessions := by
  induction ss with
  | nil => exact fun h => h
  | cons s ss ih =>
      intro om om' h
      refine ih ?_
      unfold addSession
      dsimp only
      rw [h]
      split
      · exact h
      · split
        · exact h
        · rfl

omit [DecidableEq ω] [DecidableEq ι] in
theorem loggedInv_start (c : OrderManagerConf ω ι) :
    LoggedInv c (Trading.start c) := by
  refine ⟨Finset.Subset.refl _, fun w _ => ?_,
    fun w hw => absurd hw (Finset.notMem_empty w),
    fun w hw => absurd hw (Finset.notMem_empty w), rfl,
    fun w hw => absurd hw (Finset.notMem_empty w)⟩
  obtain ⟨sessions, records, hstart, -⟩ := OrderManager.start_frame c
  show (OrderManager.start c).order w = _
  rw [hstart]
  rfl

omit [DecidableEq ω] in
/-- The records of the start mean nothing to a replay. -/
theorem OrderManager.replay_start (create : CreateReplayOrder ι)
    (c : OrderManagerConf ω ι) (r : OrderManager ℕ ι) :
    r.replay create (OrderManager.start c).orderlog = r := by
  obtain ⟨sessions, records, hstart, hnew⟩ := OrderManager.start_frame c
  rw [hstart]
  show records.foldl (decode create) r = r
  clear hstart
  induction records with
  | nil => rfl
  | cons m records ih =>
      rw [List.foldl_cons,
        decode_newSession create r (hnew m List.mem_cons_self)]
      exact ih fun m hm => hnew m (List.mem_cons_of_mem _ hm)

omit [DecidableEq ω] [DecidableEq ι] in
theorem mirrors_start {c : OrderManagerConf ω ι}
    {c' : OrderManagerConf ℕ ι} (h : c.SameDay c') :
    Mirrors (Trading.start c) (OrderManager.start c') := by
  obtain ⟨sessions, records, hstart, -⟩ := OrderManager.start_frame c
  obtain ⟨sessions', records', hstart', -⟩ := OrderManager.start_frame c'
  have hat : ∀ l, (OrderManager.start c').orderAt l = none := by
    intro l
    unfold OrderManager.orderAt
    rw [hstart']
    show [none][l]?.join = none
    cases l <;> rfl
  refine ⟨?_, ?_, ?_, ?_, fun w hw => absurd hw (Finset.notMem_empty w),
    fun l p hp => ?_⟩
  · show _ = (OrderManager.start c).localID
    rw [hstart, hstart']
    rfl
  · unfold OrderManager.Aligned
    rw [hstart']
    rfl
  · show _ = (OrderManager.start c).sessions
    unfold OrderManager.start
    rw [h.sessions]
    exact OrderManager.addSessions_sessions c.sessions _ _ rfl
  · show _ = (OrderManager.start c).book
    rw [hstart, hstart']
    unfold OrderManager.book OrderManager.create OrderManagerConf.position
    dsimp only
    rw [h.firmRisk, h.instrument, h.startQuantity, h.priorAdjustedClose]
  · rw [hat] at hp
    cases hp

-- ================================================================= result

/-- In every state of a logged day, replaying the log gives a mirror. -/
theorem mirrors_replay {c : OrderManagerConf ω ι}
    {c' : OrderManagerConf ℕ ι} (hday : c.SameDay c')
    {create : CreateReplayOrder ι}
    (hcreate : create.Faithful (OrderManager.start c).sessions)
    {es : List (Event ω)}
    (hes : Lib.Admits Trading.step Trading.Logged (Trading.start c) es) :
    Mirrors (Lib.run Trading.step (Trading.start c) es)
      ((OrderManager.start c').replay create
        (Lib.run Trading.step (Trading.start c) es).om.orderlog) := by
  refine Lib.recovered_run (fun t : Trading ω ι => t.om.orderlog)
    loggedInv_step (journaled_step hcreate) (loggedInv_start c) ?_ hes
  have hstart := OrderManager.replay_start create c (OrderManager.start c')
  show Mirrors _ ((OrderManager.start c').replay create
    (OrderManager.start c).orderlog)
  rw [hstart]
  exact mirrors_start hday

/-- Replaying the order log of any day into a fresh order manager restores
the local id, every order that was sent and not destroyed, every position
and the totals of the firm; and nothing else is in `m_orders`. -/
theorem replay_restores (c : OrderManagerConf ω ι)
    (c' : OrderManagerConf ℕ ι) (hday : c.SameDay c')
    (create : CreateReplayOrder ι)
    (hcreate : create.Faithful (OrderManager.start c).sessions)
    (es : List (Event ω))
    (hes : Lib.Admits Trading.step Trading.Logged (Trading.start c) es) :
    let t := Lib.run Trading.step (Trading.start c) es
    let r := (OrderManager.start c').replay create t.om.orderlog
    r.localID = t.om.localID
    ∧ (∀ w ∈ t.sent, w ∉ t.destroyed →
        let o := t.om.order w
        let o' := r.order o.localID
        r.orderAt o.localID = some o.localID
        ∧ o'.state = o.state ∧ o'.filledSize = o.filledSize
        ∧ o'.openSize = o.openSize ∧ o'.cancelledSize = o.cancelledSize
        ∧ o'.totalValuePaid = o.totalValuePaid)
    ∧ (∀ l p, r.orderAt l = some p →
        ∃ w ∈ t.sent, w ∉ t.destroyed ∧ (t.om.order w).localID = l)
    ∧ (∀ i,
        let pos := t.om.desk.position i
        let pos' := r.desk.position i
        pos'.tradingQuantity = pos.tradingQuantity ∧ pos'.vwap = pos.vwap
        ∧ pos'.realizedPnl = pos.realizedPnl
        ∧ pos'.unrealizedPnl = pos.unrealizedPnl
        ∧ pos'.openLongSize = pos.openLongSize
        ∧ pos'.openShortSize = pos.openShortSize
        ∧ pos'.openLongExposure = pos.openLongExposure
        ∧ pos'.openShortExposure = pos.openShortExposure)
    ∧ r.desk.firmRisk.totals = t.om.desk.firmRisk.totals := by
  intro t r
  have h : Mirrors t r := mirrors_replay hday hcreate hes
  refine ⟨h.localID, fun w hw hkept => ?_, h.only, fun i => ?_,
    congrArg Book.totals h.book⟩
  · obtain ⟨hentry, hview⟩ := h.order w hw hkept
    exact ⟨hentry, congrArg OrderView.state hview,
      congrArg OrderView.filledSize hview,
      congrArg OrderView.openSize hview,
      congrArg OrderView.cancelledSize hview,
      congrArg OrderView.totalValuePaid hview⟩
  · have hpos : (r.desk.position i).sansLocates
        = (t.om.desk.position i).sansLocates :=
      congrFun (congrArg Book.position h.book) i
    have hfield : ∀ {α : Type} (f : Position → α),
        (∀ pos : Position, f pos.sansLocates = f pos) →
        f (r.desk.position i) = f (t.om.desk.position i) := by
      intro α f hf
      rw [← hf, hpos, hf]
    exact ⟨hfield Position.tradingQuantity fun _ => rfl,
      hfield Position.vwap fun _ => rfl,
      hfield Position.realizedPnl fun _ => rfl,
      hfield Position.unrealizedPnl fun _ => rfl,
      hfield Position.openLongSize fun _ => rfl,
      hfield Position.openShortSize fun _ => rfl,
      hfield Position.openLongExposure fun _ => rfl,
      hfield Position.openShortExposure fun _ => rfl⟩

/-- A part fill, a refused order and a destroy on the way. -/
theorem replay_restores_demo :
    let c : OrderManagerConf (Fin 3) Unit := .plain fun w =>
      if w = 0 then .dayLimit () .buy 10 5
      else if w = 1 then .dayLimit () .buy 0 5
      else .dayLimit () .sell 7 6
    let c' : OrderManagerConf ℕ Unit := .plain fun _ =>
      .dayLimit () .buy 1 1
    let create : CreateReplayOrder Unit := fun name a =>
      some (a.build name [] ⟨9, 0⟩)
    let t := Lib.run Trading.step (Trading.start c)
      [.send 0 [66] .taken, .send 1 [66] .taken, .send 2 [66] .taken,
        .acknowledged 0 1 10 ⟨1, 0⟩ 1, .fill 0 4 5 ⟨2, 0⟩ 2 .unknown,
        .destroy 2 false true]
    let r := (OrderManager.start c').replay create t.om.orderlog
    r.localID = 3 ∧ r.localID = t.om.localID
      ∧ (r.order 1).filledSize = 4 := by
  intro c c' create t r
  have h := replay_restores c c' ⟨rfl, rfl, rfl, rfl, rfl⟩ create
    (fun s _ a _ => ⟨_, rfl, a.builds_build s.1 [] ⟨9, 0⟩⟩)
    [.send 0 [66] .taken, .send 1 [66] .taken, .send 2 [66] .taken,
      .acknowledged 0 1 10 ⟨1, 0⟩ 1, .fill 0 4 5 ⟨2, 0⟩ 2 .unknown,
      .destroy 2 false true] (by decide +kernel)
  exact ⟨by decide +kernel, h.1, by decide +kernel⟩

end TradingEngine.OE
