/-
What `send` and the exchange events do, once and for all.

`send` has two ends. `SendAccepted` and `SendRefused` say everything the
later proofs use of each: the order, `m_orders`, the book, the log, and
for an accepted order what it had to pass. The six other operations get
one equation each for the book, where it is moved at all.

# Frames

What the risk checks read of a position is its book without the locates
(`sansLocates`), so that taking locates and giving them back is no matter of
the book. A check that refuses an order undoes what it did before: in the
book nothing is left of it, in the log there is the rejection.

# The steps

`send_spec`, `cancel_cases` and `destroy_cases` say once and for all what one
event does to the orders, to `m_orders` and to the log. The modules on
exposure, locates, replay and crashes all go by these, and never unfold
`send`.
-/
import TradingEngine.OE.Trading
import TradingEngine.OE.Book

namespace TradingEngine.OE

variable {ω ι : Type}

-- ================================================================ locates

theorem sansLocates_recycleOnFill (pos : Position) (o : Order ι)
    (size : Nat) :
    (recycleOnFill pos o size).sansLocates = pos.sansLocates := by
  unfold recycleOnFill
  split <;> rfl

theorem sansLocates_recycleOnCancel (pos : Position) (o : Order ι)
    (size : Nat) :
    (recycleOnCancel pos o size).sansLocates = pos.sansLocates := by
  unfold recycleOnCancel
  split <;> rfl

variable [DecidableEq ω] [DecidableEq ι]

namespace OrderManager

/-- The book of the order manager's desk. -/
def book (om : OrderManager ω ι) : Book ι := om.desk.book

-- ============================================================ the two ends

/-- `send` returned true. -/
structure SendAccepted (om : OrderManager ω ι) (w : ω) (session : Bytes)
    (a : SendAnswer) (om' : OrderManager ω ι) (side : Side) : Prop where
  valid : (om.order w).validateBase = true
  sent : a.sent = true
  /-- The instrument may have corrected the side of a sell. -/
  side_kept : EquityInstrument.SideKept (om.order w).side side
  localID : om'.localID = om.localID + 1
  orders : om'.orders = om.orders ++ [some w]
  order : om'.order = Function.update om.order w
    { om.order w with
      localID := om.localID + 1
      side := side
      session := some session
      sentTime := a.sentTime
      clientOrderID := a.clientOrderID
      state := .sent }
  book : om'.book = om.book.moveOpen (om.order w).instrument side
    (om.order w).price (om.order w).size
  orderlog : om'.orderlog = om.orderlog ++ [logOrderSent (om'.order w)]
  sessions : om'.sessions = om.sessions
  /-- The position limit, on top of the position alone. -/
  positionLimit :
    (EquityInstrument.postPosition
        (om.desk.position (om.order w).instrument)
        { om.order w with localID := om.localID + 1 }).natAbs
      ≤ (om.instrument (om.order w).instrument).positionLimit

/-- `send` returned false. What the refusal left on the order besides its
state does not matter: it never takes part in anything again. -/
structure SendRefused (om : OrderManager ω ι) (w : ω)
    (om' : OrderManager ω ι) : Prop where
  localID : om'.localID = om.localID + 1
  orders : om'.orders = om.orders ++ [some w]
  order : ∃ o, om'.order = Function.update om.order w o
    ∧ o.state = .locallyRejected ∧ o.localID = om.localID + 1
    ∧ o.filledSize = (om.order w).filledSize
    ∧ o.cancelledSize = (om.order w).cancelledSize
    ∧ o.openSize = (om.order w).openSize
    ∧ o.instrument = (om.order w).instrument
  book : om'.book = om.book
  orderlog : om'.orderlog = om.orderlog ++ [logLocalReject (om'.order w)]
  sessions : om'.sessions = om.sessions

-- ============================================================== the steps

/-- What a passed or failed `instrumentCheck` leaves: the side, perhaps,
and locates and the rate queue, which the book does not see. -/
theorem instrumentCheck_spec (om : OrderManager ω ι) (w : ω) :
    ∃ side, EquityInstrument.SideKept (om.order w).side side
      ∧ (om.instrumentCheck w).2.order
          = Function.update om.order w { om.order w with side := side }
      ∧ (om.instrumentCheck w).2.book = om.book
      ∧ (∀ i, ((om.instrumentCheck w).2.instrument i).positionLimit
          = (om.instrument i).positionLimit)
      ∧ (om.instrumentCheck w).2.localID = om.localID
      ∧ (om.instrumentCheck w).2.orders = om.orders
      ∧ (om.instrumentCheck w).2.sessions = om.sessions
      ∧ (om.instrumentCheck w).2.orderlog = om.orderlog := by
  obtain ⟨side, remaining, used, rate, hside, horder, hpos, hinst⟩ :=
    (om.instrument (om.order w).instrument).validate_frame
      (om.desk.position (om.order w).instrument) (om.order w)
  refine ⟨side, hside, ?_, ?_, fun i => ?_, rfl, rfl, rfl, rfl⟩
  · show Function.update om.order w _ = _
    rw [horder]
  · refine om.desk.book_locates ?_
    rw [hpos]
    rfl
  · show (Function.update om.instrument (om.order w).instrument _ i
      ).positionLimit = _
    by_cases hi : i = (om.order w).instrument
    · rw [hi, Function.update_self, hinst]
    · rw [Function.update_of_ne hi]

/-- `addOpen` moves the book by the order's whole size. -/
theorem book_addOpen (om : OrderManager ω ι) (w : ω) (session : Bytes) :
    (om.addOpen w session).book
      = om.book.moveOpen (om.order w).instrument (om.order w).side
          (om.order w).price (om.order w).size :=
  om.desk.book_onOrderAdds _ _

omit [DecidableEq ω] in
theorem book_removeOpen (om : OrderManager ω ι) (w : ω) :
    (om.removeOpen w).book
      = om.book.moveOpen (om.order w).instrument (om.order w).side
          (om.order w).price (-(om.order w).size) :=
  om.desk.book_onOrderRemoves _ _

omit [DecidableEq ι] in
/-- A refusal right after `om₁`, which differs from `om` in nothing but
what `SendRefused` leaves open. -/
theorem sendRefused_localReject {om : OrderManager ω ι} {w : ω}
    (om₁ : OrderManager ω ι)
    (hid : om₁.localID = om.localID + 1)
    (horders : om₁.orders = om.orders ++ [some w])
    {o : Order ι} (horder : om₁.order = Function.update om.order w o)
    (hlocal : o.localID = om.localID + 1)
    (hfilled : o.filledSize = (om.order w).filledSize)
    (hcancelled : o.cancelledSize = (om.order w).cancelledSize)
    (hopen : o.openSize = (om.order w).openSize)
    (hinst : o.instrument = (om.order w).instrument)
    (hbook : om₁.book = om.book) (hlog : om₁.orderlog = om.orderlog)
    (hsessions : om₁.sessions = om.sessions) :
    SendRefused om w (om₁.localReject w) := by
  have ho : om₁.order w = o := by rw [horder, Function.update_self]
  refine ⟨hid, horders, ⟨{ o with state := .locallyRejected }, ?_, rfl,
    hlocal, hfilled, hcancelled, hopen, hinst⟩, hbook, ?_, hsessions⟩
  · show Function.update om₁.order w _ = _
    rw [ho, horder, Function.update_idem]
  · show om₁.orderlog ++ [_] = om.orderlog ++ [_]
    rw [hlog]
    show _ ++ [_] = _ ++ [logLocalReject (Function.update om₁.order w _ w)]
    rw [Function.update_self]

/-- Every `send` ends in one of the two ways. -/
theorem send_spec (om : OrderManager ω ι) (w : ω) (session : Bytes)
    (a : SendAnswer) :
    ((om.send w session a).1 = true
      ∧ ∃ side, SendAccepted om w session a (om.send w session a).2 side)
    ∨ ((om.send w session a).1 = false
      ∧ SendRefused om w (om.send w session a).2) := by
  let om₁ := om.takeLocalID w
  let om₂ := (om₁.riskCheck w).2
  let om₃ := (om₂.instrumentCheck w).2
  let om₄ := (om₃.addOpen w session).sessionSend w a
  -- the state after each step, against the start
  have ho₁ : om₁.order = Function.update om.order w
      { om.order w with localID := om.localID + 1 } := rfl
  have hw₁ : om₁.order w = { om.order w with localID := om.localID + 1 } :=
    Function.update_self ..
  have hb₂ : om₂.book = om.book := om.desk.book_newOrder _
  obtain ⟨side, hside, ho₃, hb₃, hlim, hid₃, hor₃, hse₃, hlog₃⟩ :=
    om₂.instrumentCheck_spec w
  have hw₂ : om₂.order w = { om.order w with localID := om.localID + 1 } :=
    hw₁
  rw [hw₂] at hside
  have ho₃' : om₃.order = Function.update om.order w
      { om.order w with localID := om.localID + 1, side := side } := by
    rw [ho₃, hw₂]
    show Function.update om₁.order w _ = _
    rw [ho₁, Function.update_idem]
  have hw₃ : om₃.order w
      = { om.order w with localID := om.localID + 1, side := side } := by
    rw [ho₃', Function.update_self]
  have ho₄ : om₄.order = Function.update om.order w
      { om.order w with
        localID := om.localID + 1
        side := side
        session := some session
        sentTime := a.sentTime
        clientOrderID := a.clientOrderID } := by
    show Function.update (Function.update om₃.order w _) w
      { Function.update om₃.order w _ w with
        sentTime := a.sentTime
        clientOrderID := a.clientOrderID } = _
    rw [Function.update_self, Function.update_idem, hw₃, ho₃',
      Function.update_idem]
  have hw₄ : om₄.order w = { om.order w with
      localID := om.localID + 1
      side := side
      session := some session
      sentTime := a.sentTime
      clientOrderID := a.clientOrderID } := by
    rw [ho₄, Function.update_self]
  have hb₄ : om₄.book = om.book.moveOpen (om.order w).instrument side
      (om.order w).price (om.order w).size := by
    show (om₃.addOpen w session).book = _
    rw [book_addOpen, hw₃, hb₃, hb₂]
  unfold send
  dsimp only
  split
  case isTrue =>
    right
    exact ⟨rfl, sendRefused_localReject _ rfl rfl ho₁ rfl rfl rfl rfl rfl rfl
      rfl rfl⟩
  case isFalse hvalid =>
    split
    case isTrue =>
      right
      exact ⟨rfl, sendRefused_localReject om₂ rfl rfl ho₁ rfl rfl
        rfl rfl rfl hb₂ rfl rfl⟩
    case isFalse =>
      split
      case isTrue =>
        right
        exact ⟨rfl, sendRefused_localReject om₃ hid₃ hor₃ ho₃' rfl
          rfl rfl rfl rfl (hb₃.trans hb₂) hlog₃ hse₃⟩
      case isFalse hinst =>
        split
        case isTrue hsent =>
          left
          refine ⟨rfl, side, ?_, hsent, hside, hid₃, hor₃, ?_, hb₄, ?_,
            hse₃, ?_⟩
          · have h := Bool.eq_false_iff.mpr hvalid
            simp only [Bool.not_eq_false', validates, Bool.and_eq_true] at h
            have hv := h.1
            rw [hw₁] at hv
            exact hv
          · show Function.update om₄.order w _ = _
            rw [hw₄, ho₄, Function.update_idem]
          · show om₄.orderlog ++ [_] = _
            have hlog₄ : om₄.orderlog = om.orderlog := hlog₃
            rw [hlog₄]
            show _ ++ [_]
              = _ ++ [logOrderSent (Function.update om₄.order w _ w)]
            rw [Function.update_self]
          · have h := Bool.eq_false_iff.mpr hinst
            rw [Bool.not_eq_false'] at h
            have hok := EquityInstrument.validate_positionLimit h
            rw [hw₂] at hok
            exact hok
        case isFalse =>
          right
          have hw₅ : (om₄.removeOpen w).order = om₄.order := rfl
          refine ⟨rfl, sendRefused_localReject (om₄.removeOpen w)
            hid₃ hor₃ (hw₅.trans ho₄) rfl rfl rfl rfl rfl ?_ hlog₃ hse₃⟩
          rw [book_removeOpen, hw₄, hb₄]
          exact Book.moveOpen_undo ..

/-- What both ends of `send` write: `o` to the order, and its entry. -/
structure SendWrites (om : OrderManager ω ι) (w : ω) (accepted : Bool)
    (om' : OrderManager ω ι) (o : Order ι) : Prop where
  order : om'.order = Function.update om.order w o
  localID : o.localID = om.localID + 1
  state : o.state = if accepted then .sent else .locallyRejected
  filledSize : o.filledSize = (om.order w).filledSize
  cancelledSize : o.cancelledSize = (om.order w).cancelledSize
  counter : om'.localID = om.localID + 1
  orders : om'.orders = om.orders ++ [some w]
  sessions : om'.sessions = om.sessions

theorem send_writes (om : OrderManager ω ι) (w : ω) (session : Bytes)
    (a : SendAnswer) :
    ∃ o, SendWrites om w (om.send w session a).1
      (om.send w session a).2 o := by
  rcases om.send_spec w session a with ⟨hr, side, hacc⟩ | ⟨hr, href⟩
  · rw [hr]
    exact ⟨_, hacc.order, rfl, rfl, rfl, rfl, hacc.localID, hacc.orders,
      hacc.sessions⟩
  · obtain ⟨o, horder, hstate, hlid, hfilled, hcancelled, -⟩ := href.order
    rw [hr]
    exact ⟨o, horder, hlid, hstate, hfilled, hcancelled, href.localID,
      href.orders, href.sessions⟩

/-- The order is let through by everything that `send` asks before the
session. -/
def Clears (om : OrderManager ω ι) (w : ω) : Prop :=
  let om := om.takeLocalID w
  (om.order w).validateBase = true ∧ (om.riskCheck w).1 = true
    ∧ ((om.riskCheck w).2.instrumentCheck w).1 = true

/-- What a `send` that returns true comes to. -/
theorem send_eq_true_iff (om : OrderManager ω ι) (w : ω) (session : Bytes)
    (a : SendAnswer) :
    (om.send w session a).1 = true
      ↔ om.Clears w ∧ a.validated = true ∧ a.sent = true := by
  unfold send validates Clears
  dsimp only
  cases ((om.takeLocalID w).order w).validateBase <;>
    cases a.validated <;>
    cases ((om.takeLocalID w).riskCheck w).1 <;>
    cases (((om.takeLocalID w).riskCheck w).2.instrumentCheck w).1 <;>
    cases a.sent <;> simp

omit [DecidableEq ι] in
/-- What the session and the mark write to the order. -/
theorem order_markSent_sessionSend (om : OrderManager ω ι) (w : ω)
    (a : SendAnswer) :
    ((om.sessionSend w a).markSent w).order w
      = { om.order w with
          sentTime := a.sentTime
          clientOrderID := a.clientOrderID
          state := .sent } := by
  show Function.update _ w _ w = _
  unfold sessionSend
  rw [Function.update_self, setOrder_order, Function.update_self]

/-- Then it is the order it handed to the session that is marked. -/
theorem send_of_true {om : OrderManager ω ι} {w : ω} {session : Bytes}
    {a : SendAnswer} (hsend : (om.send w session a).1 = true) :
    (om.send w session a).2.order w
      = { om.orderToSend w session with
          sentTime := a.sentTime
          clientOrderID := a.clientOrderID
          state := .sent } := by
  obtain ⟨⟨hvalid, hrisk, hinst⟩, hvalidated, hsent⟩ :=
    (om.send_eq_true_iff w session a).mp hsend
  have hvalidates : (om.takeLocalID w).validates w a = true :=
    Bool.and_eq_true_iff.mpr ⟨hvalid, hvalidated⟩
  unfold send orderToSend
  simp only [hvalidates, hrisk, hinst, hsent, Bool.not_true,
    Bool.false_eq_true, if_false, if_true]
  exact order_markSent_sessionSend _ w a

-- ======================================================= cancel, destroy

/-- The order a cancel request leaves. -/
def pendingCancelOrder (o : Order ι) (newqty : Nat) (a : CancelAnswer) :
    Order ι :=
  { o with
    lastRequestTime := a.lastRequestTime
    pendingcancelNewqty := newqty
    state := .pendingCancel }

omit [DecidableEq ι] in
/-- A cancel is refused and nothing changes, or the request goes out, for
an order that has a session and is not terminal. -/
theorem cancel_cases (om : OrderManager ω ι) (w : ω) (newqty : Nat)
    (a : CancelAnswer) :
    (om.cancel w newqty a).2 = om
    ∨ ((om.order w).session ≠ none ∧ (om.order w).isTerminal = false
      ∧ (om.cancel w newqty a).2
        = (om.setOrder w (pendingCancelOrder (om.order w) newqty a)).append
          (logPendingCancel (pendingCancelOrder (om.order w) newqty a)
            newqty)) := by
  unfold cancel
  dsimp only
  split
  · exact .inl rfl
  case isFalse hsession =>
    split
    · exact .inl rfl
    case isFalse hterminal =>
      split
      · exact .inl rfl
      · split
        · exact .inr ⟨hsession, Bool.eq_false_iff.mpr hterminal, rfl⟩
        · exact .inl rfl

omit [DecidableEq ι] in
/-- A cancel writes to no other order. -/
theorem cancel_order_of_ne (om : OrderManager ω ι) {v w : ω} (h : w ≠ v)
    (newqty : Nat) (a : CancelAnswer) :
    (om.cancel v newqty a).2.order w = om.order w := by
  rcases om.cancel_cases v newqty a with heq | ⟨-, -, heq⟩
  · rw [heq]
  · rw [heq]
    exact Function.update_of_ne h ..

omit [DecidableEq ω] [DecidableEq ι] in
/-- A destroy is refused, or it is logged, and forgets the order unless
the order was never sent. -/
theorem destroy_cases (om : OrderManager ω ι) (w : ω)
    (onlyIfTerminal sessionDestroys : Bool) :
    om.destroy w onlyIfTerminal sessionDestroys = (false, om)
    ∨ ((om.order w).localID = 0
      ∧ om.destroy w onlyIfTerminal sessionDestroys
        = (true, om.append (logDestroy (om.order w))))
    ∨ ((om.order w).localID ≠ 0
      ∧ om.destroy w onlyIfTerminal sessionDestroys
        = (true, { om with
            orders := om.orders.set (om.order w).localID none }.append
          (logDestroy (om.order w)))) := by
  unfold destroy
  dsimp only
  split
  · exact .inl rfl
  · split
    case isTrue hzero => exact .inr (.inl ⟨hzero, rfl⟩)
    case isFalse hzero =>
      split
      · exact .inr (.inr ⟨hzero, rfl⟩)
      · exact .inl rfl

-- ======================================================== exchange events

section Events

variable (om : OrderManager ω ι) (w : ω) (size : Nat) (ts : Timestamp)
  (exts : Nat)

theorem book_onRejected :
    (om.onRejected w ts exts).book
      = om.book.moveOpen (om.order w).instrument (om.order w).side
          (om.order w).price (-(om.order w).size) :=
  om.desk.book_onOrderRemoves _ _

theorem book_onCancel :
    (om.onCancel w size ts exts).book
      = om.book.moveOpen (om.order w).instrument (om.order w).side
          (om.order w).price (-size) := by
  show (Desk.onOrderRemoves _ _ _).book = _
  rw [Desk.book_onOrderRemoves, Desk.book_locates _
    (sansLocates_recycleOnCancel ..), orderUpdateOnCancel_eq]
  rfl

theorem book_onFill (price : Rat) (feeCode : FillFeeCode) :
    (om.onFill w size price ts exts feeCode).book
      = (om.book.trade (om.order w).instrument (om.order w).side size price
          0).moveOpen (om.order w).instrument (om.order w).side
          (om.order w).price (-size) := by
  show (Desk.onOrderFill _ _ _ _ _).book = _
  rw [Desk.book_onOrderFill, Desk.book_locates _
    (sansLocates_recycleOnFill ..)]
  rfl

end Events

end OrderManager

-- ================================================================== a step

namespace Trading

theorem mem_sent_send (t : Trading ω ι) (w : ω) (session : Bytes)
    (a : OrderManager.SendAnswer) (v : ω) :
    v ∈ (t.step (.send w session a)).sent
      ↔ v ∈ t.sent ∨ (v = w ∧ (t.om.send w session a).1 = true) := by
  show v ∈ (if (t.om.send w session a).1 then insert w t.sent
    else t.sent) ↔ _
  split
  case isTrue hr => simp [hr, or_comm]
  case isFalse hr => simp [hr]

theorem step_cancel_order (t : Trading ω ι) (w : ω) (newqty : Nat)
    (a : OrderManager.CancelAnswer) :
    (t.step (.cancel w newqty a)).om.order w = t.om.order w
    ∨ (t.step (.cancel w newqty a)).om.order w
      = OrderManager.pendingCancelOrder (t.om.order w) newqty a := by
  show (t.om.cancel w newqty a).2.order w = _
    ∨ (t.om.cancel w newqty a).2.order w = _
  rcases t.om.cancel_cases w newqty a with heq | ⟨-, -, heq⟩
  · rw [heq]
    exact .inl rfl
  · rw [heq]
    exact .inr (Function.update_self ..)

theorem step_destroy_order (t : Trading ω ι) (w v : ω)
    (onlyIfTerminal sessionDestroys : Bool) :
    (t.step (.destroy w onlyIfTerminal sessionDestroys)).om.order v
      = t.om.order v := by
  show (t.om.destroy w onlyIfTerminal sessionDestroys).2.order v = _
  rcases t.om.destroy_cases w onlyIfTerminal sessionDestroys with
    heq | ⟨-, heq⟩ | ⟨-, heq⟩ <;> rw [heq] <;> rfl

/-- An event writes to no order but the one it is about. -/
theorem step_order_of_ne (t : Trading ω ι) {e : Event ω} {w : ω}
    (h : e.about ≠ w) : (t.step e).om.order w = t.om.order w := by
  have h : w ≠ e.about := Ne.symm h
  cases e with
  | send v session a =>
      obtain ⟨o, hw⟩ := t.om.send_writes v session a
      show (t.om.send v session a).2.order w = _
      rw [hw.order]
      exact Function.update_of_ne h ..
  | cancel v newqty a =>
      exact t.om.cancel_order_of_ne h newqty a
  | destroy v onlyIfTerminal sessionDestroys =>
      exact t.step_destroy_order v w onlyIfTerminal sessionDestroys
  | acknowledged v exchangeID size ts exts =>
      exact Function.update_of_ne h ..
  | rejected v ts exts => exact Function.update_of_ne h ..
  | fill v size price ts exts feeCode =>
      exact Function.update_of_ne h ..
  | cancelled v size ts exts => exact Function.update_of_ne h ..
  | cancelRejected v ts exts => exact Function.update_of_ne h ..

end Trading

end TradingEngine.OE
