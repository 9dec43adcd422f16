/-
What the replay handlers do.

`OrderView` is what the log restores of an order: no times, no ids but the
local one, no cancel quantities. Orders that look the same stay so under
the same update, and move books alike. The handlers get one lemma for
each thing they can do to `m_orders`: extend it, which no lookup can tell,
adopt an order at a new id, or work on the entry of a known one.

# Replay and live run

The log is written by the handlers of the live run, and read by others of the
same names with a prefix. Each pair is compared here, record by record: the
handler of the record does to the view what the live handler did before it
wrote the record. What it cannot restore is outside the view.

# Alignment

`m_orders` grows with `m_localID`, and entries for ids that were not seen are
null. `Extended` is the step that only grows it. An id is looked up in the
same place before and after (`Extended`), so the handlers can be taken one at
a time.
-/
import TradingEngine.OE.Replay
import TradingEngine.OE.Proofs.Send

namespace TradingEngine.OE

variable {ω ι : Type}

-- ========================================================== views of orders

/-- What the log restores of an order. -/
structure OrderView (ι : Type) where
  localID : Nat
  session : Option Bytes
  instrument : ι
  price : Rat
  size : Nat
  side : Side
  state : OrderState
  filledSize : Nat
  openSize : Nat
  cancelledSize : Nat
  totalValuePaid : Rat
  deriving DecidableEq

def Order.view (o : Order ι) : OrderView ι :=
  ⟨o.localID, o.session, o.instrument, o.price, o.size, o.side, o.state,
    o.filledSize, o.openSize, o.cancelledSize, o.totalValuePaid⟩

section Views

variable {o o' : Order ι} (h : o.view = o'.view)

include h

/-- The same state written to orders that look the same. -/
theorem Order.view_state (s : OrderState) :
    ({ o with state := s } : Order ι).view
      = ({ o' with state := s } : Order ι).view :=
  congrArg (fun v : OrderView ι => { v with state := s }) h

theorem Order.view_ack (id id' size : Nat) (ts ts' : Timestamp)
    (exts exts' : Nat) :
    (orderUpdateOnAck o id size ts exts).view
      = (orderUpdateOnAck o' id' size ts' exts').view :=
  congrArg (fun v : OrderView ι =>
    { v with openSize := size, state := .acknowledged }) h

theorem Order.view_reject (ts ts' : Timestamp) (exts exts' : Nat) :
    (orderUpdateOnReject o ts exts).view
      = (orderUpdateOnReject o' ts' exts').view :=
  congrArg (fun v : OrderView ι =>
    { v with openSize := 0, state := .remotelyRejected }) h

theorem Order.view_fill (size : Nat) (price : Rat) (ts ts' : Timestamp)
    (exts exts' : Nat) (feeCode : FillFeeCode) :
    (orderUpdateOnFill o size price ts exts feeCode).view
      = (orderUpdateOnFill o' size price ts' exts' feeCode).view :=
  congrArg (fun v : OrderView ι =>
    { v with
      state :=
        if u32 (size + v.filledSize) = v.size then .filled
        else .partiallyFilled
      filledSize := u32 (v.filledSize + size)
      openSize := u32 (v.openSize - size)
      totalValuePaid := v.totalValuePaid + price * size }) h

theorem Order.view_cancel (size : Nat) (ts ts' : Timestamp)
    (exts exts' : Nat) :
    (orderUpdateOnCancel o size ts exts).view
      = (orderUpdateOnCancel o' size ts' exts').view := by
  rw [orderUpdateOnCancel_eq, orderUpdateOnCancel_eq]
  exact congrArg (fun v : OrderView ι =>
    { v with
      state := if size ≥ v.openSize then .cancelled else .partiallyCancelled
      cancelledSize := u32 (v.cancelledSize + size)
      openSize :=
        if size ≥ v.openSize then 0 else u32 (v.openSize - size) }) h

end Views

section Desk

variable [DecidableEq ι] {d d' : Desk ι} {o o' : Order ι}
  (hbook : d.book = d'.book) (hview : o.view = o'.view)

include hbook hview

/-- Orders that look the same move books alike. -/
theorem Desk.book_onOrderRemoves_congr (n : Nat) :
    (d.onOrderRemoves o n).book = (d'.onOrderRemoves o' n).book := by
  rw [book_onOrderRemoves, book_onOrderRemoves, hbook]
  exact congrArg (fun v : OrderView ι =>
    d'.book.moveOpen v.instrument v.side v.price (-n)) hview

theorem Desk.book_onOrderFill_congr (n : Nat) (price fee : Rat) :
    (d.onOrderFill o n price fee).book
      = (d'.onOrderFill o' n price fee).book := by
  have hinst : o.instrument = o'.instrument :=
    congrArg OrderView.instrument hview
  have hside : o.side = o'.side := congrArg OrderView.side hview
  have hprice : o.price = o'.price := congrArg OrderView.price hview
  rw [book_onOrderFill, book_onOrderFill, hbook, hinst, hside, hprice]

end Desk

-- =========================================================== replay handlers

/-- The order has what was logged, and nothing has happened to it. -/
structure ReplayOrder.Builds (a : ReplayOrder ι) (session : Bytes)
    (o : Order ι) : Prop where
  session : o.session = some session
  instrument : o.instrument = a.instrument
  originalPrice : o.originalPrice = a.price
  price : o.price = a.price
  size : o.size = a.size
  side : o.side = a.side
  tif : o.tif = a.tif
  type : o.type = a.type
  filledSize : o.filledSize = 0
  openSize : o.openSize = 0
  cancelledSize : o.cancelledSize = 0
  totalValuePaid : o.totalValuePaid = 0

/-- What the exchange sessions build is. -/
theorem ReplayOrder.builds_build (a : ReplayOrder ι)
    (session clientOrderID : Bytes) (now : Timestamp) :
    a.Builds session (a.build session clientOrderID now) :=
  ⟨rfl, rfl, rfl, rfl, rfl, rfl, rfl, rfl, rfl, rfl, rfl, rfl⟩

/-- Each of the sessions builds an order with the logged fields, if it is
one for its market. -/
def CreateReplayOrder.Faithful (create : CreateReplayOrder ι)
    (sessions : List (Bytes × MIC)) : Prop :=
  ∀ s ∈ sessions, ∀ a, a.market = s.2 →
    ∃ o, create s.1 a = some o ∧ a.Builds s.1 o

namespace OrderManager

/-- `assert(m_orders.size() == m_localID+1)`. -/
def Aligned (om : OrderManager ℕ ι) : Prop :=
  om.orders.length = om.localID + 1

/-- What extending the ids does: nothing that a lookup could tell. -/
structure Extended (om : OrderManager ℕ ι) (lid : Nat)
    (om' : OrderManager ℕ ι) : Prop where
  localID : om'.localID = max om.localID lid
  aligned : om'.Aligned
  orderAt : ∀ l, om'.orderAt l = om.orderAt l
  order : om'.order = om.order
  desk : om'.desk = om.desk
  sessions : om'.sessions = om.sessions

theorem extendLocalIDHelper_spec {om : OrderManager ℕ ι}
    (h : om.Aligned) (oid : OrderIdentifier) :
    (om.extendLocalIDHelper oid).1 = decide (om.localID < oid.localID)
      ∧ om.Extended oid.localID (om.extendLocalIDHelper oid).2 := by
  unfold Aligned at h
  unfold extendLocalIDHelper
  by_cases hle : oid.localID ≤ om.localID
  · rw [if_pos hle]
    exact ⟨(decide_eq_false (by omega)).symm, (max_eq_left hle).symm, h,
      fun _ => rfl, rfl, rfl, rfl⟩
  · rw [if_neg hle]
    have hgrow : oid.localID + 1 > om.orders.length := by omega
    unfold extendLocalID
    rw [if_pos hgrow]
    have hmax : max om.localID oid.localID = oid.localID := by omega
    refine ⟨(decide_eq_true (by omega)).symm, hmax.symm, ?_, fun l => ?_,
      rfl, rfl, rfl⟩
    · show (om.orders ++ _).length = oid.localID + 1
      rw [List.length_append, List.length_replicate]
      omega
    · show (om.orders ++ _)[l]?.join = om.orders[l]?.join
      by_cases hl : l < om.orders.length
      · rw [List.getElem?_append_left hl]
      · rw [List.getElem?_append_right (by omega), List.getElem?_replicate,
          List.getElem?_eq_none (by omega)]
        split <;> rfl

/-- A lookup after one entry was set. -/
theorem orderAt_set (om : OrderManager ℕ ι) {lid : Nat}
    (h : lid < om.orders.length) (p : Option ℕ) (l : Nat) :
    (om.orders.set lid p)[l]?.join = if l = lid then p else om.orderAt l := by
  rw [List.getElem?_set]
  by_cases hl : lid = l
  · subst hl
    rw [if_pos rfl, if_pos h, if_pos rfl]
    rfl
  · rw [if_neg hl, if_neg (Ne.symm hl)]
    rfl

variable [DecidableEq ι]

/-- The order of a new `ORDER_SENT` record has been taken over. -/
structure Adopted (om : OrderManager ℕ ι) (lid : Nat) (o : Order ι)
    (om' : OrderManager ℕ ι) : Prop where
  localID : om'.localID = lid
  aligned : om'.Aligned
  orderAt : ∀ l, om'.orderAt l = if l = lid then some lid else om.orderAt l
  order : om'.order = Function.update om.order lid
    { o with localID := lid, state := .sent }
  book : om'.book = om.book.moveOpen o.instrument o.side o.price o.size
  sessions : om'.sessions = om.sessions

theorem onLogOrderSent_new {create : CreateReplayOrder ι}
    {om : OrderManager ℕ ι} {ts : Timestamp} {b : NewOrderBody ι}
    {o : Order ι} (h : om.Aligned) (hnew : om.localID < b.oid.localID)
    (hname : b.oid.sessionName.toString ∈ om.sessions.map Prod.fst)
    (hcreate : create b.oid.sessionName.toString (b.replayOrder ts)
      = some o) :
    om.Adopted b.oid.localID o (om.onLogOrderSent create ts b) := by
  obtain ⟨hext, hid, hal, hat, hord, hdesk, hses⟩ :=
    extendLocalIDHelper_spec h b.oid
  have hlid : (om.extendLocalIDHelper b.oid).2.localID = b.oid.localID := by
    omega
  have hlen : b.oid.localID
      < (om.extendLocalIDHelper b.oid).2.orders.length := by
    unfold Aligned at hal
    omega
  unfold onLogOrderSent
  dsimp only
  rw [if_pos hname, hcreate, hext, if_pos (decide_eq_true hnew)]
  refine ⟨hlid, ?_, fun l => ?_, ?_, ?_, hses⟩
  · show (List.set _ _ _).length = _
    rw [List.length_set]
    exact hal
  · refine (orderAt_set _ hlen _ l).trans ?_
    rw [hat]
  · show Function.update (om.extendLocalIDHelper b.oid).2.order _ _ = _
    rw [hord]
  · show (Desk.onOrderAdds (om.extendLocalIDHelper b.oid).2.desk _ _).book
      = _
    rw [Desk.book_onOrderAdds, hdesk]
    rfl

omit [DecidableEq ι] in
/-- A logged order comes back looking as it was logged. -/
theorem view_of_builds {o o' : Order ι} {ts : Timestamp} {session : Bytes}
    (hbuilt : ((newOrderBody o).replayOrder ts).Builds session o')
    (hsession : o.session = some session) (hprice : o.price = o.originalPrice)
    (huntouched : o.filledSize = 0 ∧ o.openSize = 0 ∧ o.cancelledSize = 0
      ∧ o.totalValuePaid = 0) (hstate : o.state = .sent) :
    ({ o' with localID := o.localID, state := .sent } : Order ι).view
      = o.view := by
  obtain ⟨hses, hi, -, hp, hs, hside, -, -, hf, ho, hc, hv⟩ := hbuilt
  obtain ⟨hf', ho', hc', hv'⟩ := huntouched
  have hprice' : o'.price = o.price := hp.trans hprice.symm
  unfold Order.view
  rw [hf', ho', hc', hv', hstate, hsession]
  simp only [hses, hi, hprice', hs, hside, hf, ho, hc, hv]
  rfl

/-- The record of an order just sent, if its id is new: the order is
adopted, and looks as it did. -/
theorem decode_logOrderSent {create : CreateReplayOrder ι}
    {om : OrderManager ℕ ι} {o : Order ι} {session : Bytes}
    (h : om.Aligned) (hnew : om.localID < o.localID)
    (hsession : o.session = some session) (hname : NameOk session)
    (hreg : (session, o.market) ∈ om.sessions)
    (hcreate : create.Faithful om.sessions)
    (hprice : o.price = o.originalPrice)
    (huntouched : o.filledSize = 0 ∧ o.openSize = 0 ∧ o.cancelledSize = 0
      ∧ o.totalValuePaid = 0) (hstate : o.state = .sent) :
    ∃ o', om.Adopted o.localID o' (decode create om (logOrderSent o))
      ∧ ({ o' with localID := o.localID, state := .sent } : Order ι).view
        = o.view := by
  have hread : (newOrderBody o).oid.sessionName.toString = session := by
    unfold newOrderBody orderIdentifier
    rw [hsession]
    exact toString_stringToSessionName hname
  obtain ⟨o', hcreated, hbuilt⟩ :=
    hcreate _ hreg ((newOrderBody o).replayOrder o.sentTime) rfl
  have hname : session ∈ om.sessions.map Prod.fst :=
    List.mem_map_of_mem hreg
  refine ⟨o', onLogOrderSent_new h hnew (by rw [hread]; exact hname)
    (by rw [hread]; exact hcreated), ?_⟩
  exact view_of_builds hbuilt hsession hprice huntouched hstate

/-- An `ORDER_SENT` record with an id that was passed already is lost. -/
theorem onLogOrderSent_stale (create : CreateReplayOrder ι)
    {om : OrderManager ℕ ι} (ts : Timestamp) {b : NewOrderBody ι}
    (h : b.oid.localID ≤ om.localID) :
    om.onLogOrderSent create ts b = om := by
  unfold onLogOrderSent extendLocalIDHelper
  dsimp only
  rw [if_pos h]
  rfl

omit [DecidableEq ι] in
/-- A handler of a known id works on the entry, if there is one. -/
theorem onLogOrder_known {om : OrderManager ℕ ι} {oid : OrderIdentifier}
    (h : oid.localID ≤ om.localID)
    (update : OrderManager ℕ ι → ℕ → OrderManager ℕ ι) :
    om.onLogOrder oid update
      = match om.orderAt oid.localID with
        | some p => update om p
        | none => om := by
  have hext : om.extendLocalIDHelper oid = (false, om) := if_pos h
  exact congrArg (fun r : Bool × OrderManager ℕ ι =>
    match r.2.orderAt oid.localID with
    | some p => update r.2 p
    | none => r.2) hext

/-- Records that are no order's change nothing. -/
theorem decode_newSession (create : CreateReplayOrder ι)
    (om : OrderManager ℕ ι) {m : Message ι} (h : m.type = .newSession) :
    decode create om m = om := by
  obtain ⟨type, ts, body⟩ := m
  subst h
  rfl

end OrderManager

end TradingEngine.OE
