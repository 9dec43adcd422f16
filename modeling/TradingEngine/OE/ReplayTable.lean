/-
`OrderManager::on_log_*` for whatever a log may hold.

`Replay.lean` reads logs of a known universe with ids well below 2^32.
Here neither is promised: the index of a record may have no instrument
(`valid`), at which `on_log_order_sent` jumps past the extension of the
table, and `lid+1` is a sum in 32 bits. Each handler also says which index
of `m_orders` it accesses. `operator[]` does not check the index; what
lies past the end is read as null here, and a write there is lost.
-/
import TradingEngine.OE.Replay

namespace TradingEngine.OE

variable {ι : Type}

/-- The identifier a record carries. -/
def Body.oid : Body ι → Option OrderIdentifier
  | .fileHeader | .fileTrailer | .newSession _ => none
  | .orderLocalReject order => some order.oid
  | .orderSent order => some order.oid
  | .orderAck b => some b.oid
  | .orderFill b => some b.oid
  | .orderCxlReq b => some b.oid
  | .orderCxl b => some b.oid
  | .orderReject b => some b.oid
  | .orderCxlReject b => some b.oid
  | .orderDestroy b => some b.oid

/-- `LocalID` is 32 bits wide. -/
def Message.Fits (m : Message ι) : Prop :=
  ∀ oid ∈ m.body.oid, oid.localID < 4294967296

instance (m : Message ι) : Decidable m.Fits :=
  inferInstanceAs (Decidable (∀ _ ∈ m.body.oid, _))

namespace OrderManager

/-- `extend_local_id`: the sum is taken before it is compared with the
size. -/
def extendLocalIDu32 (om : OrderManager ℕ ι) (lid : Nat) :
    OrderManager ℕ ι :=
  let size := u32 (lid + 1)
  if size > om.orders.length then
    { om with
      orders := om.orders ++ List.replicate (size - om.orders.length) none
      localID := lid }
  else om

def extendLocalIDHelperU32 (om : OrderManager ℕ ι) (oid : OrderIdentifier) :
    Bool × OrderManager ℕ ι :=
  if oid.localID ≤ om.localID then (false, om)
  else (true, om.extendLocalIDu32 oid.localID)

/-- What a handler leaves behind, and where in `m_orders` it was. -/
structure Handled (ι : Type) where
  om : OrderManager ℕ ι
  access : Option Nat

variable [DecidableEq ι]

/-- What the handler of a record does with the order it looks up. -/
def logUpdate (m : Message ι) :
    Option (OrderIdentifier × (OrderManager ℕ ι → ℕ → OrderManager ℕ ι)) :=
  match m.type, m.body with
  | .orderAcknowledgement, .orderAck b =>
      some (b.oid, fun om p =>
        om.applyAcknowledged p 0 b.openSize m.timestamp b.exchangeTs)
  | .orderPartialFill, .orderFill b | .orderFill, .orderFill b =>
      some (b.oid, fun om p =>
        let o := orderUpdateOnFill (om.order p) b.filledQty b.filledPrice
          m.timestamp b.exchangeTs b.filledFeeCode
        let fee := feeFromFill o b.filledQty b.filledPrice
        { om.setOrder p o with
          desk := om.desk.onOrderFill o b.filledQty b.filledPrice fee })
  | .orderCancelRequest, .orderCxlReq b =>
      some (b.oid, fun om p =>
        om.setOrder p { om.order p with state := .pendingCancel })
  | .orderCancel, .orderCxl b =>
      some (b.oid, fun om p =>
        let o := orderUpdateOnCancel (om.order p) b.cxledQty m.timestamp
          b.exchangeTs
        { om.setOrder p o with
          desk := om.desk.onOrderRemoves o b.cxledQty })
  | .orderRemoteReject, .orderReject b =>
      some (b.oid, fun om p => om.applyRejected p m.timestamp b.exchangeTs)
  | .orderCancelReject, .orderCxlReject b =>
      some (b.oid, fun om p =>
        om.setOrder p { om.order p with
          state := .cancelRejected
          lastResponseTime := m.timestamp })
  | .orderDestroy, .orderDestroy b =>
      some (b.oid, fun om _ =>
        { om with orders := om.orders.set b.oid.localID none })
  | _, _ => none

/-- `on_log_pending_cancel` to `on_log_cancelled`: extend, then index. -/
def onLogOrderU32 (om : OrderManager ℕ ι) (oid : OrderIdentifier)
    (update : OrderManager ℕ ι → ℕ → OrderManager ℕ ι) : Handled ι :=
  let om := (om.extendLocalIDHelperU32 oid).2
  ⟨match om.orderAt oid.localID with
    | some p => update om p
    | none => om, some oid.localID⟩

/-- `on_log_order_sent`. Without an instrument it goes straight to
`adopt_order_helper`, with a null pointer. -/
def onLogOrderSentU32 (create : CreateReplayOrder ι) (valid : ι → Bool)
    (om : OrderManager ℕ ι) (ts : Timestamp) (b : NewOrderBody ι) :
    Handled ι :=
  let name := b.oid.sessionName.toString
  if valid b.instrumentEsi then
    let op :=
      if name ∈ om.sessions.map Prod.fst then
        create name (b.replayOrder ts)
      else none
    let r := om.extendLocalIDHelperU32 b.oid
    if r.1 then
      ⟨r.2.adoptOrderHelper op b.oid.localID, some b.oid.localID⟩
    else ⟨om, none⟩
  else ⟨om.adoptOrderHelper none b.oid.localID, some b.oid.localID⟩

/-- `BlotterReader::decode`, for one record. -/
def decodeU32 (create : CreateReplayOrder ι) (valid : ι → Bool)
    (om : OrderManager ℕ ι) (m : Message ι) : Handled ι :=
  match m.type, m.body with
  | .orderLocalReject, .orderLocalReject b =>
      ⟨(om.extendLocalIDHelperU32 b.oid).2, none⟩
  | .orderSent, .orderSent b =>
      om.onLogOrderSentU32 create valid m.timestamp b
  | _, _ =>
      match logUpdate m with
      | some (oid, update) => om.onLogOrderU32 oid update
      | none => ⟨om, none⟩

end OrderManager

end TradingEngine.OE
