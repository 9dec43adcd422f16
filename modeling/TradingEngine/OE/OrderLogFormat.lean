/-
`oe/OrderLogFormat.hpp` and `FileBlotter::log_*`: the records of the
order log, and which record each order event writes.

A record is a header (type and timestamp; the length is that of the body)
and a body. The writer copies packed structs and the reader casts them
back, so a record is taken as the struct it holds; only the session name
is turned into bytes and back by code, and is bytes here.

# What the writer folds together

- A fill is written as `ORDER_FILL` or `ORDER_PARTIAL_FILL` by the order's
  state after it.
- Every cancel, partial or not, is written as `ORDER_CANCEL`.
- `log_new_order` writes nothing.
-/
import TradingEngine.OE.Order

namespace TradingEngine.OE

variable {ι : Type}

-- ========================================================= session names

/-- `std::isprint` in the C locale. -/
def isPrint (b : UInt8) : Bool := 32 ≤ b && b ≤ 126

/-- `union SessionName`: eight bytes. -/
structure SessionName where
  arr : Bytes
  length_eq : arr.length = 8
  deriving DecidableEq

/-- The bytes of a C string: up to the first NUL. -/
def cString (s : Bytes) : Bytes := s.takeWhile (· ≠ 0)

/-- `string_to_session_name`: `strncpy` of eight bytes, padded with NUL. -/
def stringToSessionName (s : Bytes) : SessionName where
  arr := (cString s).take 8
    ++ List.replicate (8 - ((cString s).take 8).length) 0
  length_eq := by
    rw [List.length_append, List.length_replicate, List.length_take]
    omega

/-- `SessionName::to_string`: the printable bytes up to the first NUL. -/
def SessionName.toString (n : SessionName) : Bytes :=
  (cString n.arr).filter isPrint

/-- What `add_session` asks of a name, and that its characters print. -/
structure NameOk (s : Bytes) : Prop where
  nonempty : s ≠ []
  fits : s.length ≤ 8
  printable : ∀ b ∈ s, isPrint b = true

instance (s : Bytes) : Decidable (NameOk s) :=
  decidable_of_iff
    (s ≠ [] ∧ s.length ≤ 8 ∧ s.all isPrint = true)
    ⟨fun h => ⟨h.1, h.2.1, List.all_eq_true.mp h.2.2⟩,
      fun h => ⟨h.nonempty, h.fits, List.all_eq_true.mpr h.printable⟩⟩

theorem isPrint_ne_zero {b : UInt8} (h : isPrint b = true) : b ≠ 0 := by
  rintro rfl
  cases h

theorem cString_append_replicate {s : Bytes} (h : ∀ b ∈ s, b ≠ 0)
    (n : Nat) : cString (s ++ List.replicate n 0) = s := by
  unfold cString
  induction s with
  | nil =>
      cases n with
      | zero => rfl
      | succ n => rfl
  | cons b s ih =>
      have hb : decide (b ≠ 0) = true := decide_eq_true (h b (by simp))
      rw [List.cons_append, List.takeWhile_cons, if_pos hb,
        ih fun c hc => h c (List.mem_cons_of_mem b hc)]

/-- A session name survives the log. -/
theorem toString_stringToSessionName {s : Bytes} (h : NameOk s) :
    (stringToSessionName s).toString = s := by
  have hnz : ∀ b ∈ s, b ≠ 0 := fun b hb => isPrint_ne_zero (h.printable b hb)
  have hc : cString s = s := by
    have := cString_append_replicate hnz 0
    rwa [List.replicate_zero, List.append_nil] at this
  have htake : s.take 8 = s := List.take_of_length_le h.fits
  show (cString ((cString s).take 8
    ++ List.replicate (8 - ((cString s).take 8).length) 0)).filter isPrint
    = s
  rw [hc, htake, cString_append_replicate hnz]
  exact List.filter_eq_self.mpr h.printable

-- ================================================================ records

/-- `enum class MessageType`. -/
inductive MessageType
  | unknown
  | timestamp
  | startOfLog
  | endOfLog
  | newInstrument
  | newOrder
  | orderLocalReject
  | orderSent
  | orderAcknowledgement
  | orderPartialFill
  | orderFill
  | orderCancelRequest
  | orderPartialCancel
  | orderCancel
  | orderCxlreplRequest
  | orderCancelReplace
  | orderRemoteReject
  | orderCancelReject
  | orderDestroy
  | position
  | manualPositionAdj
  | newSession
  | orderSessionData
  | newAccount
  deriving DecidableEq, Repr

structure OrderIdentifier where
  localAccount : Nat
  localID : Nat
  sessionName : SessionName
  deriving DecidableEq

@[ext] structure NewOrderBody (ι : Type) where
  instrumentEsi : ι
  marketMic : MIC
  oid : OrderIdentifier
  clientOrderID : Bytes
  origPrice : Rat
  size : Nat
  side : Side
  tif : TimeInForce
  type : OrderType
  userData : Nat
  size_lt : size < 4294967296

instance [DecidableEq ι] : DecidableEq (NewOrderBody ι) :=
  fun _ _ => decidable_of_iff' _ NewOrderBody.ext_iff

structure OrderAckBody where
  oid : OrderIdentifier
  openSize : Nat
  exchangeTs : Nat
  deriving DecidableEq

structure OrderFillBody where
  oid : OrderIdentifier
  filledQty : Nat
  filledPrice : Rat
  filledFeeCode : FillFeeCode
  exchangeTs : Nat
  deriving DecidableEq

structure OrderCxlReqBody where
  oid : OrderIdentifier
  newQty : Nat
  deriving DecidableEq

structure OrderCxlBody where
  oid : OrderIdentifier
  cxledQty : Nat
  exchangeTs : Nat
  deriving DecidableEq

structure OrderRejectBody where
  oid : OrderIdentifier
  exchangeTs : Nat
  deriving DecidableEq

structure OrderCxlRejectBody where
  oid : OrderIdentifier
  exchangeTs : Nat
  deriving DecidableEq

structure OrderDestroyBody where
  oid : OrderIdentifier
  deriving DecidableEq

structure NewSessionBody where
  name : SessionName
  marketMic : MIC
  deriving DecidableEq

/-- The bodies the order manager's writer produces. `OrderSentBody` and
`OrderLocalRejectBody` both hold one `NewOrderBody`. -/
inductive Body (ι : Type)
  | fileHeader
  | fileTrailer
  | orderLocalReject (order : NewOrderBody ι)
  | orderSent (order : NewOrderBody ι)
  | orderAck (b : OrderAckBody)
  | orderFill (b : OrderFillBody)
  | orderCxlReq (b : OrderCxlReqBody)
  | orderCxl (b : OrderCxlBody)
  | orderReject (b : OrderRejectBody)
  | orderCxlReject (b : OrderCxlRejectBody)
  | orderDestroy (b : OrderDestroyBody)
  | newSession (b : NewSessionBody)
  deriving DecidableEq

/-- `Message<T>`: the header's type and timestamp, and the body. -/
structure Message (ι : Type) where
  type : MessageType
  timestamp : Timestamp
  body : Body ι
  deriving DecidableEq

-- ============================================================= the writer

/-- `SessionName{0}`, for an order without a session. -/
def noSessionName : SessionName := stringToSessionName []

/-- The identifier every order record carries. -/
def orderIdentifier (o : Order ι) : OrderIdentifier where
  localAccount := o.localAccount
  localID := o.localID
  sessionName :=
    match o.session with
    | some name => stringToSessionName name
    | none => noSessionName

/-- The body shared by `log_order_sent` and `log_local_reject`. -/
def newOrderBody (o : Order ι) : NewOrderBody ι where
  instrumentEsi := o.instrument
  marketMic := o.market
  oid := orderIdentifier o
  clientOrderID := o.clientOrderID
  origPrice := o.originalPrice
  size := o.size
  side := o.side
  tif := o.tif
  type := o.type
  userData := o.userdata
  size_lt := o.size_lt

def logStart (now : Timestamp) : Message ι :=
  ⟨.startOfLog, now, .fileHeader⟩

def logEnd (now : Timestamp) : Message ι := ⟨.endOfLog, now, .fileTrailer⟩

def logOrderSent (o : Order ι) : Message ι :=
  ⟨.orderSent, o.sentTime, .orderSent (newOrderBody o)⟩

def logLocalReject (o : Order ι) : Message ι :=
  ⟨.orderLocalReject, o.creationTime, .orderLocalReject (newOrderBody o)⟩

def logPendingCancel (o : Order ι) (newQty : Nat) : Message ι :=
  ⟨.orderCancelRequest, o.lastRequestTime,
    .orderCxlReq ⟨orderIdentifier o, newQty⟩⟩

def logDestroy (o : Order ι) : Message ι :=
  ⟨.orderDestroy, o.lastRequestTime, .orderDestroy ⟨orderIdentifier o⟩⟩

def logAcknowledged (o : Order ι) : Message ι :=
  ⟨.orderAcknowledgement, o.lastResponseTime,
    .orderAck ⟨orderIdentifier o, o.openSize, o.lastExchangeTime⟩⟩

def logRejected (o : Order ι) : Message ι :=
  ⟨.orderRemoteReject, o.lastResponseTime,
    .orderReject ⟨orderIdentifier o, o.lastExchangeTime⟩⟩

def logFilled (o : Order ι) (fillSize : Nat) (fillPrice : Rat)
    (fillFeeCode : FillFeeCode) : Message ι :=
  ⟨if o.state = .filled then .orderFill else .orderPartialFill,
    o.lastResponseTime,
    .orderFill ⟨orderIdentifier o, fillSize, fillPrice, fillFeeCode,
      o.lastExchangeTime⟩⟩

def logCancelRejected (o : Order ι) : Message ι :=
  ⟨.orderCancelReject, o.lastResponseTime,
    .orderCxlReject ⟨orderIdentifier o, o.lastExchangeTime⟩⟩

def logCancelled (o : Order ι) (cxledQty : Nat) : Message ι :=
  ⟨.orderCancel, o.lastResponseTime,
    .orderCxl ⟨orderIdentifier o, cxledQty, o.lastExchangeTime⟩⟩

def logAddSession (name : Bytes) (market : MIC) (now : Timestamp) :
    Message ι :=
  ⟨.newSession, now, .newSession ⟨stringToSessionName name, market⟩⟩

end TradingEngine.OE
