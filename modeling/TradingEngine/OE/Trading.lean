/-
A trading day: the operations on one order manager as events, and what an
observer remembers of them.

`Trading` pairs the order manager with the history of its orders: which
were handed to `send`, for which it returned true, and which of these
were acknowledged, rejected or destroyed. The history is what statements
quantify over; the order manager never reads it.

# Guards

Three guards say which events may come next. Each sends an order at most
once.

- `Within`: events for orders that have a session, sizes within what is
  outstanding.
- `Orderly`: events for sent orders, no fill or cancel after a reject, at
  most one reject and only of an order nothing has happened to.
- `Logged`: `Within` over registered sessions, with `destroy`, for orders
  that were sent and not destroyed.
-/
import TradingEngine.OE.OrderManager
import Mathlib.Data.Finset.SDiff
import Mathlib.Data.Finset.Insert

namespace TradingEngine.OE

variable {ω ι : Type}

/-- The operations on the order manager, with what sessions answer. -/
inductive Event (ω : Type)
  | send (w : ω) (session : Bytes) (a : OrderManager.SendAnswer)
  | cancel (w : ω) (newqty : Nat) (a : OrderManager.CancelAnswer)
  | destroy (w : ω) (onlyIfTerminal sessionDestroys : Bool)
  | acknowledged (w : ω) (exchangeID size : Nat) (ts : Timestamp)
      (exts : Nat)
  | rejected (w : ω) (ts : Timestamp) (exts : Nat)
  | fill (w : ω) (size : Nat) (price : Rat) (ts : Timestamp) (exts : Nat)
      (feeCode : FillFeeCode)
  | cancelled (w : ω) (size : Nat) (ts : Timestamp) (exts : Nat)
  | cancelRejected (w : ω) (ts : Timestamp) (exts : Nat)
  deriving DecidableEq

/-- The order an event is about. -/
def Event.about : Event ω → ω
  | .send w _ _ => w
  | .cancel w _ _ => w
  | .destroy w _ _ => w
  | .acknowledged w _ _ _ _ => w
  | .rejected w _ _ => w
  | .fill w _ _ _ _ _ => w
  | .cancelled w _ _ _ => w
  | .cancelRejected w _ _ => w

/-- The order an event of the exchange is about. -/
def Event.reportOn : Event ω → Option ω
  | .send .. | .cancel .. | .destroy .. => none
  | .acknowledged w _ _ _ _ => some w
  | .rejected w _ _ => some w
  | .fill w _ _ _ _ _ => some w
  | .cancelled w _ _ _ => some w
  | .cancelRejected w _ _ => some w

namespace OrderManager

variable [DecidableEq ω] [DecidableEq ι]

/-- An event of the exchange, before its log record. -/
def update (om : OrderManager ω ι) : Event ω → OrderManager ω ι
  | .send .. | .cancel .. | .destroy .. => om
  | .acknowledged w exchangeID size ts exts =>
      om.applyAcknowledged w exchangeID size ts exts
  | .rejected w ts exts => om.applyRejected w ts exts
  | .fill w size price ts exts feeCode =>
      om.applyFill w size price ts exts feeCode
  | .cancelled w size ts exts => om.applyCancel w size ts exts
  | .cancelRejected w ts exts => om.applyCancelRejected w ts exts

/-- The record of the event, in the state the update left. -/
def record (om : OrderManager ω ι) : Event ω → List (Message ι)
  | .send .. | .cancel .. | .destroy .. => []
  | .acknowledged w _ _ _ _ => [logAcknowledged (om.order w)]
  | .rejected w _ _ => [logRejected (om.order w)]
  | .fill w size price _ _ feeCode =>
      [logFilled (om.order w) size price feeCode]
  | .cancelled w size _ _ => [logCancelled (om.order w) size]
  | .cancelRejected w _ _ => [logCancelRejected (om.order w)]

theorem update_orderlog (om : OrderManager ω ι) (e : Event ω) :
    (om.update e).orderlog = om.orderlog := by
  cases e <;> rfl

/-- The record, appended. -/
def logReport (om : OrderManager ω ι) (e : Event ω) : OrderManager ω ι :=
  { om with orderlog := om.orderlog ++ om.record e }

end OrderManager

structure Trading (ω ι : Type) where
  om : OrderManager ω ι
  /-- Handed to `send`. -/
  seen : Finset ω
  /-- `send` returned true. -/
  sent : Finset ω
  acked : Finset ω
  rejected : Finset ω
  destroyed : Finset ω

namespace Trading

/-- The start of the day. -/
def start (c : OrderManagerConf ω ι) : Trading ω ι :=
  ⟨OrderManager.start c, ∅, ∅, ∅, ∅, ∅⟩

variable [DecidableEq ω] [DecidableEq ι]

/-- One operation. -/
def step (t : Trading ω ι) : Event ω → Trading ω ι
  | .send w session a =>
      let r := t.om.send w session a
      { t with
        om := r.2
        seen := insert w t.seen
        sent := if r.1 then insert w t.sent else t.sent }
  | .cancel w newqty a => { t with om := (t.om.cancel w newqty a).2 }
  | .destroy w onlyIfTerminal sessionDestroys =>
      let r := t.om.destroy w onlyIfTerminal sessionDestroys
      { t with
        om := r.2
        destroyed := if r.1 then insert w t.destroyed else t.destroyed }
  | .acknowledged w exchangeID size ts exts =>
      { t with
        om := t.om.onAcknowledged w exchangeID size ts exts
        acked := insert w t.acked }
  | .rejected w ts exts =>
      { t with
        om := t.om.onRejected w ts exts
        rejected := insert w t.rejected }
  | .fill w size price ts exts feeCode =>
      { t with om := t.om.onFill w size price ts exts feeCode }
  | .cancelled w size ts exts =>
      { t with om := t.om.onCancel w size ts exts }
  | .cancelRejected w ts exts =>
      { t with om := t.om.onCancelRejected w ts exts }

/-- An event of the exchange is an update, then its record. -/
theorem step_report (t : Trading ω ι) {e : Event ω} {w : ω}
    (he : e.reportOn = some w) :
    (t.step e).om = (t.om.update e).logReport e := by
  cases e with
  | send v session a => cases he
  | cancel v newqty a => cases he
  | destroy v onlyIfTerminal sessionDestroys => cases he
  | _ => rfl

-- ================================================================ guards

/-- Sizes within the outstanding size; an order without a session is
never reported on (each handler would dereference the session). -/
def Within (t : Trading ω ι) : Event ω → Prop
  | .send w _ _ => w ∉ t.seen
  | .cancel .. => True
  | .destroy .. => False
  | .acknowledged w _ size _ _ =>
      (t.om.order w).session ≠ none ∧ size = (t.om.order w).size
  | .rejected w _ _ => (t.om.order w).session ≠ none
  | .fill w size _ _ _ _ =>
      (t.om.order w).session ≠ none
        ∧ (size : Int) ≤ (t.om.order w).outstanding
  | .cancelled w size _ _ =>
      (t.om.order w).session ≠ none
        ∧ (size : Int) ≤ (t.om.order w).outstanding
  | .cancelRejected w _ _ => (t.om.order w).session ≠ none

/-- An exchange that reports only on what it was sent, rejects an order
at most once and only before anything happened to it, and reports no fill
or cancel after. -/
def Orderly (t : Trading ω ι) : Event ω → Prop
  | .send w _ _ => w ∉ t.seen
  | .cancel .. => True
  | .destroy .. => False
  | .acknowledged w _ size _ _ =>
      w ∈ t.sent ∧ size = (t.om.order w).size
  | .rejected w _ _ =>
      w ∈ t.sent ∧ w ∉ t.rejected
        ∧ (t.om.order w).filledSize = 0 ∧ (t.om.order w).cancelledSize = 0
  | .fill w size _ _ _ _ =>
      w ∈ t.sent ∧ w ∉ t.rejected
        ∧ (size : Int) ≤ (t.om.order w).outstanding
  | .cancelled w size _ _ =>
      w ∈ t.sent ∧ w ∉ t.rejected
        ∧ (size : Int) ≤ (t.om.order w).outstanding
  | .cancelRejected w _ _ => w ∈ t.sent

/-- Registered sessions with names the log can carry, each order sent to a
session of its market (`send` asserts it), events for orders that are
still there. -/
def Logged (t : Trading ω ι) : Event ω → Prop
  | .send w session _ => w ∉ t.seen ∧ w ∉ t.destroyed
      ∧ (session, (t.om.order w).market) ∈ t.om.sessions ∧ NameOk session
  | .cancel w _ _ => w ∉ t.destroyed
  | .destroy w _ _ => w ∉ t.destroyed
  | .acknowledged w _ _ _ _ => w ∈ t.sent ∧ w ∉ t.destroyed
  | .rejected w _ _ => w ∈ t.sent ∧ w ∉ t.destroyed
  | .fill w size _ _ _ _ =>
      w ∈ t.sent ∧ w ∉ t.destroyed
        ∧ (size : Int) ≤ (t.om.order w).outstanding
  | .cancelled w size _ _ =>
      w ∈ t.sent ∧ w ∉ t.destroyed
        ∧ (size : Int) ≤ (t.om.order w).outstanding
  | .cancelRejected w _ _ => w ∈ t.sent ∧ w ∉ t.destroyed

instance (t : Trading ω ι) (e : Event ω) : Decidable (t.Within e) := by
  cases e <;> unfold Within <;> infer_instance

instance (t : Trading ω ι) (e : Event ω) : Decidable (t.Orderly e) := by
  cases e <;> unfold Orderly <;> infer_instance

instance (t : Trading ω ι) (e : Event ω) : Decidable (t.Logged e) := by
  cases e <;> unfold Logged <;> infer_instance

-- ============================================================ assertions

/-- `asserts` of the `sub_open_*` call the operation makes, or in `send`
would make should the session refuse the order. A fill and the locates it
gives back leave the open sizes alone before the call. -/
def Asserts (asserts : Position → Order ι → Nat → Prop)
    (t : Trading ω ι) : Event ω → Prop
  | .send w session _ =>
      let om := (((t.om.takeLocalID w).riskCheck w).2.instrumentCheck
        w).2.addOpen w session
      asserts (om.desk.position (om.order w).instrument) (om.order w)
        (om.order w).size
  | .rejected w _ _ =>
      asserts (t.om.desk.position (t.om.order w).instrument) (t.om.order w)
        (t.om.order w).size
  | .fill w size _ _ _ _ =>
      asserts (t.om.desk.position (t.om.order w).instrument) (t.om.order w)
        size
  | .cancelled w size _ _ =>
      asserts (t.om.desk.position (t.om.order w).instrument) (t.om.order w)
        size
  | _ => True

/-- The assertion as compiled, on the members. -/
def AssertsHeld (t : Trading ω ι) (e : Event ω) : Prop :=
  t.Asserts FirmRiskCheck.removesHeld e

/-- The assertion of sizes taken as integers. -/
def AssertsHold (t : Trading ω ι) (e : Event ω) : Prop :=
  t.Asserts FirmRiskCheck.removesAssert e

/-- The orders counted as open: sent and not rejected. -/
def live (t : Trading ω ι) : Finset ω := t.sent \ t.rejected

end Trading

end TradingEngine.OE
