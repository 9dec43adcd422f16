/-
A trading day with a `BOE20Session` in `ACTIVE` state: the messages the
exchange sends for the session's orders, among everything else that
happens to the order manager.

`leaves` is the exchange's side of an order: how much of it is open there,
from its acknowledgment on. The order manager never reads it.

# Guards

- `Sends`: what may come next. Messages are about orders that were sent
  and agree with `leaves`; other calls are orderly, and the exchange's
  reports on the session's orders come as messages.
- `RestatesWhole`: restatements are of one of two kinds.
- `Covered`: the shares that a message takes off are there, in the `Size`
  that the position counts them in.
-/
import TradingEngine.OE.BOE20Session
import Mathlib.Algebra.BigOperators.Group.Finset.Basic

namespace TradingEngine.OE

variable {ι : Type}

open BOE20

/-- The open quantity of an order after the message. -/
def BOE20.MessageBody.leavesAfter (leaves : Option Nat) :
    MessageBody → Option Nat
  | .orderAcknowledgment _ opt => some opt.leavesQty
  | .orderExecution lastShares _ => leaves.map (· - lastShares)
  | .orderCancelled leavesQty | .orderModified leavesQty => some leavesQty
  | .orderRestated _ leavesQty => some leavesQty
  | .tradeCancelOrCorrect => leaves

structure BOE20Day (ι : Type) where
  trading : Trading ℕ ι
  inboundSeqnum : Nat → Nat
  /-- What the exchange has open of an order, once it acknowledged it. -/
  leaves : ℕ → Option Nat

/-- What is open of an order's instrument on its side, over all orders. -/
def Trading.openBeside {ω : Type} [DecidableEq ω] [DecidableEq ι]
    (t : Trading ω ι) (w : ω) : Int :=
  let o := t.om.order w
  ∑ v ∈ t.live with (t.om.order v).instrument = o.instrument
      ∧ ((t.om.order v).side = .buy ↔ o.side = .buy),
    (t.om.order v).outstanding

namespace BOE20Day

inductive Move
  /-- An operation on the order manager. -/
  | call (e : Event ℕ)
  /-- A message that the session handles, and the time. -/
  | message (ts : Timestamp) (m : SequencedMessage)
  deriving DecidableEq

/-- The start of the day, logged in. -/
def start (c : OrderManagerConf ℕ ι) : BOE20Day ι :=
  ⟨Trading.start c, fun _ => 0, fun _ => none⟩

/-- The process whose day it is. -/
def process (d : BOE20Day ι) : Process ι :=
  ⟨d.trading.om, .active, d.inboundSeqnum⟩

variable [DecidableEq ι]

def step (s : BOE20Session ι) (d : BOE20Day ι) : Move → BOE20Day ι
  | .call e => { d with trading := d.trading.step e }
  | .message ts m =>
      let p := s.handle d.process ⟨.active, ts, m⟩
      { trading := { d.trading with om := p.om }
        inboundSeqnum := p.inboundSeqnum
        leaves :=
          match s.getOrder d.trading.om m.clOrdID.localID with
          | some w => Function.update d.leaves w
              (m.body.leavesAfter (d.leaves w))
          | none => d.leaves }

-- ================================================================ guards

/-- The exchange's reports on an order of the session are its messages;
only rejects come apart from them, of an order it never acknowledged or
of a request. -/
def Elsewhere (s : BOE20Session ι) (d : BOE20Day ι) : Event ℕ → Prop
  | .send .. | .cancel .. | .destroy .. => True
  | .acknowledged w _ _ _ _ => (d.trading.om.order w).session ≠ some s.name
  | .rejected w _ _ =>
      (d.trading.om.order w).session = some s.name → d.leaves w = none
  | .fill w _ _ _ _ _ => (d.trading.om.order w).session ≠ some s.name
  | .cancelled w _ _ _ => (d.trading.om.order w).session ≠ some s.name
  | .cancelRejected .. => True

/-- A message that goes on from the open quantity of the order: first an
acknowledgment of all of it, then quantities that do not grow. -/
def Consistent (d : BOE20Day ι) (w : ℕ) (m : SequencedMessage) : Prop :=
  match m.body with
  | .orderAcknowledgment _ opt =>
      d.leaves w = none
        ∧ opt.leavesQty = (d.trading.om.order w).size
        ∧ ¬ (m.clOrdID.brokerLoc = hprRejectBrokerLoc
          ∧ opt.orderQty = hprRejectOrderSize
          ∧ opt.symbol = hprRejectSymbol)
  | .orderExecution lastShares _ => ∃ n ∈ d.leaves w, lastShares ≤ n
  | .orderCancelled leavesQty | .orderModified leavesQty =>
      ∃ n ∈ d.leaves w, leavesQty ≤ n
  | .orderRestated orderQty leavesQty =>
      orderQty = (d.trading.om.order w).size
        ∧ ∃ n ∈ d.leaves w, leavesQty ≤ n
  | .tradeCancelOrCorrect => d.leaves w ≠ none

def Sends (s : BOE20Session ι) (d : BOE20Day ι) : Move → Prop
  | .call e => d.trading.Orderly e ∧ d.Elsewhere s e
  | .message _ m =>
      match s.getOrder d.trading.om m.clOrdID.localID with
      | some w => w ∈ d.trading.live ∧ d.Consistent w m
      | none => False

/-- A restatement keeps the open quantity and it is not zero, or it takes
an order to zero of which nothing has been executed or removed yet. -/
def RestatesWhole (s : BOE20Session ι) (d : BOE20Day ι) : Move → Prop
  | .call _ => True
  | .message _ m =>
      match s.getOrder d.trading.om m.clOrdID.localID, m.body with
      | some w, .orderRestated _ leavesQty =>
          (leavesQty ≠ 0 ∧ d.leaves w = some leavesQty)
            ∨ (leavesQty = 0
              ∧ d.leaves w = some (d.trading.om.order w).size)
      | _, _ => True

/-- The shares that a message takes off an acknowledged order are no more
than what the open orders of its instrument and side come to modulo
2^32. -/
def Covered (s : BOE20Session ι) (d : BOE20Day ι) : Move → Prop
  | .call _ => True
  | .message _ m =>
      match s.getOrder d.trading.om m.clOrdID.localID with
      | some w => ∀ n ∈ d.leaves w, ∀ n' ∈ m.body.leavesAfter (d.leaves w),
          n ≤ n' + u32 (d.trading.openBeside w)
      | none => True

instance (s : BOE20Session ι) (d : BOE20Day ι) (e : Event ℕ) :
    Decidable (d.Elsewhere s e) := by
  cases e <;> unfold Elsewhere <;> infer_instance

instance (d : BOE20Day ι) (w : ℕ) (m : SequencedMessage) :
    Decidable (d.Consistent w m) := by
  unfold Consistent
  split <;> infer_instance

instance (s : BOE20Session ι) (d : BOE20Day ι) (e : Move) :
    Decidable (d.Sends s e) := by
  unfold Sends
  split
  · infer_instance
  · split <;> infer_instance

instance (s : BOE20Session ι) (d : BOE20Day ι) (e : Move) :
    Decidable (d.RestatesWhole s e) := by
  unfold RestatesWhole
  split
  · infer_instance
  · split <;> infer_instance

instance (s : BOE20Session ι) (d : BOE20Day ι) (e : Move) :
    Decidable (d.Covered s e) := by
  unfold Covered
  split
  · infer_instance
  · split <;> infer_instance

end BOE20Day

end TradingEngine.OE
