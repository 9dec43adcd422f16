/-
Modifications of BOE orders: what is asked of the exchange, and what its
answer does.

With the sizes of an order adding up, `send_modify` asks for the filled
size and the new quantity together, and `OrderModified` takes the rest of
the open size off. Both are a reduction exactly if less than the open size
is asked for; `cancel` compares with the size of the order instead.

# The answer

An `OrderModified` says what is left of the order, and the handler cancels
the difference to what it has open itself. If other messages came before the
answer, less is open by then, but never less than the exchange says is left.
So an answer brings the order to the quantity asked for, if that was a
reduction (`reduced_of_answers`), whatever came in between.
-/
import TradingEngine.OE.Proofs.BOE20Send

namespace TradingEngine.OE

open BOE20

variable {ι : Type}

-- ============================================================== statements

/-- Filled, open and cancelled sizes make up the order. -/
def Order.SizesAddUp (o : Order ι) : Prop :=
  o.filledSize + o.openSize + o.cancelledSize = o.size

instance (o : Order ι) : Decidable o.SizesAddUp :=
  inferInstanceAs (Decidable (_ = _))

/-- The message leaves the quantity open, of more than that. -/
structure BOE20.ModifyOrder.Reduces (m : ModifyOrder) (op : Order ι)
    (newqty : Nat) : Prop where
  left : (m.orderQty : Int) - op.filledSize = newqty
  less : (m.orderQty : Int) < op.size - op.cancelledSize

/-- The exchange answers that the quantity is left of the order `w`, which
is the one of the request: as it was, or, if other messages came first,
with at least as much open. -/
structure BOE20.Answers (s : BOE20Session ι) (op : Order ι) (newqty : Nat)
    (p : Process ι) (w : ℕ) (r : Reading) : Prop where
  known : s.getOrder p.om r.message.clOrdID.localID = some w
  body : r.message.body = .orderModified newqty
  size : (p.om.order w).size = op.size
  sizes : (p.om.order w).SizesAddUp
  openSize : (p.om.order w).openSize = op.openSize
    ∨ newqty ≤ (p.om.order w).openSize

/-- What a modification is for: the message of the request reduces the
order to the quantity, and so does the answer. -/
def BOE20Call.ReducesTo [DecidableEq ι] (c : BOE20Call ι)
    (s : BOE20Session ι) (op : Order ι) (newqty : Nat) : Prop :=
  (∃ m, c.written = some (.modifyOrder m) ∧ m.Reduces op newqty)
    ∧ ∀ p w r, Answers s op newqty p w r →
      ((s.handle p r).om.order w).openSize = newqty
        ∧ ((s.handle p r).om.order w).SizesAddUp

-- ================================================================= request

/-- A cancel with a new quantity that returns true has written a modify. -/
theorem BOE20Sender.written_of_cancel {s : BOE20Sender ι} {op : Order ι}
    {newqty : Nat} {terms : OrderTerms} {io : Io} (hnew : 0 < newqty)
    (hresult : (s.cancel op newqty terms io).result = true) :
    ∃ m, (s.cancel op newqty terms io).written = some (.modifyOrder m)
      ∧ m.orderQty = u32 ((newqty : Int) + (op.size - op.cancelledSize)
        - op.openSize) := by
  unfold cancel at hresult ⊢
  rw [if_pos (show newqty ≠ 0 by omega)] at hresult ⊢
  split at hresult
  case isTrue => cases hresult
  case isFalse hactive =>
    rw [if_neg hactive]
    split at hresult
    case isTrue => cases hresult
    case isFalse hless =>
      rw [if_neg hless]
      rcases sendModify_ends op newqty terms io with
        ⟨-, m, hqty, hwrote⟩ | ⟨-, href⟩
      · exact ⟨m, hwrote.written, hqty⟩
      · rw [href.result] at hresult
        cases hresult

/-- With sizes that add up the message reduces the order exactly if the
quantity is below what is open. -/
theorem reduces_iff {op : Order ι} (hsizes : op.SizesAddUp) {newqty : Nat}
    {m : ModifyOrder}
    (hqty : m.orderQty = u32 ((newqty : Int) + (op.size - op.cancelledSize)
      - op.openSize)) :
    m.Reduces op newqty ↔ newqty < op.openSize := by
  have hlt := op.size_lt
  have hlt' := u32_lt ((newqty : Int) + (op.size - op.cancelledSize)
    - op.openSize)
  unfold Order.SizesAddUp at hsizes
  have hsum : (newqty : Int) + (op.size - op.cancelledSize) - op.openSize
      = newqty + op.filledSize := by omega
  rw [hsum] at hqty
  constructor
  · intro h
    have hleft := h.left
    have hless := h.less
    omega
  · intro hless
    have hfits : (u32 ((newqty : Int) + op.filledSize) : Int)
        = newqty + op.filledSize :=
      u32_of_fits (by omega) (by omega)
    constructor
    · omega
    · omega

-- ================================================================== answer

variable [DecidableEq ι]

/-- The answer takes away what is open beyond the quantity. -/
theorem order_handle_modified {s : BOE20Session ι} {p : Process ι} {w : ℕ}
    {r : Reading} {leavesQty : Nat}
    (hknown : s.getOrder p.om r.message.clOrdID.localID = some w)
    (hbody : r.message.body = .orderModified leavesQty) :
    (s.handle p r).om.order w
      = if leavesQty ≠ (p.om.order w).openSize then
          orderUpdateOnCancel (p.om.order w)
            (u32 (((p.om.order w).openSize : Int) - leavesQty)) r.ts
            r.message.transactionTime
        else p.om.order w := by
  have hknown' : s.getOrder (p.inState r.state).om
      r.message.clOrdID.localID = some w := hknown
  unfold BOE20Session.handle BOE20Session.effects
  dsimp only
  rw [hbody]
  dsimp only
  rw [hknown']
  unfold BOE20Session.handleKnown
  rw [hbody]
  show (Process.performAll (p.inState r.state) (.storeSeqnum _ ::
      if leavesQty ≠ (p.om.order w).openSize then _ else [])).om.order w = _
  split
  case isTrue => exact Function.update_self ..
  case isFalse => rfl

/-- Whatever the exchange answers, the order is left with the new quantity
open if that is less than before. -/
theorem reduced_of_answers {s : BOE20Session ι} {op : Order ι}
    {newqty : Nat} (hless : newqty < op.openSize) {p : Process ι} {w : ℕ}
    {r : Reading} (h : Answers s op newqty p w r) :
    ((s.handle p r).om.order w).openSize = newqty
      ∧ ((s.handle p r).om.order w).SizesAddUp := by
  have hsizes := h.sizes
  have hlt := (p.om.order w).size_lt
  have hle : newqty ≤ (p.om.order w).openSize := by
    rcases h.openSize with hsame | hle
    · omega
    · exact hle
  unfold Order.SizesAddUp at hsizes
  rw [order_handle_modified h.known h.body]
  split
  case isTrue hdiffers =>
    rw [u32_sub_of_le (by omega) hle]
    have hopen := openSize_cancel (o := p.om.order w) (by omega)
      ((p.om.order w).openSize - newqty) r.ts r.message.transactionTime
    have hcancelled := cancelledSize_cancel (o := p.om.order w)
      (n := (p.om.order w).openSize - newqty) (by omega) r.ts
      r.message.transactionTime
    refine ⟨by omega, ?_⟩
    unfold Order.SizesAddUp
    rw [hopen, hcancelled, size_cancel, filledSize_cancel]
    omega
  case isFalse hsame => exact ⟨(not_not.mp hsame).symm, hsizes⟩

-- ================================================================== result

/-- Of the modifications that `cancel` takes for an order whose sizes add
up, those reduce it to the quantity asked for that ask for less than is
open. -/
theorem modify_reduces_iff (s : BOE20Sender ι) {op : Order ι}
    (hsizes : op.SizesAddUp) {newqty : Nat} (hnew : 0 < newqty)
    (terms : OrderTerms) (io : Io)
    (hresult : (s.cancel op newqty terms io).result = true) :
    (s.cancel op newqty terms io).ReducesTo s.toBOE20Session op newqty
      ↔ newqty < op.openSize := by
  obtain ⟨m, hm, hqty⟩ := BOE20Sender.written_of_cancel hnew hresult
  constructor
  · intro h
    obtain ⟨m', hm', hreduces⟩ := h.1
    rw [hm] at hm'
    cases hm'
    exact (reduces_iff hsizes hqty).mp hreduces
  · intro hless
    exact ⟨⟨m, hm, (reduces_iff hsizes hqty).mpr hless⟩,
      fun p w r hanswers => reduced_of_answers hless hanswers⟩

/-- A hundred bought, sixty of them filled. -/
def sixtyFilled : Order Unit :=
  { Order.create (.dayLimit () .buy 100 5) with
    state := .partiallyFilled
    localID := 1
    filledSize := 60
    openSize := 40 }

/-- An active session that has sent the order. -/
def BOE20Sender.withOrder : BOE20Sender Unit :=
  { BOE20Sender.plain with idMap := fun _ => some [65] }

open BOE20Sender

/-- With thirty to be left, the order is for ninety, and thirty are left. -/
theorem modify_reduces_iff_demo :
    (withOrder.cancel sixtyFilled 30 .init (answering 77)).ReducesTo
      withOrder.toBOE20Session sixtyFilled 30 :=
  (modify_reduces_iff withOrder (by decide) (by decide) .init
    (answering 77) (by decide)).mpr (by decide)

/-- With fifty to be left, of the forty that are open, the request goes out
and is for 110. -/
theorem modify_increases :
    sixtyFilled.SizesAddUp
      ∧ (withOrder.cancel sixtyFilled 50 .init (answering 77)).result = true
      ∧ ∃ m, (withOrder.cancel sixtyFilled 50 .init
          (answering 77)).written = some (.modifyOrder m)
        ∧ m.orderQty = 110 ∧ ¬m.Reduces sixtyFilled 50 := by
  refine ⟨by decide, by decide, _, rfl, by decide, fun h => ?_⟩
  exact absurd h.less (by decide)

end TradingEngine.OE
