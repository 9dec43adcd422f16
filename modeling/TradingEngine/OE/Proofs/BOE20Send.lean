/-
What a BOE session reports of a write.

Each of the three messages is made of checks that refuse the order, and
then of a write, after which nothing is looked at. So a call has two ends
(`Refused`, `Wrote`), which of them it comes to is a matter of the order
and the session (`NewOrderFits`, `CancelFits`), and what the connection
made of the message is not reported by either.

# The order manager

What `OrderManager::send` does with an order goes by the answer of the
session alone (`markedSent_iff`): an order that is not on its way is marked
and logged as sent, and has its exposure and its locates counted, until the
day is over. So the condition is on the connection: either the order is
refused before anything is written, or all of the message is taken
(`write_reported_iff`).
-/
import TradingEngine.OE.BOE20Send
import TradingEngine.OE.Proofs.Send

namespace TradingEngine.OE

open BOE20

variable {ι : Type}

-- ============================================================ the two ends

namespace BOE20Call

/-- Nothing was written. -/
structure Refused (r : BOE20Call ι) (s : BOE20Sender ι) : Prop where
  result : r.result = false
  written : r.written = none
  seqnum : r.session.outboundSeqnum = s.outboundSeqnum

/-- The message was written, under the next number. -/
structure Wrote (r : BOE20Call ι) (s : BOE20Sender ι)
    (m : OutboundMessage) : Prop where
  result : r.result = true
  written : r.written = some m
  seqnum : r.session.outboundSeqnum = s.outboundSeqnum + 1

/-- The connection took all of the message that was written. -/
def AllAccepted (r : BOE20Call ι) (io : Io) : Prop :=
  ∃ m, r.written = some m ∧ io.accepted = m.msglen

/-- True is returned only if all of the message was taken, and false only
if no sequence number was used. -/
def Reported (r : BOE20Call ι) (s : BOE20Sender ι) (io : Io) : Prop :=
  (r.result = true → r.AllAccepted io)
    ∧ (r.result = false → r.session.outboundSeqnum = s.outboundSeqnum)

variable {r : BOE20Call ι} {s : BOE20Sender ι} {io : Io}
  {m : OutboundMessage}

/-- All of a message is accepted if as many bytes are as it has. -/
theorem Wrote.allAccepted_iff (h : r.Wrote s m) :
    r.AllAccepted io ↔ io.accepted = m.msglen := by
  constructor
  · intro hall
    obtain ⟨m', hm', haccepted⟩ := hall
    rw [h.written] at hm'
    cases hm'
    exact haccepted
  · intro haccepted
    exact ⟨m, h.written, haccepted⟩

/-- A call that wrote returns true, so the report is right only then. -/
theorem Wrote.reported_iff (h : r.Wrote s m) :
    r.Reported s io ↔ io.accepted = m.msglen := by
  rw [← h.allAccepted_iff]
  constructor
  · intro hreported
    exact hreported.1 h.result
  · intro hall
    refine ⟨fun _ => hall, fun hfalse => ?_⟩
    rw [h.result] at hfalse
    cases hfalse

/-- A refusal is reported as such. -/
theorem Refused.reported (h : r.Refused s) : r.Reported s io := by
  refine ⟨fun htrue => ?_, fun _ => h.seqnum⟩
  rw [h.result] at htrue
  cases htrue

/-- A call that writes a message of `len` exactly if `fits`. -/
theorem reported_iff_of_ends {fits : Prop} {len : Nat}
    (h : (fits ∧ ∃ m : OutboundMessage, m.msglen = len ∧ r.Wrote s m)
      ∨ (¬fits ∧ r.Refused s)) :
    r.Reported s io ↔ (fits → io.accepted = len) := by
  rcases h with ⟨hfits, m, hlen, hwrote⟩ | ⟨hnot, hrefused⟩
  · rw [hwrote.reported_iff, hlen]
    exact ⟨fun h _ => h, fun h => h hfits⟩
  · exact iff_of_true hrefused.reported fun hfits => absurd hfits hnot

end BOE20Call

open BOE20Call

-- =============================================================== the checks

namespace BOE20Sender

/-- A buffer is free, and the order has all that the message takes. -/
def NewOrderFits (s : BOE20Sender ι) (op : Order ι) (terms : OrderTerms) :
    Prop :=
  s.noBufs ≠ [] ∧ sideFromOrder op.side ≠ none ∧ op.size ≤ maxOrderQty
    ∧ execInstFromOrder s.market op.type terms.execInst ≠ none
    ∧ ordTypeFromOrder op.type ≠ none ∧ tifFromOrder op.tif ≠ none

/-- Likewise for a modification, which needs the id of the order. -/
def ModifyFits (s : BOE20Sender ι) (op : Order ι) (terms : OrderTerms) :
    Prop :=
  s.idMap op.localID ≠ none ∧ s.modBufs ≠ []
    ∧ ordTypeFromOrder op.type ≠ none
    ∧ execInstFromOrder s.market op.type terms.execInst ≠ none
    ∧ sideFromOrder op.side ≠ none

/-- Likewise for `cancel`, which modifies if a quantity is to be left. -/
def CancelFits (s : BOE20Sender ι) (op : Order ι) (newqty : Nat)
    (terms : OrderTerms) : Prop :=
  if newqty ≠ 0 then newqty < op.size ∧ s.ModifyFits op terms
  else s.cxlBufs ≠ []

/-- The length of what `cancel` writes. -/
def cancelLength (newqty : Nat) : Nat :=
  if newqty ≠ 0 then 77 else 36

variable (s : BOE20Sender ι)

/-- Noting an id takes no sequence number. -/
@[simp] theorem insertId_outboundSeqnum (localID : Nat) (id : Bytes) :
    (s.insertId localID id).outboundSeqnum = s.outboundSeqnum := by
  unfold insertId
  split <;> rfl

/-- It leaves the market. -/
@[simp] theorem insertId_market (localID : Nat) (id : Bytes) :
    (s.insertId localID id).market = s.market := by
  unfold insertId
  split <;> rfl

/-- And the free list. -/
@[simp] theorem insertId_cxlBufs (localID : Nat) (id : Bytes) :
    (s.insertId localID id).cxlBufs = s.cxlBufs := by
  unfold insertId
  split <;> rfl

/-- A write takes a sequence number, also when it fails. -/
@[simp] theorem write_outboundSeqnum (io : Io) :
    (s.write io).outboundSeqnum = s.outboundSeqnum + 1 := by
  unfold write sendHelperNolock
  split <;> rfl

variable {s}

/-- The two ends of a new order. -/
theorem sendNewOrder_ends (op : Order ι) (terms : OrderTerms) (io : Io) :
    (s.NewOrderFits op terms
        ∧ ∃ m, (s.sendNewOrder op terms io).Wrote s (.newOrder m))
      ∨ (¬s.NewOrderFits op terms
        ∧ (s.sendNewOrder op terms io).Refused s) := by
  unfold sendNewOrder NewOrderFits
  cases hbufs : s.noBufs with
  | nil => exact .inr ⟨fun h => h.1 rfl, rfl, rfl, rfl⟩
  | cons buf noBufs =>
      dsimp only
      cases hside : sideFromOrder op.side with
      | none => exact .inr ⟨fun h => h.2.1 rfl, rfl, rfl, by simp⟩
      | some side =>
          dsimp only
          by_cases hsize : op.size > maxOrderQty
          · rw [if_pos hsize]
            exact .inr ⟨fun h => absurd h.2.2.1 (by omega), rfl, rfl,
              by simp⟩
          · rw [if_neg hsize, insertId_market]
            cases hexec : execInstFromOrder s.market op.type
                terms.execInst with
            | none =>
                exact .inr ⟨fun h => h.2.2.2.1 rfl, rfl, rfl, by simp⟩
            | some execInst =>
                dsimp only
                cases htype : ordTypeFromOrder op.type with
                | none =>
                    exact .inr ⟨fun h => h.2.2.2.2.1 rfl, rfl, rfl,
                      by simp⟩
                | some ordType =>
                    dsimp only
                    cases htif : tifFromOrder op.tif with
                    | none =>
                        exact .inr ⟨fun h => h.2.2.2.2.2 rfl, rfl, rfl,
                          by simp⟩
                    | some tif =>
                        exact .inl ⟨⟨nofun, nofun, by omega, nofun, nofun,
                          nofun⟩, _, rfl, rfl, by simp⟩

/-- The two ends of a cancel. -/
theorem sendCancel_ends (op : Order ι) (terms : OrderTerms) (io : Io) :
    (s.cxlBufs ≠ []
        ∧ ∃ m, (s.sendCancel op terms io).Wrote s (.cancelOrder m))
      ∨ (¬s.cxlBufs ≠ [] ∧ (s.sendCancel op terms io).Refused s) := by
  unfold sendCancel
  dsimp only
  rw [insertId_cxlBufs]
  cases s.cxlBufs with
  | nil => exact .inr ⟨fun h => h rfl, rfl, rfl, by simp⟩
  | cons buf cxlBufs => exact .inl ⟨nofun, _, rfl, rfl, by simp⟩

/-- The two ends of a modify, and the quantity it writes. -/
theorem sendModify_ends (op : Order ι) (newqty : Nat) (terms : OrderTerms)
    (io : Io) :
    (s.ModifyFits op terms
        ∧ ∃ m, m.orderQty = u32 ((newqty : Int)
            + (op.size - op.cancelledSize) - op.openSize)
          ∧ (s.sendModify op newqty terms io).Wrote s (.modifyOrder m))
      ∨ (¬s.ModifyFits op terms
        ∧ (s.sendModify op newqty terms io).Refused s) := by
  unfold sendModify ModifyFits
  cases s.idMap op.localID with
  | none => exact .inr ⟨fun h => h.1 rfl, rfl, rfl, rfl⟩
  | some id =>
      cases s.modBufs with
      | nil => exact .inr ⟨fun h => h.2.1 rfl, rfl, rfl, rfl⟩
      | cons buf modBufs =>
          dsimp only
          cases ordTypeFromOrder op.type with
          | none => exact .inr ⟨fun h => h.2.2.1 rfl, rfl, rfl, rfl⟩
          | some ordType =>
              dsimp only
              cases execInstFromOrder s.market op.type terms.execInst with
              | none => exact .inr ⟨fun h => h.2.2.2.1 rfl, rfl, rfl, rfl⟩
              | some execInst =>
                  dsimp only
                  cases sideFromOrder op.side with
                  | none =>
                      exact .inr ⟨fun h => h.2.2.2.2 rfl, rfl, rfl, rfl⟩
                  | some side =>
                      exact .inl ⟨⟨nofun, nofun, nofun, nofun, nofun⟩, _,
                        rfl, rfl, rfl, by simp⟩

/-- The two ends of `send`, of which the first writes 112 bytes. -/
theorem send_ends (hactive : s.state = .active) (op : Order ι)
    (terms : OrderTerms) (io : Io) :
    (s.NewOrderFits op terms
        ∧ ∃ m : OutboundMessage, m.msglen = 112
          ∧ (s.send op terms io).Wrote s m)
      ∨ (¬s.NewOrderFits op terms ∧ (s.send op terms io).Refused s) := by
  unfold send
  rw [if_neg (not_not.mpr hactive)]
  rcases sendNewOrder_ends op terms io with ⟨hfits, m, hwrote⟩ | href
  · exact .inl ⟨hfits, _, rfl, hwrote⟩
  · exact .inr href

/-- The two ends of `cancel`, by the message that is written. -/
theorem cancel_ends (hactive : s.state = .active) (op : Order ι)
    (newqty : Nat) (terms : OrderTerms) (io : Io) :
    (s.CancelFits op newqty terms
        ∧ ∃ m : OutboundMessage, m.msglen = cancelLength newqty
          ∧ (s.cancel op newqty terms io).Wrote s m)
      ∨ (¬s.CancelFits op newqty terms
        ∧ (s.cancel op newqty terms io).Refused s) := by
  unfold cancel CancelFits cancelLength
  rw [if_neg (not_not.mpr hactive)]
  by_cases hzero : newqty ≠ 0
  · rw [if_pos hzero, if_pos hzero, if_pos hzero]
    by_cases hle : newqty ≥ op.size
    · rw [if_pos hle]
      exact .inr ⟨fun h => absurd h.1 (by omega), rfl, rfl, rfl⟩
    · rw [if_neg hle, and_iff_right (show newqty < op.size by omega)]
      rcases sendModify_ends op newqty terms io with
        ⟨hfits, m, -, hwrote⟩ | href
      · exact .inl ⟨hfits, _, rfl, hwrote⟩
      · exact .inr href
  · rw [if_neg hzero, if_neg hzero, if_neg hzero]
    rcases sendCancel_ends op terms io with ⟨hbufs, m, hwrote⟩ | href
    · exact .inl ⟨hbufs, _, rfl, hwrote⟩
    · exact .inr href

end BOE20Sender

-- ======================================================= the order manager

variable {ω : Type} [DecidableEq ω] [DecidableEq ι]

namespace OrderManager

/-- `send` marked the order as sent, or logged it as sent. -/
def MarkedSent (om : OrderManager ω ι) (w : ω) (om' : OrderManager ω ι) :
    Prop :=
  (om'.order w).state = .sent
    ∨ ∃ m ∈ om'.orderlog.drop om.orderlog.length, m.type = .orderSent

/-- The order manager goes by the answer of the session alone. -/
theorem markedSent_iff (om : OrderManager ω ι) (w : ω) (session : Bytes)
    (a : SendAnswer) :
    om.MarkedSent w (om.send w session a).2
      ↔ (om.send w session a).1 = true := by
  rcases om.send_spec w session a with ⟨htrue, side, hacc⟩ | ⟨hfalse, href⟩
  · refine iff_of_true (.inl ?_) htrue
    rw [hacc.order, Function.update_self]
  · have hnot : ¬(om.send w session a).1 = true := by
      rw [hfalse]
      exact nofun
    refine iff_of_false (fun hmarked => ?_) hnot
    rcases hmarked with hstate | ⟨m, hm, htype⟩
    · obtain ⟨o, ho, hrejected, -⟩ := href.order
      rw [ho, Function.update_self, hrejected] at hstate
      cases hstate
    · rw [href.orderlog, List.drop_left] at hm
      rw [List.mem_singleton.mp hm] at htype
      cases htype

end OrderManager

open BOE20Sender

-- ================================================================== result

/-- In the active state, whatever the connection returns: a `send` and a
`cancel` report what became of their message, and the order manager marks
and logs an order as sent only if all of the message was taken, exactly if
the order is refused before anything is written or the connection takes
all of it. -/
theorem write_reported_iff {s : BOE20Sender ι} (hactive : s.state = .active)
    (terms : OrderTerms) (io : Io) :
    (∀ op, (s.send op terms io).Reported s io
        ↔ (s.NewOrderFits op terms → io.accepted = 112))
      ∧ (∀ op newqty, (s.cancel op newqty terms io).Reported s io
        ↔ (s.CancelFits op newqty terms
          → io.accepted = cancelLength newqty))
      ∧ ∀ (om : OrderManager ω ι) (w : ω),
        let op := om.orderToSend w s.name
        let r := s.send op terms io
        (om.MarkedSent w (om.send w s.name r.sendAnswer).2
            → r.AllAccepted io)
          ↔ (om.Clears w → s.NewOrderFits op terms
            → io.accepted = 112) := by
  refine ⟨fun op => reported_iff_of_ends (send_ends hactive op terms io),
    fun op newqty =>
      reported_iff_of_ends (cancel_ends hactive op newqty terms io),
    fun om w => ?_⟩
  intro op r
  rw [om.markedSent_iff, om.send_eq_true_iff]
  rcases send_ends hactive op terms io with
    ⟨hfits, m, hlen, hwrote⟩ | ⟨hnot, href⟩
  · rw [hwrote.allAccepted_iff, hlen]
    constructor
    · intro h hclears _
      exact h ⟨hclears, rfl, hwrote.result⟩
    · intro h hsent
      exact h hsent.1 hfits
  · refine iff_of_true (fun hsent => ?_) fun _ hfits => absurd hfits hnot
    have htrue : r.result = true := hsent.2.2
    rw [href.result] at htrue
    cases htrue

namespace BOE20Sender

/-- An active session to run examples on, with one buffer of each kind. -/
def plain : BOE20Sender Unit where
  name := [66]
  market := .bats
  findInstrument := fun _ => some ()
  createClOrdID := fun _ => [65]
  now := ⟨0, 0⟩
  state := .active
  symbolArray := fun _ => [90]
  outboundSeqnum := 7
  idMap := fun _ => none
  noBufs := [0]
  cxlBufs := [0]
  modBufs := [0]
  lastMessageSent := ⟨0, 0⟩

/-- A day on which ten are bought at 5. -/
def tenBought : OrderManagerConf ℕ Unit :=
  .plain fun _ => .dayLimit () .buy 10 5

/-- The connection returns what is given. -/
def answering (accepted : Int) : Io := ⟨accepted, ⟨1, 0⟩, ⟨2, 0⟩⟩

end BOE20Sender

/-- All 112 bytes taken, and the order marked as sent. -/
theorem write_reported_iff_demo :
    let om := OrderManager.start tenBought
    let r := plain.send (om.orderToSend 0 plain.name) .init (answering 112)
    r.Reported plain (answering 112)
      ∧ om.MarkedSent 0 (om.send 0 plain.name r.sendAnswer).2
      ∧ r.AllAccepted (answering 112) := by
  intro om r
  have hiff := write_reported_iff (ω := ℕ) (show plain.state = .active from
    rfl) .init (answering 112)
  have hmarked : om.MarkedSent 0 (om.send 0 plain.name r.sendAnswer).2 :=
    .inl (by decide +kernel)
  exact ⟨(hiff.1 _).mpr fun _ => rfl, hmarked,
    (hiff.2.2 om 0).mpr (fun _ _ => rfl) hmarked⟩

/-- The connection refuses the message: `send` returns true, the order is
marked and logged as sent, and a sequence number is gone. -/
theorem failed_write_reported_as_sent :
    let om := OrderManager.start tenBought
    let r := plain.send (om.orderToSend 0 plain.name) .init (answering (-1))
    let om' := (om.send 0 plain.name r.sendAnswer).2
    r.result = true ∧ ¬r.AllAccepted (answering (-1))
      ∧ (om'.order 0).state = .sent
      ∧ om'.orderlog = om.orderlog ++ [logOrderSent (om'.order 0)]
      ∧ r.session.outboundSeqnum = 8 := by
  intro om r om'
  refine ⟨by decide +kernel, fun hall => ?_, by decide +kernel,
    by decide +kernel, by decide +kernel⟩
  obtain ⟨m, -, haccepted⟩ := hall
  have hlen : (0 : Int) ≤ m.msglen := Int.natCast_nonneg _
  rw [← haccepted] at hlen
  exact absurd hlen (by decide)

end TradingEngine.OE
