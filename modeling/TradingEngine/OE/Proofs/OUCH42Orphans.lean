/-
An OUCH acceptance of an order nobody knows, which is what the exchange
replays after a crash that lost it.

`handle_packet` creates the order and has it adopted, as sent and with its
whole size open, and returns before the switch that would acknowledge or
cancel it. `orphan_adopted` says what is left; `Recovered` is what should
have been, and no acceptance ends there.

# Never

The branch for orders nobody knows ends in a `return` that belongs to the
failure before it. What follows in the function would acknowledge the order
or cancel it, and is not reached. For a live order the open size stays zero,
so that it counts as terminal and cannot be cancelled; for a dead one its
exposure is never taken off again. Since the branch is the same for all
messages, the result holds for all of them.
-/
import TradingEngine.OE.Proofs.OUCH42Exposure

namespace TradingEngine.OE

open OUCH42

variable {ι : Type} [DecidableEq ι]

-- ================================================================ adoption

namespace OrderManager

/-- What is found under an id that was just adopted. -/
theorem adoptOrderHelper_found {om : OrderManager ℕ ι}
    {op : Option (Order ι)} {l p : ℕ}
    (h : (om.adoptOrderHelper op l).orderAt l = some p) :
    ∃ o, op = some o ∧ p = l
      ∧ (om.adoptOrderHelper op l).order p
        = { o with localID := l, state := .sent } := by
  unfold orderAt at h
  cases op with
  | none =>
      have hentry : (om.orders.set l none)[l]?.join = some p := h
      rw [List.getElem?_set_self'] at hentry
      cases hl : om.orders[l]? with
      | none =>
          rw [hl] at hentry
          cases hentry
      | some q =>
          rw [hl] at hentry
          cases hentry
  | some o =>
      have hentry : (om.orders.set l (some l))[l]?.join = some p := h
      rw [List.getElem?_set_self'] at hentry
      cases hl : om.orders[l]? with
      | none =>
          rw [hl] at hentry
          cases hentry
      | some q =>
          rw [hl] at hentry
          obtain rfl : l = p := Option.some.inj hentry
          exact ⟨o, rfl, rfl, Function.update_self ..⟩

omit [DecidableEq ι] in
/-- Every id has an entry once `m_orders` was extended to it. -/
theorem extended (om : OrderManager ℕ ι) (oid : OrderIdentifier)
    (hom : om.orders.length = om.localID + 1) :
    oid.localID < (om.extendLocalIDHelper oid).2.orders.length
      ∧ (om.extendLocalIDHelper oid).2.order = om.order
      ∧ (om.extendLocalIDHelper oid).2.desk = om.desk := by
  unfold extendLocalIDHelper
  split
  case isTrue hle =>
    refine ⟨?_, rfl, rfl⟩
    show oid.localID < om.orders.length
    omega
  case isFalse hgt =>
    unfold extendLocalID
    rw [if_pos (by omega)]
    refine ⟨?_, rfl, rfl⟩
    show oid.localID < (om.orders ++ List.replicate _ none).length
    rw [List.length_append, List.length_replicate]
    omega

/-- An adopted order is in its place, as sent, and its size is open. -/
theorem adoptOrphanOrder_some (om : OrderManager ℕ ι) (name : Bytes)
    (l : ℕ) (o : Order ι) (hom : om.orders.length = om.localID + 1) :
    let om' := om.adoptOrphanOrder name l (some o)
    om'.orderAt l = some l
      ∧ om'.order l = { o with localID := l, state := .sent }
      ∧ om'.book = om.book.moveOpen o.instrument o.side o.price o.size := by
  obtain ⟨hlt, -, hdesk⟩ :=
    om.extended ⟨0, l, stringToSessionName name⟩ hom
  refine ⟨?_, Function.update_self .., ?_⟩
  · show ((om.extendLocalIDHelper _).2.orders.set l (some l))[l]?.join = _
    rw [List.getElem?_set_self hlt]
    rfl
  · show ((om.extendLocalIDHelper _).2.desk.onOrderAdds
      { o with localID := l } o.size).book = _
    rw [Desk.book_onOrderAdds, hdesk]
    rfl

end OrderManager

-- ========================================================= an acceptance

namespace OUCH42Orders

/-- The order of an acceptance is there, as if it had been known: live and
acknowledged, or dead and with nothing of it left open. -/
def Recovered (om om' : OrderManager ℕ ι) (id : Nat) (m : Accepted) :
    Prop :=
  ∃ op, om'.orderAt id = some op
    ∧ (m.orderState = .live →
        (om'.order op).state = .acknowledged
          ∧ (om'.order op).openSize = m.shares.toNat)
    ∧ (m.orderState = .dead →
        (om'.order op).state = .cancelled ∧ (om'.order op).openSize = 0
          ∧ om'.openExposures = om.openExposures)

variable {s : OUCH42Orders ι} {om : OrderManager ℕ ι} {hdr : OrderHeader}
  {m : Accepted} {inst : ι}

/-- All that happens to an unknown order. -/
theorem handlePacket_orphan (ts : Timestamp)
    (hmark : hdr.orderToken.hprMarking ≠ riskbotReject)
    (hid : hdr.orderToken.id ≠ 0)
    (hunknown : om.orderAt hdr.orderToken.id = none)
    (hinst : s.findInstrument m.stock = some inst) :
    s.handlePacket om ⟨ts, .order hdr (.accepted m)⟩
      = om.adoptOrphanOrder s.name hdr.orderToken.id
          (s.onCreateReplayOrder
            (s.replayOrder ts hdr.orderToken.id m inst)) := by
  have hget : s.getOrder om hdr.orderToken.id = none := by
    unfold getOrder
    rw [hunknown]
  unfold handlePacket handleUnknown createReplayOrder
  dsimp only
  rw [if_neg hid, hget, hinst]
  exact if_neg hmark

/-- The order is left as sent, not acknowledged, and all of it counts as
open, dead or not. -/
theorem orphan_adopted (ts : Timestamp)
    (hom : om.orders.length = om.localID + 1)
    (hmarket : s.market = .xnas)
    (hmark : hdr.orderToken.hprMarking ≠ riskbotReject)
    (hid : hdr.orderToken.id ≠ 0)
    (hunknown : om.orderAt hdr.orderToken.id = none)
    (hinst : s.findInstrument m.stock = some inst) :
    let om' := s.handlePacket om ⟨ts, .order hdr (.accepted m)⟩
    om'.orderAt hdr.orderToken.id = some hdr.orderToken.id
      ∧ (om'.order hdr.orderToken.id).state = .sent
      ∧ (om'.order hdr.orderToken.id).openSize = 0
      ∧ om'.book = om.book.moveOpen inst (toI01Side m.buySellIndicator)
          (getLimit m.price) m.shares.toNat := by
  intro om'
  have hom' : om' = _ := handlePacket_orphan ts hmark hid hunknown hinst
  have hmic : ¬ (s.replayOrder ts hdr.orderToken.id m inst).market
      ≠ .xnas := fun h => h hmarket
  rw [hom']
  unfold onCreateReplayOrder
  rw [if_neg hmic]
  -- with or without a token of its own, it is the order that was built
  dsimp only
  split
  · obtain ⟨hat, ho, hbook⟩ := om.adoptOrphanOrder_some s.name
      hdr.orderToken.id _ hom
    exact ⟨hat, by rw [ho], by rw [ho]; rfl, hbook⟩
  · obtain ⟨hat, ho, hbook⟩ := om.adoptOrphanOrder_some s.name
      hdr.orderToken.id _ hom
    exact ⟨hat, by rw [ho], by rw [ho]; rfl, hbook⟩

/-- No acceptance of an unknown order recovers it. -/
theorem accepted_orphan_not_recovered (s : OUCH42Orders ι)
    (om : OrderManager ℕ ι) (ts : Timestamp) (hdr : OrderHeader)
    (m : Accepted) (inst : ι)
    (hmark : hdr.orderToken.hprMarking ≠ riskbotReject)
    (hid : hdr.orderToken.id ≠ 0)
    (hunknown : om.orderAt hdr.orderToken.id = none)
    (hinst : s.findInstrument m.stock = some inst)
    (hstate : m.orderState = .live ∨ m.orderState = .dead) :
    ¬ Recovered om (s.handlePacket om ⟨ts, .order hdr (.accepted m)⟩)
      hdr.orderToken.id m := by
  rintro ⟨op, hat, hlive, hdead⟩
  have hsent : ((s.handlePacket om ⟨ts, .order hdr (.accepted m)⟩).order
      op).state = .sent := by
    rw [handlePacket_orphan ts hmark hid hunknown hinst] at hat ⊢
    -- the log record that may follow changes no order
    unfold OrderManager.adoptOrphanOrder at hat ⊢
    split at hat
    case isTrue hsome =>
      rw [if_pos hsome]
      obtain ⟨o, -, -, ho⟩ := OrderManager.adoptOrderHelper_found hat
      show ((om.applyOrphan _ _ _).order op).state = _
      unfold OrderManager.applyOrphan
      rw [ho]
    case isFalse hnone =>
      rw [if_neg hnone]
      obtain ⟨o, -, -, ho⟩ := OrderManager.adoptOrderHelper_found hat
      unfold OrderManager.applyOrphan
      rw [ho]
  rcases hstate with hstate | hstate
  · rw [(hlive hstate).1] at hsent
    cases hsent
  · rw [(hdead hstate).1] at hsent
    cases hsent

theorem accepted_orphan_not_recovered_demo :
    ¬ Recovered (OrderManager.start tenBought)
      (plain.handlePacket (OrderManager.start tenBought)
        ((Notice.plain (.accepted (.tenBought 50000))).packet 7)) 7
      (.tenBought 50000) :=
  accepted_orphan_not_recovered plain (OrderManager.start tenBought) ⟨1, 0⟩
    ⟨1, ⟨73, 7⟩⟩ (.tenBought 50000) () (by decide) (by decide)
    (by decide +kernel) rfl (.inl rfl)

/-- Ten bought at 5, accepted under an id nobody knows: a live order stays
sent with nothing open on it, so that `cancel` takes it for a terminal
one; a dead order leaves fifty dollars open. -/
theorem accepted_orphan_stays_sent :
    let om := OrderManager.start tenBought
    let dead : Accepted := { Accepted.tenBought 50000 with
      orderState := .dead }
    let om₁ := plain.handlePacket om
      ((Notice.plain (.accepted (.tenBought 50000))).packet 7)
    let om₂ := plain.handlePacket om
      ((Notice.plain (.accepted dead)).packet 7)
    om.orderAt 7 = none
      ∧ om₁.orderAt 7 = some 7
      ∧ (om₁.order 7).state = .sent ∧ (om₁.order 7).openSize = 0
      ∧ (om₁.cancel 7 0 ⟨true, ⟨2, 0⟩⟩).1 = .terminal
      ∧ ¬ Recovered om om₁ 7 (.tenBought 50000)
      ∧ om₂.orderAt 7 = some 7
      ∧ (om₂.order 7).state = .sent
      ∧ om₂.desk.firmRisk.longOpenExposure = 50
      ∧ ¬ Recovered om om₂ 7 dead := by
  intro om dead om₁ om₂
  have hat₁ : om₁.orderAt 7 = some 7 := by decide +kernel
  have hat₂ : om₂.orderAt 7 = some 7 := by decide +kernel
  have hstate₁ : (om₁.order 7).state = .sent := by decide +kernel
  have hstate₂ : (om₂.order 7).state = .sent := by decide +kernel
  refine ⟨by decide +kernel, hat₁, hstate₁, by decide +kernel,
    by decide +kernel, ?_, hat₂, hstate₂, by decide +kernel, ?_⟩
  · rintro ⟨op, hat, hlive, -⟩
    obtain rfl : 7 = op := Option.some.inj (hat₁.symm.trans hat)
    have hacked := (hlive rfl).1
    rw [hstate₁] at hacked
    cases hacked
  · rintro ⟨op, hat, -, hdead⟩
    obtain rfl : 7 = op := Option.some.inj (hat₂.symm.trans hat)
    have hcancelled := (hdead rfl).1
    rw [hstate₂] at hcancelled
    cases hcancelled

end OUCH42Orders

end TradingEngine.OE
