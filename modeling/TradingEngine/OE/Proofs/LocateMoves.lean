/-
Where locates go.

`validate` reserves locates for a sell it lets through, `on_fill` and
`on_cancel` give some back, and nothing else of the live order manager
moves any. `locates_send` says what `send` does to the locates of every
instrument, however it ends, and `locates_step` what any event does. Both
are one position replaced, so statements about locates come down to the
three functions on a position.

# Two views

`Position.locates` is what the pool knows of a position, and `Desk.locates`
has it for every instrument. A move of open sizes and a fill at the desk
leave both alone, so an event is known by what it does through the
instrument: one `Function.update` at the instrument of its order, or nothing.
-/
import TradingEngine.OE.Proofs.Send

namespace TradingEngine.OE

variable {ω ι : Type}

-- ============================================================ the positions

/-- Remaining and used. -/
def Position.locates (pos : Position) : Int × Int :=
  (pos.locatesRemaining, pos.locatesUsed)

/-- What is open leaves the pool alone. -/
theorem Position.locates_moveOpen (pos : Position) (s : Side) (p : Rat)
    (n : Int) : (pos.moveOpen s p n).locates = pos.locates := by
  unfold moveOpen
  split <;> rfl

/-- So does a fill itself: the pool is the instrument's business. -/
theorem Position.locates_fill (pos : Position) (s : Side) (n : Nat)
    (price fee : Rat) :
    (pos.updateRealizedAndUnrealizedPnl s n price fee).locates
      = pos.locates := by
  obtain ⟨r, v, h⟩ :=
    pos.updateRealizedAndUnrealizedPnl_shape s n price fee
  rw [h]
  rfl

/-- The locates of every instrument. -/
def Desk.locates (d : Desk ι) : ι → Int × Int :=
  fun i => (d.position i).locates

namespace Desk

variable [DecidableEq ι] (d : Desk ι)

/-- One position replaced. -/
theorem locates_put (esi : ι) (r : FirmRiskCheck ι × Position) :
    (d.put esi r).locates = Function.update d.locates esi r.2.locates := by
  funext i
  unfold locates put
  by_cases hi : i = esi
  · subst hi
    simp only [Function.update_self]
  · simp only [Function.update_of_ne hi]

/-- The firm check moves everything of a position but its locates. -/
theorem locates_onOrderAdds (op : Order ι) (n : Nat) :
    (d.onOrderAdds op n).locates = d.locates := by
  unfold onOrderAdds
  rw [locates_put, FirmRiskCheck.unsafeOnOrderAdds_eq,
    Position.locates_moveOpen]
  exact Function.update_eq_self ..

/-- Removing an order moves no locates at the desk. -/
theorem locates_onOrderRemoves (op : Order ι) (n : Nat) :
    (d.onOrderRemoves op n).locates = d.locates := by
  unfold onOrderRemoves
  rw [locates_put, FirmRiskCheck.unsafeOnOrderRemoves_eq,
    Position.locates_moveOpen]
  exact Function.update_eq_self ..

/-- Nor does filling one. -/
theorem locates_onOrderFill (op : Order ι) (n : Nat) (price fee : Rat) :
    (d.onOrderFill op n price fee).locates = d.locates := by
  unfold onOrderFill
  rw [locates_put, FirmRiskCheck.unsafeOnOrderFill_eq,
    Position.locates_moveOpen, Position.locates_fill]
  exact Function.update_eq_self ..

end Desk

-- =============================================================== validate

namespace OrderManager

/-- `send` gets as far as the reservation: every check up to it lets the
order through, and it is a sell. What the session says comes later. -/
def reserves (om : OrderManager ω ι) (w : ω) (a : SendAnswer) : Bool :=
  let o := om.order w
  let pos := om.desk.position o.instrument
  let ei := (om.instrument o.instrument).refreshRate o.creationTime
  (o.validateBase && a.validated) && (om.desk.newOrder o).1
    && (ei.rateAllows && ei.limitsAllow pos o && EquityInstrument.sells o
      && EquityInstrument.locatesAllow pos o)

end OrderManager

/-- When `validate` lets an order through. -/
theorem EquityInstrument.validate_ok (ei : EquityInstrument)
    (pos : Position) (o : Order ι) :
    (ei.validate pos o).ok
      = ((ei.refreshRate o.creationTime).rateAllows
          && (ei.refreshRate o.creationTime).limitsAllow pos o
          && (!sells o || locatesAllow pos o)) := by
  unfold validate
  dsimp only
  cases (ei.refreshRate o.creationTime).rateAllows
      && (ei.refreshRate o.creationTime).limitsAllow pos o with
  | false => rfl
  | true =>
      cases sells o with
      | false => rfl
      | true =>
          cases locatesAllow pos o with
          | false => rfl
          | true => rfl

/-- `validate` reserves locates for a sell it lets through. -/
theorem EquityInstrument.validate_position (ei : EquityInstrument)
    (pos : Position) (o : Order ι) :
    (ei.validate pos o).position
      = if (ei.refreshRate o.creationTime).rateAllows
            && (ei.refreshRate o.creationTime).limitsAllow pos o && sells o
            && locatesAllow pos o then
          reserveLocates pos o
        else pos := by
  unfold validate
  dsimp only
  cases (ei.refreshRate o.creationTime).rateAllows
      && (ei.refreshRate o.creationTime).limitsAllow pos o with
  | false => rfl
  | true =>
      cases sells o with
      | false => rfl
      | true =>
          cases locatesAllow pos o with
          | false => rfl
          | true => rfl

/-- `validate` takes locates exactly when some are required. -/
theorem EquityInstrument.locates_reserveLocates_eq_iff (pos : Position)
    (o : Order ι) :
    (reserveLocates pos o).locates = pos.locates
      ↔ requiredLocateSize pos o = 0 := by
  unfold reserveLocates Position.locates
  rw [Prod.mk.injEq]
  dsimp only
  omega

/-- A fill gives locates back exactly when it covers a short position that may
recycle. -/
theorem locates_recycleOnFill_eq_iff (pos : Position) (o : Order ι)
    (size : Nat) :
    (recycleOnFill pos o size).locates = pos.locates
      ↔ ¬(o.side = .buy ∧ pos.quantity + pos.remoteQuantity < 0
        ∧ pos.norecycle = false
        ∧ pos.locatesRemaining ≠ locatesRemainingSentinel ∧ 0 < size) := by
  unfold recycleOnFill
  split
  case isTrue h =>
    obtain ⟨hside, hshort, hrecycle, hset⟩ := h
    simp only [hside, hshort, hrecycle, hset, Position.locates,
      Prod.mk.injEq, ne_eq, not_false_eq_true, true_and]
    omega
  case isFalse h =>
    refine ⟨fun _ hall => h ?_, fun _ => rfl⟩
    exact ⟨hall.1, hall.2.1, hall.2.2.1, hall.2.2.2.1⟩

/-- A cancel does when it is of a sell while the position is short. -/
theorem locates_recycleOnCancel_eq_iff (pos : Position) (o : Order ι)
    (size : Nat) :
    (recycleOnCancel pos o size).locates = pos.locates
      ↔ ¬(pos.quantity + pos.remoteQuantity < 0
        ∧ (o.side = .short ∨ o.side = .shortExempt ∨ o.side = .sell)
        ∧ pos.locatesRemaining ≠ locatesRemainingSentinel ∧ 0 < size) := by
  unfold recycleOnCancel
  split
  case isTrue h =>
    obtain ⟨hshort, hside, hset⟩ := h
    simp only [hside, hshort, hset, Position.locates, Prod.mk.injEq, ne_eq,
      not_false_eq_true, true_and]
    omega
  case isFalse h =>
    exact ⟨fun _ hall => h ⟨hall.1, hall.2.1, hall.2.2.1⟩, fun _ => rfl⟩

variable [DecidableEq ω] [DecidableEq ι]

namespace OrderManager

/-- The check of the instrument is where a send takes locates. -/
theorem locates_instrumentCheck (om : OrderManager ω ι) (w : ω) :
    (om.instrumentCheck w).2.desk.locates
      = Function.update om.desk.locates (om.order w).instrument
          ((om.instrument (om.order w).instrument).validate
            (om.desk.position (om.order w).instrument)
            (om.order w)).position.locates :=
  om.desk.locates_put (om.order w).instrument (om.desk.firmRisk, _)

/-- After `instrumentCheck` the rest of `send` leaves locates alone, and a
`send` that ends before it moves none. -/
theorem locates_send_checked (om : OrderManager ω ι) (w : ω)
    (session : Bytes) (a : SendAnswer) :
    (om.send w session a).2.desk.locates
      = if (om.takeLocalID w).validates w a
            && ((om.takeLocalID w).riskCheck w).1 then
          (((om.takeLocalID w).riskCheck w).2.instrumentCheck
            w).2.desk.locates
        else om.desk.locates := by
  have hopen : ∀ om : OrderManager ω ι,
      ((om.addOpen w session).sessionSend w a).desk.locates
        = om.desk.locates := fun om => Desk.locates_onOrderAdds ..
  unfold send
  dsimp only
  cases (om.takeLocalID w).validates w a with
  | false => rfl
  | true =>
      cases ((om.takeLocalID w).riskCheck w).1 with
      | false => rfl
      | true =>
          have hboth : (true && true) = true := rfl
          rw [if_pos hboth, if_neg (by decide), if_neg (by decide)]
          split
          · rfl
          · split
            · exact hopen _
            · exact (Desk.locates_onOrderRemoves ..).trans (hopen _)

omit [DecidableEq ι] in
/-- The order gets its id. -/
theorem takeLocalID_order (om : OrderManager ω ι) (w : ω) :
    (om.takeLocalID w).order w
      = { om.order w with localID := om.localID + 1 } :=
  Function.update_self ..

omit [DecidableEq ι] in
/-- Validation does not look at it. -/
theorem validates_takeLocalID (om : OrderManager ω ι) (w : ω)
    (a : SendAnswer) :
    (om.takeLocalID w).validates w a
      = ((om.order w).validateBase && a.validated) := by
  unfold validates
  rw [takeLocalID_order]
  rfl

omit [DecidableEq ι] in
/-- Nor does the risk check. -/
theorem riskCheck_takeLocalID (om : OrderManager ω ι) (w : ω) :
    ((om.takeLocalID w).riskCheck w).1
      = (om.desk.newOrder (om.order w)).1 := by
  show ((om.desk.newOrder ((om.takeLocalID w).order w)).1 && true && true)
    = _
  rw [takeLocalID_order, Bool.and_true, Bool.and_true]
  rfl

/-- Every check of `send` passes, so that the session is asked. -/
def passesChecks (om : OrderManager ω ι) (w : ω) (a : SendAnswer) : Bool :=
  let om := om.takeLocalID w
  om.validates w a && (om.riskCheck w).1
    && ((om.riskCheck w).2.instrumentCheck w).1

/-- `send` returns true if they do and the session takes the order. -/
theorem send_result (om : OrderManager ω ι) (w : ω) (session : Bytes)
    (a : SendAnswer) :
    (om.send w session a).1 = (om.passesChecks w a && a.sent) := by
  unfold send passesChecks
  dsimp only
  cases (om.takeLocalID w).validates w a with
  | false => rfl
  | true =>
      cases ((om.takeLocalID w).riskCheck w).1 with
      | false => rfl
      | true =>
          cases (((om.takeLocalID w).riskCheck w).2.instrumentCheck w).1 with
          | false => rfl
          | true =>
              rw [if_neg (by decide), if_neg (by decide),
                if_neg (by decide)]
              cases a.sent with
              | false => rfl
              | true => rfl

/-- What is sent has passed the checks. -/
theorem passesChecks_of_sent {om : OrderManager ω ι} {w : ω}
    {session : Bytes} {a : SendAnswer}
    (h : (om.send w session a).1 = true) : om.passesChecks w a = true := by
  rw [send_result, Bool.and_eq_true] at h
  exact h.1

/-- The last of them, in terms of the order as it came. -/
theorem instrumentCheck_takeLocalID (om : OrderManager ω ι) (w : ω) :
    (((om.takeLocalID w).riskCheck w).2.instrumentCheck w).1
      = ((om.instrument (om.order w).instrument).validate
          (om.desk.position (om.order w).instrument) (om.order w)).ok := by
  show ((om.instrument ((om.takeLocalID w).order w).instrument).validate
      (om.desk.position ((om.takeLocalID w).order w).instrument)
      ((om.takeLocalID w).order w)).ok = _
  rw [takeLocalID_order, EquityInstrument.validate_ok,
    EquityInstrument.validate_ok]
  rfl

/-- Locates are reserved for the sells among these orders. -/
theorem reserves_of_passed {om : OrderManager ω ι} {w : ω} {a : SendAnswer}
    (h : om.passesChecks w a = true) :
    om.reserves w a = EquityInstrument.sells (om.order w) := by
  unfold passesChecks at h
  dsimp only at h
  rw [validates_takeLocalID, riskCheck_takeLocalID,
    instrumentCheck_takeLocalID, EquityInstrument.validate_ok] at h
  simp only [Bool.and_eq_true] at h
  obtain ⟨⟨⟨hbase, hanswer⟩, hnew⟩, ⟨hrate, hlim⟩, hlocates⟩ := h
  unfold reserves
  dsimp only
  rw [hbase, hanswer, hnew, hrate, hlim]
  cases hs : EquityInstrument.sells (om.order w) with
  | false => rfl
  | true =>
      rw [hs] at hlocates
      exact hlocates

/-- What `send` does to locates, however it ends. -/
theorem locates_send (om : OrderManager ω ι) (w : ω) (session : Bytes)
    (a : SendAnswer) :
    (om.send w session a).2.desk.locates
      = if om.reserves w a then
          Function.update om.desk.locates (om.order w).instrument
            (EquityInstrument.reserveLocates
              (om.desk.position (om.order w).instrument)
              (om.order w)).locates
        else om.desk.locates := by
  let o := om.order w
  let pos := om.desk.position o.instrument
  let ei := (om.instrument o.instrument).refreshRate o.creationTime
  have hcheck : (((om.takeLocalID w).riskCheck w).2.instrumentCheck
        w).2.desk.locates
      = if ei.rateAllows && ei.limitsAllow pos o
            && EquityInstrument.sells o
            && EquityInstrument.locatesAllow pos o then
          Function.update om.desk.locates o.instrument
            (EquityInstrument.reserveLocates pos o).locates
        else om.desk.locates := by
    rw [locates_instrumentCheck, EquityInstrument.validate_position]
    have hw₂ : ((om.takeLocalID w).riskCheck w).2.order w
        = { o with localID := om.localID + 1 } := takeLocalID_order ..
    rw [hw₂]
    show Function.update om.desk.locates o.instrument
      (if ei.rateAllows && ei.limitsAllow pos o
            && EquityInstrument.sells o
            && EquityInstrument.locatesAllow pos o then
          EquityInstrument.reserveLocates pos o
        else pos).locates = _
    split
    · rfl
    · exact Function.update_eq_self ..
  have hreserves : om.reserves w a
      = ((o.validateBase && a.validated) && (om.desk.newOrder o).1
        && (ei.rateAllows && ei.limitsAllow pos o
          && EquityInstrument.sells o
          && EquityInstrument.locatesAllow pos o)) := rfl
  rw [locates_send_checked, validates_takeLocalID, riskCheck_takeLocalID,
    hcheck, hreserves]
  cases (o.validateBase && a.validated) && (om.desk.newOrder o).1 with
  | false => rfl
  | true => rfl

end OrderManager

-- ================================================================== a step

section Reports

variable (om : OrderManager ω ι) (w : ω) (size : Nat) (ts : Timestamp)
  (exts : Nat)

/-- A fill gives back through the order's instrument. -/
theorem OrderManager.locates_onFill (price : Rat) (feeCode : FillFeeCode) :
    (om.onFill w size price ts exts feeCode).desk.locates
      = Function.update om.desk.locates (om.order w).instrument
          (recycleOnFill (om.desk.position (om.order w).instrument)
            (om.order w) size).locates := by
  show (Desk.onOrderFill _ _ _ _ _).locates = _
  rw [Desk.locates_onOrderFill]
  exact om.desk.locates_put (om.order w).instrument
    (om.desk.firmRisk, recycleOnFill
      (om.desk.position (om.order w).instrument) (om.order w) size)

/-- And so does a cancel. -/
theorem OrderManager.locates_onCancel :
    (om.onCancel w size ts exts).desk.locates
      = Function.update om.desk.locates (om.order w).instrument
          (recycleOnCancel (om.desk.position (om.order w).instrument)
            (om.order w) size).locates := by
  show (Desk.onOrderRemoves _ _ _).locates = _
  rw [Desk.locates_onOrderRemoves, orderUpdateOnCancel_eq]
  exact om.desk.locates_put (om.order w).instrument
    (om.desk.firmRisk, recycleOnCancel
      (om.desk.position (om.order w).instrument) (om.order w) size)

end Reports

namespace Trading

/-- The position of the order's instrument with the locates the event
leaves there. -/
def movedLocates (t : Trading ω ι) (e : Event ω) : Position :=
  let o := t.om.order e.about
  let pos := t.om.desk.position o.instrument
  match e with
  | .send w _ a =>
      if t.om.reserves w a then EquityInstrument.reserveLocates pos o
      else pos
  | .fill _ size _ _ _ _ => recycleOnFill pos o size
  | .cancelled _ size _ _ => recycleOnCancel pos o size
  | _ => pos

/-- What one step does to all locates. -/
theorem locates_step (t : Trading ω ι) (e : Event ω) :
    (t.step e).om.desk.locates
      = Function.update t.om.desk.locates (t.om.order e.about).instrument
          (t.movedLocates e).locates := by
  have hsame : ∀ esi, Function.update t.om.desk.locates esi
      (t.om.desk.position esi).locates = t.om.desk.locates :=
    fun esi => Function.update_eq_self ..
  cases e with
  | send w session a =>
      show (t.om.send w session a).2.desk.locates
        = Function.update _ (t.om.order w).instrument
            (if t.om.reserves w a then _ else _ : Position).locates
      rw [OrderManager.locates_send]
      split
      · rfl
      · exact (hsame _).symm
  | fill w size price ts exts feeCode =>
      exact t.om.locates_onFill w size ts exts price feeCode
  | cancelled w size ts exts => exact t.om.locates_onCancel w size ts exts
  | cancel w newqty a =>
      refine Eq.trans ?_ (hsame _).symm
      show (t.om.cancel w newqty a).2.desk.locates = _
      rcases t.om.cancel_cases w newqty a with heq | ⟨-, -, heq⟩
      · rw [heq]
      · rw [heq]
        rfl
  | destroy w onlyIfTerminal sessionDestroys =>
      refine Eq.trans ?_ (hsame _).symm
      show (t.om.destroy w onlyIfTerminal sessionDestroys).2.desk.locates = _
      rcases t.om.destroy_cases w onlyIfTerminal sessionDestroys with
        heq | ⟨-, heq⟩ | ⟨-, heq⟩ <;> rw [heq] <;> rfl
  | acknowledged w exchangeID size ts exts => exact (hsame _).symm
  | rejected w ts exts =>
      exact (Desk.locates_onOrderRemoves ..).trans (hsame _).symm
  | cancelRejected w ts exts => exact (hsame _).symm

end Trading

end TradingEngine.OE
