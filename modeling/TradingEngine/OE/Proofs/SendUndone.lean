/-
A send that came to nothing: the session refused the order, or the
exchange rejected it as it came.

Both ways back undo the open exposure exactly (`book_sendUndone`): the
size and the price that went in come out again. Neither looks at locates,
which `validate` had reserved before the session was asked. So everything
is as it was before `send` for a buy and for a sell that needed none
(`send_undone_iff`), and a short sale loses what it reserved for the rest
of the day.

# One order

The two ways back start from the same state, the one in which the session is
asked: the order has its id, its exposure is counted and its locates are
taken. A refusal by the session undoes the exposure within `send`. A
rejection by the exchange undoes it in `on_rejected`, with the size of the
order, which is all of it, as nothing was filled. In the end the only
difference to the start is what `validate` took from the pool.
-/
import TradingEngine.OE.Proofs.LocateMoves

namespace TradingEngine.OE

variable {ω ι : Type}

namespace OrderManager

variable [DecidableEq ω] [DecidableEq ι]

-- ================================================================ the undo

/-- One order that does not come to life: refused by its session, or else
rejected by the exchange before anything else happens. -/
def sendUndone (om : OrderManager ω ι) (w : ω) (session : Bytes)
    (a : SendAnswer) (ts : Timestamp) (exts : Nat) : OrderManager ω ι :=
  let r := om.send w session a
  if r.1 then r.2.onRejected w ts exts else r.2

/-- Locates, open sizes and open exposures as they were. -/
structure Restored (om om' : OrderManager ω ι) : Prop where
  locatesRemaining : ∀ i, (om'.desk.position i).locatesRemaining
    = (om.desk.position i).locatesRemaining
  locatesUsed : ∀ i, (om'.desk.position i).locatesUsed
    = (om.desk.position i).locatesUsed
  openPart : ∀ i,
    (om'.desk.position i).openPart = (om.desk.position i).openPart
  firmLong : om'.desk.firmRisk.longOpenExposure
    = om.desk.firmRisk.longOpenExposure
  firmShort : om'.desk.firmRisk.shortOpenExposure
    = om.desk.firmRisk.shortOpenExposure

/-- Whatever `send` added to the book is taken out again. -/
theorem book_sendUndone (om : OrderManager ω ι) (w : ω) (session : Bytes)
    (a : SendAnswer) (ts : Timestamp) (exts : Nat) :
    (om.sendUndone w session a ts exts).book = om.book := by
  unfold sendUndone
  dsimp only
  rcases om.send_spec w session a with ⟨hr, side, hacc⟩ | ⟨hr, href⟩
  · rw [if_pos hr, book_onRejected, hacc.book, hacc.order,
      Function.update_self]
    exact om.book.moveOpen_undo ..
  · rw [if_neg (Bool.eq_false_iff.mp hr)]
    exact href.book

theorem locates_sendUndone (om : OrderManager ω ι) (w : ω)
    (session : Bytes) (a : SendAnswer) (ts : Timestamp) (exts : Nat) :
    (om.sendUndone w session a ts exts).desk.locates
      = (om.send w session a).2.desk.locates := by
  unfold sendUndone
  dsimp only
  split
  · exact Desk.locates_onOrderRemoves ..
  · rfl

omit [DecidableEq ω] [DecidableEq ι] in
/-- The book and the locates say it all. -/
theorem restored_iff {om om' : OrderManager ω ι}
    (hbook : om'.book = om.book) :
    om.Restored om' ↔ om'.desk.locates = om.desk.locates := by
  constructor
  · intro h
    funext i
    exact Prod.ext (h.locatesRemaining i) (h.locatesUsed i)
  · intro h
    have hlocates : ∀ i, (om'.desk.position i).locates
        = (om.desk.position i).locates := congrFun h
    have hopen : ∀ i, (om'.book.position i).openPart
        = (om.book.position i).openPart := fun i => by rw [hbook]
    have htotals : om'.book.totals = om.book.totals := by rw [hbook]
    exact {
      locatesRemaining := fun i => congrArg Prod.fst (hlocates i)
      locatesUsed := fun i => congrArg Prod.snd (hlocates i)
      openPart := hopen
      firmLong := congrArg FirmTotals.longOpenExposure htotals
      firmShort := congrArg FirmTotals.shortOpenExposure htotals }

end OrderManager

-- ================================================================== result

variable [DecidableEq ω] [DecidableEq ι]

/-- In any state, an order that gets as far as its session and comes to
nothing leaves no trace, exactly if it is no sell that needs locates. -/
theorem send_undone_iff (om : OrderManager ω ι) (w : ω) (session : Bytes)
    (a : OrderManager.SendAnswer) (ts : Timestamp) (exts : Nat)
    (h : om.passesChecks w a = true) :
    om.Restored (om.sendUndone w session a ts exts)
      ↔ (EquityInstrument.sells (om.order w) = true →
        EquityInstrument.requiredLocateSize
          (om.desk.position (om.order w).instrument) (om.order w) = 0) := by
  rw [OrderManager.restored_iff (om.book_sendUndone w session a ts exts),
    om.locates_sendUndone, om.locates_send, OrderManager.reserves_of_passed h]
  split
  case isTrue hsells =>
    rw [Function.update_eq_self_iff, forall_prop_of_true hsells]
    exact EquityInstrument.locates_reserveLocates_eq_iff ..
  case isFalse hsells =>
    exact iff_of_true rfl fun hs => absurd hs hsells

/-- Four of ten held shares are offered, and the session refuses. -/
theorem send_undone_iff_demo :
    let t := Lib.run Trading.step (Trading.start (.plain fun w : Bool =>
        if w then .dayLimit () .buy 10 5 else .dayLimit () .sell 4 6))
      [.send true [66] .taken, .acknowledged true 1 10 ⟨1, 0⟩ 1,
        .fill true 10 5 ⟨2, 0⟩ 2 .unknown]
    t.om.Restored (t.om.sendUndone false [66]
      { OrderManager.SendAnswer.taken with sent := false } ⟨3, 0⟩ 3) := by
  intro t
  exact (send_undone_iff t.om false [66] _ ⟨3, 0⟩ 3
    (by decide +kernel)).mpr (by decide +kernel)

/-- Five shares are offered from flat, the session refuses, and five
locates stay used. -/
theorem refused_short_keeps_locates :
    ¬ ∀ (c : OrderManagerConf Unit Unit) (es : List (Event Unit)),
      Lib.Admits Trading.step Trading.Orderly (Trading.start c) es →
      ∀ (w : Unit) (session : Bytes) (a : OrderManager.SendAnswer)
        (ts : Timestamp) (exts : Nat),
        let om := (Lib.run Trading.step (Trading.start c) es).om
        om.passesChecks w a = true →
        om.Restored (om.sendUndone w session a ts exts) := by
  intro h
  have hrestored := h (.plain fun _ => .dayLimit () .sell 5 10) [] trivial
    () [66] { OrderManager.SendAnswer.taken with sent := false } ⟨1, 0⟩ 1
    (by decide +kernel)
  exact absurd (hrestored.locatesUsed ()) (by decide +kernel)

end TradingEngine.OE
