/-
Locates across a restart.

The live order manager reserves locates in `validate` and gives them back
in `on_fill` and `on_cancel`. The replay handlers are other code for the
same events, and none of them touches locates: whatever the log says, a
replay ends with the locates the day started with (`locates_replay`).

# When they agree

So the replayed locates are the live ones in every state of a run exactly
if no step of it moved any (`locates_survive_iff`). What moves them is a
sell that is let through and needs locates, whether or not the session
then takes it; a buy filled while the position is short; and a sell
cancelled while it is.
-/
import TradingEngine.OE.Proofs.LocateMoves
import TradingEngine.OE.Proofs.Replay

namespace TradingEngine.OE

variable {ω ι : Type}

-- =============================================================== the replay

namespace OrderManager

/-- No record makes a replay handler move locates. -/
theorem locates_decode [DecidableEq ι] (create : CreateReplayOrder ι)
    (om : OrderManager ℕ ι) (m : Message ι) :
    (om.decode create m).desk.locates = om.desk.locates := by
  have hextend : ∀ oid : OrderIdentifier,
      (om.extendLocalIDHelper oid).2.desk = om.desk := by
    intro oid
    unfold extendLocalIDHelper extendLocalID
    split
    · rfl
    · split <;> rfl
  have hadopt : ∀ (om : OrderManager ℕ ι) (op : Option (Order ι)) lid,
      (om.adoptOrderHelper op lid).desk.locates = om.desk.locates := by
    intro om op lid
    cases op with
    | none => rfl
    | some o => exact om.desk.locates_onOrderAdds ..
  have hframe : ∀ (oid : OrderIdentifier)
      (update : OrderManager ℕ ι → ℕ → OrderManager ℕ ι),
      (∀ om p, (update om p).desk.locates = om.desk.locates) →
      (om.onLogOrder oid update).desk.locates = om.desk.locates := by
    intro oid update hupdate
    unfold onLogOrder
    dsimp only
    split
    · rw [hupdate, hextend]
    · rw [hextend]
  obtain ⟨type, ts, body⟩ := m
  unfold decode
  dsimp only
  split
  · exact congrArg Desk.locates (hextend _)
  · unfold onLogOrderSent
    dsimp only
    split
    · rw [hadopt, hextend]
    · rfl
  · exact hframe _ _ fun om p => rfl
  · exact hframe _ _ fun om p => om.desk.locates_onOrderFill ..
  · exact hframe _ _ fun om p => om.desk.locates_onOrderFill ..
  · exact hframe _ _ fun om p => rfl
  · exact hframe _ _ fun om p => om.desk.locates_onOrderRemoves ..
  · exact hframe _ _ fun om p => om.desk.locates_onOrderRemoves ..
  · exact hframe _ _ fun om p => rfl
  · exact hframe _ _ fun om p => rfl
  · rfl

theorem locates_replay [DecidableEq ι] (create : CreateReplayOrder ι)
    (om : OrderManager ℕ ι) (log : List (Message ι)) :
    (om.replay create log).desk.locates = om.desk.locates :=
  Lib.run_induction
    (I := fun r : OrderManager ℕ ι => r.desk.locates = om.desk.locates)
    (fun r m h => (r.locates_decode create m).trans h) rfl

/-- The day starts with what is configured. -/
theorem locates_start (c : OrderManagerConf ω ι) :
    (start c).desk.locates = fun i => ((c.instrument i).locateSize, 0) := by
  obtain ⟨sessions, records, hstart, -⟩ := start_frame c
  rw [hstart]
  rfl

end OrderManager

variable [DecidableEq ω] [DecidableEq ι]

-- ================================================================== a step

namespace Trading

/-- The event moves no locates: no sell that needs some is let through, no
buy is filled and no sell cancelled while the position is short. -/
def LeavesLocates (t : Trading ω ι) : Event ω → Prop
  | .send w _ a =>
      let o := t.om.order w
      t.om.reserves w a = true →
        EquityInstrument.requiredLocateSize
          (t.om.desk.position o.instrument) o = 0
  | .fill w size _ _ _ _ =>
      let o := t.om.order w
      let pos := t.om.desk.position o.instrument
      ¬(o.side = .buy ∧ pos.quantity + pos.remoteQuantity < 0
        ∧ pos.norecycle = false
        ∧ pos.locatesRemaining ≠ locatesRemainingSentinel ∧ 0 < size)
  | .cancelled w size _ _ =>
      let o := t.om.order w
      let pos := t.om.desk.position o.instrument
      ¬(pos.quantity + pos.remoteQuantity < 0
        ∧ (o.side = .short ∨ o.side = .shortExempt ∨ o.side = .sell)
        ∧ pos.locatesRemaining ≠ locatesRemainingSentinel ∧ 0 < size)
  | _ => True

instance (t : Trading ω ι) : (e : Event ω) → Decidable (t.LeavesLocates e)
  | .send .. | .cancel .. | .destroy .. | .acknowledged .. | .rejected ..
  | .fill .. | .cancelled .. | .cancelRejected .. => by
      unfold LeavesLocates
      infer_instance

end Trading

/-- The condition says exactly when a step leaves locates alone. -/
theorem Trading.locates_step_eq_iff (t : Trading ω ι) (e : Event ω) :
    (t.step e).om.desk.locates = t.om.desk.locates
      ↔ t.LeavesLocates e := by
  rw [t.locates_step e, Function.update_eq_self_iff]
  cases e with
  | send w session a =>
      show (if t.om.reserves w a then _ else _ : Position).locates = _
        ↔ (_ → _)
      split
      case isTrue h =>
        rw [forall_prop_of_true h]
        exact EquityInstrument.locates_reserveLocates_eq_iff ..
      case isFalse h => exact ⟨fun _ h' => absurd h' h, fun _ => rfl⟩
  | fill w size price ts exts feeCode =>
      exact locates_recycleOnFill_eq_iff ..
  | cancelled w size ts exts => exact locates_recycleOnCancel_eq_iff ..
  | cancel w newqty a => exact iff_of_true rfl trivial
  | destroy w onlyIfTerminal sessionDestroys =>
      exact iff_of_true rfl trivial
  | acknowledged w exchangeID size ts exts => exact iff_of_true rfl trivial
  | rejected w ts exts => exact iff_of_true rfl trivial
  | cancelRejected w ts exts => exact iff_of_true rfl trivial

-- ================================================================= result

/-- A fresh order manager that has replayed the log of the day holds the
locates of the live one. -/
def Trading.LocatesRecovered (c' : OrderManagerConf ℕ ι)
    (create : CreateReplayOrder ι) (t : Trading ω ι) : Prop :=
  let r := (OrderManager.start c').replay create t.om.orderlog
  ∀ i, (r.desk.position i).locatesRemaining
      = (t.om.desk.position i).locatesRemaining
    ∧ (r.desk.position i).locatesUsed = (t.om.desk.position i).locatesUsed

omit [DecidableEq ω] in
/-- The locates of the day's start, that is. -/
theorem Trading.locatesRecovered_iff {c : OrderManagerConf ω ι}
    {c' : OrderManagerConf ℕ ι} (hday : c.SameDay c')
    (create : CreateReplayOrder ι) (t : Trading ω ι) :
    t.LocatesRecovered c' create
      ↔ t.om.desk.locates = (OrderManager.start c).desk.locates := by
  have hreplay : ((OrderManager.start c').replay create
        t.om.orderlog).desk.locates
      = (OrderManager.start c).desk.locates := by
    rw [OrderManager.locates_replay, OrderManager.locates_start,
      OrderManager.locates_start, hday.instrument]
  rw [← hreplay]
  unfold LocatesRecovered
  constructor
  · intro h
    funext i
    exact Prod.ext (h i).1.symm (h i).2.symm
  · intro h r i
    have hi := congrFun h i
    exact ⟨(congrArg Prod.fst hi).symm, (congrArg Prod.snd hi).symm⟩

/-- Replaying the log restores the locates after every step of a run, if
and only if no step moves any. -/
theorem locates_survive_iff (c : OrderManagerConf ω ι)
    (c' : OrderManagerConf ℕ ι) (hday : c.SameDay c')
    (create : CreateReplayOrder ι) (es : List (Event ω)) :
    ((Trading.start c).LocatesRecovered c' create
        ∧ Lib.Admits Trading.step
          (fun t e => (t.step e).LocatesRecovered c' create)
          (Trading.start c) es)
      ↔ Lib.Admits Trading.step Trading.LeavesLocates
          (Trading.start c) es := by
  have hstart : (Trading.start c).LocatesRecovered c' create :=
    ((Trading.start c).locatesRecovered_iff hday create).mpr rfl
  rw [and_iff_right hstart]
  refine Lib.admits_iff_of_step (p := fun _ _ => True)
    (I := fun t : Trading ω ι =>
      t.om.desk.locates = (OrderManager.start c).desk.locates)
    (fun t e h _ => ?_) (fun t e h _ hleaves => ?_) rfl
    (Lib.Admits.trivial _ es)
  · rw [Trading.locatesRecovered_iff hday, ← h]
    exact t.locates_step_eq_iff e
  · exact ((t.locates_step_eq_iff e).mpr hleaves).trans h

/-- A sell out of a long position needs no locates. -/
theorem locates_survive_iff_demo :
    let c : OrderManagerConf Bool Unit := .plain fun w =>
      if w then .dayLimit () .buy 10 5 else .dayLimit () .sell 4 6
    let c' : OrderManagerConf ℕ Unit := .plain fun _ =>
      .dayLimit () .buy 1 1
    let create : CreateReplayOrder Unit := fun name a =>
      some (a.build name [] ⟨9, 0⟩)
    Lib.Admits Trading.step
      (fun t e => (t.step e).LocatesRecovered c' create) (Trading.start c)
      [.send true [66] .taken, .acknowledged true 1 10 ⟨1, 0⟩ 1,
        .fill true 10 5 ⟨2, 0⟩ 2 .unknown, .send false [66] .taken,
        .acknowledged false 2 4 ⟨3, 0⟩ 3, .cancelled false 4 ⟨4, 0⟩ 4] := by
  intro c c' create
  exact ((locates_survive_iff c c' ⟨rfl, rfl, rfl, rfl, rfl⟩ create _).mpr
    (by decide +kernel)).2

/-- Sold short from flat: five locates are in use, and the order manager
that replays the log has them all again. -/
theorem short_sale_locates_lost :
    let c : OrderManagerConf Unit Unit := .plain fun _ =>
      .dayLimit () .sell 5 10
    let c' : OrderManagerConf ℕ Unit := .plain fun _ =>
      .dayLimit () .buy 1 1
    let create : CreateReplayOrder Unit := fun name a =>
      some (a.build name [] ⟨9, 0⟩)
    let es : List (Event Unit) := [.send () [66] .taken,
      .acknowledged () 1 5 ⟨1, 0⟩ 1, .fill () 5 10 ⟨2, 0⟩ 2 .unknown]
    let t := Lib.run Trading.step (Trading.start c) es
    let r := (OrderManager.start c').replay create t.om.orderlog
    Lib.Admits Trading.step Trading.Logged (Trading.start c) es
      ∧ (t.om.order ()).state = .filled
      ∧ (t.om.desk.position ()).locates = (995, 5)
      ∧ (r.desk.position ()).locates = (1000, 0)
      ∧ ¬t.LocatesRecovered c' create := by
  intro c c' create es t r
  have hlive : (t.om.desk.position ()).locates = (995, 5) := by
    decide +kernel
  have hreplayed : (r.desk.position ()).locates = (1000, 0) := by
    decide +kernel
  refine ⟨by decide +kernel, by decide +kernel, hlive, hreplayed,
    fun h => ?_⟩
  have hsame : r.desk.locates () = t.om.desk.locates () :=
    Prod.ext (h ()).1 (h ()).2
  rw [show r.desk.locates () = _ from hreplayed,
    show t.om.desk.locates () = _ from hlive] at hsame
  cases hsame

end TradingEngine.OE
