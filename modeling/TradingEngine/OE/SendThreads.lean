/-
`OrderManager::send`, many at a time.

A thread in `send` holds its order's lock from the start, takes `m_mutex`
for the local id alone, and then holds its instrument's lock to the end;
`FirmRiskCheck` locks itself for each call. So what others can see of a
`send` is a sequence of sections, and `SendStage` names the section a
thread enters next. One turn of a thread is one section; the threads take
turns in any order.

Each order is sent by one thread at most, and the thread goes by its
order's name. Its arguments, and what the session will answer, are its
`SendCall`.

# Locks

`Locks` says which turns the locks allow. A thread that enters its first
section under the instrument's lock finds the instrument free. A report
of the exchange takes the order's lock and the instrument's, so it finds
the order's `send` finished and the instrument free. Sends on different
instruments never wait for each other.
-/
import TradingEngine.OE.Trading
import Mathlib.Data.Fintype.Defs

namespace TradingEngine.OE

variable {ω ι : Type}

/-- The arguments of one `send`, and the answers it gets. -/
structure SendCall where
  session : Bytes
  answer : OrderManager.SendAnswer

/-- The section a `send` enters next. -/
inductive SendStage
  | idle
  | validate
  | riskCheck
  | instrumentCheck
  | addOpen
  | sessionSend
  | markSent
  | removeOpen
  | localReject
  /-- `send` returned. -/
  | done (result : Bool)
  deriving DecidableEq

structure SendThreads (ω ι : Type) where
  om : OrderManager ω ι
  stage : ω → SendStage
  /-- The orders whose `send` returned true; history. -/
  sent : Finset ω
  /-- How many calls of `on_order_adds` there have been; history. -/
  adds : Nat
  /-- That number when the thread passed `new_order`; history. -/
  checked : ω → Nat

namespace SendThreads

/-- A day on which nothing has been sent. -/
def start (c : OrderManagerConf ω ι) : SendThreads ω ι :=
  ⟨OrderManager.start c, fun _ => .idle, ∅, 0, fun _ => 0⟩

variable [DecidableEq ω]

/-- A thread leaves a section with the order manager as given. -/
def goto (t : SendThreads ω ι) (w : ω) (stage : SendStage)
    (om : OrderManager ω ι) : SendThreads ω ι :=
  { t with om := om, stage := Function.update t.stage w stage }

variable [DecidableEq ι]

/-- One section of the `send` of `w`. -/
def advance (calls : ω → SendCall) (t : SendThreads ω ι) (w : ω) :
    SendThreads ω ι :=
  let call := calls w
  match t.stage w with
  | .idle => t.goto w .validate (t.om.takeLocalID w)
  | .validate =>
      t.goto w
        (if t.om.validates w call.answer then .riskCheck else .localReject)
        t.om
  | .riskCheck =>
      let r := t.om.riskCheck w
      { t.goto w (if r.1 then .instrumentCheck else .localReject) r.2 with
        checked := Function.update t.checked w t.adds }
  | .instrumentCheck =>
      let r := t.om.instrumentCheck w
      t.goto w (if r.1 then .addOpen else .localReject) r.2
  | .addOpen =>
      { t.goto w .sessionSend (t.om.addOpen w call.session) with
        adds := t.adds + 1 }
  | .sessionSend =>
      t.goto w (if call.answer.sent then .markSent else .removeOpen)
        (t.om.sessionSend w call.answer)
  | .markSent =>
      { t.goto w (.done true) (t.om.markSent w) with
        sent := insert w t.sent }
  | .removeOpen => t.goto w .localReject (t.om.removeOpen w)
  | .localReject => t.goto w (.done false) (t.om.localReject w)
  | .done _ => t

-- ============================================================= all turns

/-- A section of a `send`, or one call of another operation, which holds
its locks from start to end. -/
inductive Turn (ω : Type)
  | send (w : ω)
  | report (e : Event ω)

/-- The sent order an event is about; sends have their own turns, and
destroyed orders have none. -/
def reported : Event ω → Option ω
  | .send .. => none
  | .destroy .. => none
  | .cancel w _ _ => some w
  | .acknowledged w _ _ _ _ => some w
  | .rejected w _ _ => some w
  | .fill w _ _ _ _ _ => some w
  | .cancelled w _ _ _ => some w
  | .cancelRejected w _ _ => some w

/-- The event, as far as it is one on a sent order. -/
def report (om : OrderManager ω ι) : Event ω → OrderManager ω ι
  | .send .. => om
  | .destroy .. => om
  | .cancel w newqty a => (om.cancel w newqty a).2
  | .acknowledged w exchangeID size ts exts =>
      om.onAcknowledged w exchangeID size ts exts
  | .rejected w ts exts => om.onRejected w ts exts
  | .fill w size price ts exts feeCode =>
      om.onFill w size price ts exts feeCode
  | .cancelled w size ts exts => om.onCancel w size ts exts
  | .cancelRejected w ts exts => om.onCancelRejected w ts exts

/-- One turn. -/
def turn (calls : ω → SendCall) (t : SendThreads ω ι) :
    Turn ω → SendThreads ω ι
  | .send w => t.advance calls w
  | .report e => { t with om := report t.om e }

/-- Whether a `send` about to enter the section holds its instrument's
lock. -/
def holdsInstrument : SendStage → Bool
  | .idle | .validate | .done _ => false
  | _ => true

/-- No other thread holds the lock of the order's instrument. -/
def InstrumentFree (t : SendThreads ω ι) (w : ω) : Prop :=
  ∀ v, v ≠ w → holdsInstrument (t.stage v) = true →
    (t.om.order v).instrument ≠ (t.om.order w).instrument

/-- The turns the locks allow. -/
def Locks (t : SendThreads ω ι) : Turn ω → Prop
  | .send w => t.stage w = .validate → t.InstrumentFree w
  | .report e =>
      match reported e with
      | some w => t.stage w = .done true ∧ t.InstrumentFree w
      | none => False

instance [Fintype ω] (t : SendThreads ω ι) (e : Turn ω) :
    Decidable (t.Locks e) := by
  unfold Locks InstrumentFree
  cases e with
  | send w => infer_instance
  | report e =>
      dsimp only
      split <;> infer_instance

-- ======================================================= one thread, alone

/-- Left alone for `n` turns, the thread returns `r.1` and leaves `r.2`. -/
def Ends (calls : ω → SendCall) (t : SendThreads ω ι) (w : ω) (n : Nat)
    (r : Bool × OrderManager ω ι) : Prop :=
  (Lib.run (advance calls) t (List.replicate n w)).om = r.2
    ∧ (Lib.run (advance calls) t (List.replicate n w)).stage w = .done r.1

section Alone

variable {calls : ω → SendCall} {t : SendThreads ω ι} {w : ω} {n : Nat}

/-- The next turn first. -/
theorem Ends.step {r : Bool × OrderManager ω ι}
    (h : (t.advance calls w).Ends calls w n r) :
    t.Ends calls w (n + 1) r := h

/-- A thread that returned stays where it is. -/
theorem ends_done {r : Bool} (h : t.stage w = .done r) :
    t.Ends calls w n (r, t.om) := by
  induction n with
  | zero => exact ⟨rfl, h⟩
  | succ n ih =>
      refine Ends.step ?_
      have hstay : t.advance calls w = t := by
        unfold advance
        rw [h]
      rw [hstay]
      exact ih

theorem ends_localReject (h : t.stage w = .localReject) :
    t.Ends calls w (n + 1) (false, t.om.localReject w) := by
  refine Ends.step ?_
  unfold advance
  rw [h]
  exact ends_done (Function.update_self ..)

theorem ends_sessionSend (h : t.stage w = .sessionSend) :
    let om := t.om.sessionSend w (calls w).answer
    t.Ends calls w (n + 3)
      (if (calls w).answer.sent then (true, om.markSent w)
      else (false, (om.removeOpen w).localReject w)) := by
  intro om
  refine Ends.step ?_
  unfold advance
  rw [h]
  dsimp only
  cases hs : (calls w).answer.sent with
  | true =>
      refine Ends.step ?_
      have hstage : (t.goto w .markSent om).stage w = .markSent :=
        Function.update_self ..
      show (advance calls (t.goto w .markSent om) w).Ends calls w _ _
      unfold advance
      rw [hstage]
      exact ends_done (Function.update_self ..)
  | false =>
      refine Ends.step ?_
      have hstage : (t.goto w .removeOpen om).stage w = .removeOpen :=
        Function.update_self ..
      show (advance calls (t.goto w .removeOpen om) w).Ends calls w _ _
      unfold advance
      rw [hstage]
      exact ends_localReject (Function.update_self ..)

theorem ends_addOpen (h : t.stage w = .addOpen) :
    let om := (t.om.addOpen w (calls w).session).sessionSend w
      (calls w).answer
    t.Ends calls w (n + 4)
      (if (calls w).answer.sent then (true, om.markSent w)
      else (false, (om.removeOpen w).localReject w)) := by
  refine Ends.step ?_
  unfold advance
  rw [h]
  exact ends_sessionSend (Function.update_self ..)

/-- A check that refuses sends the thread to `localReject`, from where it
is done in one turn. -/
theorem ends_check {b : Bool} {stage : SendStage}
    {om : OrderManager ω ι} {r : Bool × OrderManager ω ι}
    (hpass : b = true → (t.goto w stage om).Ends calls w (n + 1) r)
    (hfail : b = false → r = (false, om.localReject w)) :
    (t.goto w (if b then stage else .localReject) om).Ends calls w (n + 1)
      r := by
  cases b with
  | true => exact hpass rfl
  | false =>
      rw [hfail rfl]
      exact ends_localReject (Function.update_self ..)

theorem ends_instrumentCheck (h : t.stage w = .instrumentCheck) :
    let inst := t.om.instrumentCheck w
    let om := (inst.2.addOpen w (calls w).session).sessionSend w
      (calls w).answer
    t.Ends calls w (n + 5)
      (if !inst.1 then (false, inst.2.localReject w)
      else if (calls w).answer.sent then (true, om.markSent w)
      else (false, (om.removeOpen w).localReject w)) := by
  refine Ends.step ?_
  unfold advance
  rw [h]
  refine ends_check (fun hpass => ?_) fun hfail => ?_
  · rw [hpass]
    exact ends_addOpen (Function.update_self ..)
  · rw [hfail]
    rfl

/-- An uninterrupted thread does what `send` does, in eight turns at
most. -/
theorem run_alone (h : t.stage w = .idle) :
    t.Ends calls w 8
      (t.om.send w (calls w).session (calls w).answer) := by
  let om₁ := t.om.takeLocalID w
  let t₁ := t.goto w .validate om₁
  let t₂ := t₁.goto w .riskCheck om₁
  have hstage₁ : t₁.stage w = .validate := Function.update_self ..
  have hstage₂ : t₂.stage w = .riskCheck := Function.update_self ..
  unfold OrderManager.send
  dsimp only
  refine Ends.step ?_
  unfold advance
  rw [h]
  refine Ends.step (?_ : (t₁.advance calls w).Ends calls w 6 _)
  unfold advance
  rw [hstage₁]
  refine ends_check (fun hpass => ?_) fun hfail => ?_
  · have hpass : om₁.validates w (calls w).answer = true := hpass
    rw [hpass]
    refine Ends.step (?_ : (t₂.advance calls w).Ends calls w 5 _)
    unfold advance
    rw [hstage₂]
    let t₂' : SendThreads ω ι :=
      { t₂ with checked := Function.update t₂.checked w t₂.adds }
    refine ends_check (t := t₂') (fun hpass => ?_) fun hfail => ?_
    · have hpass : (om₁.riskCheck w).1 = true := hpass
      rw [hpass]
      exact ends_instrumentCheck (Function.update_self ..)
    · have hfail : (om₁.riskCheck w).1 = false := hfail
      rw [hfail]
      rfl
  · have hfail : om₁.validates w (calls w).answer = false := hfail
    rw [hfail]
    rfl

end Alone

end SendThreads

end TradingEngine.OE
