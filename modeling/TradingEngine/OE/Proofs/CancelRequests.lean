/-
Cancel requests that wait for their answers.

What the order manager remembers of the requests that went out is the
quantity of the last one, and this only as long as the state of the order
says `PENDING_CANCEL`. `Requests` keeps them all, the ghost beside it: a
request joins when `cancel` returns true, and leaves when a cancel or a
cancel-reject answers it. Which requests such an event answers is up to
the exchange.

The memory is as good as the ghost as long as the state lasts
(`RequestsInv`), so requests tighten exactly if none that does not is made
in another state (`InForce`).
-/
import TradingEngine.OE.Proofs.Send

namespace TradingEngine.OE

variable {ω ι : Type}

/-- A trading day, and of each order the quantities that were requested
and not answered. -/
structure Requests (ω ι : Type) where
  trading : Trading ω ι
  unanswered : ω → List Nat

namespace Requests

/-- The start of the day. -/
def start (c : OrderManagerConf ω ι) : Requests ω ι :=
  ⟨Trading.start c, fun _ => []⟩

/-- An event, and the requests it answers if it is a cancel or a
cancel-reject. -/
structure Input (ω : Type) where
  event : Event ω
  answers : List Nat
  deriving DecidableEq

/-- The event, without an answer. -/
def Input.plain (e : Event ω) : Input ω := ⟨e, []⟩

variable [DecidableEq ω] [DecidableEq ι]

/-- What the event makes of the unanswered requests. -/
def requested (s : Requests ω ι) (i : Input ω) : ω → List Nat :=
  match i.event with
  | .cancel w newqty a =>
      if (s.trading.om.cancel w newqty a).1 = .requested then
        Function.update s.unanswered w (s.unanswered w ++ [newqty])
      else s.unanswered
  | .cancelled w _ _ _ | .cancelRejected w _ _ =>
      Function.update s.unanswered w ((s.unanswered w).diff i.answers)
  | _ => s.unanswered

def step (s : Requests ω ι) (i : Input ω) : Requests ω ι where
  trading := s.trading.step i.event
  unanswered := s.requested i

/-- A request that is made asks for less than every unanswered one. -/
def Tightens (s : Requests ω ι) (i : Input ω) : Prop :=
  match i.event with
  | .cancel w newqty a =>
      (s.trading.om.cancel w newqty a).1 = .requested →
        ∀ r ∈ s.unanswered w, newqty < r
  | _ => True

/-- An open order that has an unanswered request of no more than this one
is still `PENDING_CANCEL`, if the session would take the request. -/
def InForce (s : Requests ω ι) (i : Input ω) : Prop :=
  match i.event with
  | .cancel w newqty a =>
      (s.trading.om.order w).session ≠ none →
      (s.trading.om.order w).isTerminal = false → a.accepted = true →
      (∃ r ∈ s.unanswered w, r ≤ newqty) →
        (s.trading.om.order w).state = .pendingCancel
  | _ => True

instance (s : Requests ω ι) (i : Input ω) : Decidable (s.Tightens i) := by
  unfold Tightens
  split <;> infer_instance

instance (s : Requests ω ι) (i : Input ω) : Decidable (s.InForce i) := by
  unfold InForce
  split <;> infer_instance

/-- In `PENDING_CANCEL`, the quantity the order remembers is the least that
is unanswered. -/
def RequestsInv (s : Requests ω ι) : Prop :=
  ∀ w, (s.trading.om.order w).state = .pendingCancel →
    ∀ r ∈ s.unanswered w, (s.trading.om.order w).pendingcancelNewqty ≤ r

-- ================================================================== a step

omit [DecidableEq ι] in
/-- When a request goes out. -/
theorem cancel_requested_iff (om : OrderManager ω ι) (w : ω) (newqty : Nat)
    (a : OrderManager.CancelAnswer) :
    (om.cancel w newqty a).1 = .requested
      ↔ (om.order w).session ≠ none ∧ (om.order w).isTerminal = false
        ∧ ¬ ((om.order w).state = .pendingCancel
          ∧ (om.order w).pendingcancelNewqty ≤ newqty)
        ∧ a.accepted = true := by
  unfold OrderManager.cancel
  dsimp only
  split
  case isTrue hsession =>
    exact iff_of_false (fun h => by cases h) fun h => h.1 hsession
  case isFalse hsession =>
    split
    case isTrue hterm =>
      exact iff_of_false (fun h => by cases h) fun h => by
        rw [hterm] at h
        exact Bool.noConfusion h.2.1
    case isFalse hterm =>
      split
      case isTrue hpending =>
        exact iff_of_false (fun h => by cases h) fun h => h.2.2.1 hpending
      case isFalse hpending =>
        split
        case isTrue haccepted =>
          exact iff_of_true rfl ⟨hsession, Bool.eq_false_iff.mpr hterm,
            hpending, haccepted⟩
        case isFalse haccepted =>
          exact iff_of_false (fun h => by cases h) fun h => haccepted h.2.2.2

omit [DecidableEq ι] in
/-- What `cancel` writes to the order, by its answer. -/
theorem cancel_order (om : OrderManager ω ι) (w : ω) (newqty : Nat)
    (a : OrderManager.CancelAnswer) :
    (om.cancel w newqty a).2.order w
      = if (om.cancel w newqty a).1 = .requested then
          OrderManager.pendingCancelOrder (om.order w) newqty a
        else om.order w := by
  unfold OrderManager.cancel
  dsimp only
  split
  · rfl
  · split
    · rfl
    · split
      · rfl
      · split
        · exact Function.update_self ..
        · rfl

omit [DecidableEq ι] in
/-- The requests tighten exactly as long as they are remembered. -/
theorem tightens_iff {s : Requests ω ι} (h : s.RequestsInv) (i : Input ω) :
    s.Tightens i ↔ s.InForce i := by
  obtain ⟨e, answers⟩ := i
  cases e with
  | cancel w newqty a =>
      show (_ → _) ↔ (_ → _)
      rw [cancel_requested_iff]
      constructor
      · rintro htight hsession hterm haccepted ⟨r, hr, hle⟩
        by_contra hstate
        have hlt := htight ⟨hsession, hterm, fun hp => hstate hp.1,
          haccepted⟩ r hr
        omega
      · rintro hforce ⟨hsession, hterm, hnew, haccepted⟩ r hr
        by_contra hnot
        have hle : r ≤ newqty := Nat.le_of_not_lt hnot
        have hstate := hforce hsession hterm haccepted ⟨r, hr, hle⟩
        exact hnew ⟨hstate, (h w hstate r hr).trans hle⟩
  | _ => exact Iff.rfl

omit [DecidableEq ι] in
/-- What is unanswered changes for the order of the event only. -/
theorem requested_of_ne (s : Requests ω ι) {i : Input ω} {w : ω}
    (hw : i.event.about ≠ w) : s.requested i w = s.unanswered w := by
  obtain ⟨e, answers⟩ := i
  have hw : w ≠ e.about := Ne.symm hw
  cases e with
  | cancel v newqty a =>
      show (if _ then Function.update s.unanswered v _ else _) w = _
      split
      · exact Function.update_of_ne hw ..
      · rfl
  | cancelled v size ts exts => exact Function.update_of_ne hw ..
  | cancelRejected v ts exts => exact Function.update_of_ne hw ..
  | _ => rfl

/-- The step lemma: a request that tightens is the least from then on, and
everything else takes the order out of `PENDING_CANCEL` or leaves it. -/
theorem requestsInv_step {s : Requests ω ι} (h : s.RequestsInv) {i : Input ω}
    (htight : s.Tightens i) : (s.step i).RequestsInv := by
  intro w
  by_cases hw : i.event.about = w
  case neg =>
    show ((s.trading.step i.event).om.order w).state = _ →
      ∀ r ∈ s.requested i w,
        ((s.trading.step i.event).om.order w).pendingcancelNewqty ≤ r
    rw [s.trading.step_order_of_ne hw, s.requested_of_ne hw]
    exact h w
  case pos =>
    obtain ⟨e, answers⟩ := i
    -- an order in another state has nothing to remember
    have hother : ∀ {o : Order ι},
        (s.trading.step e).om.order w = o → o.state ≠ .pendingCancel →
        ((s.trading.step e).om.order w).state = .pendingCancel →
        ∀ r ∈ s.requested ⟨e, answers⟩ w,
          ((s.trading.step e).om.order w).pendingcancelNewqty ≤ r := by
      intro o hself hne hstate
      rw [hself] at hstate
      exact absurd hstate hne
    cases e with
    | send v session a =>
        obtain rfl : v = w := hw
        obtain ⟨o, hwrites⟩ := s.trading.om.send_writes v session a
        have hself : (s.trading.step (.send v session a)).om.order v = o :=
          (congrFun hwrites.order v).trans (Function.update_self ..)
        refine hother hself ?_
        rw [hwrites.state]
        split <;> intro h <;> cases h
    | destroy v onlyIfTerminal sessionDestroys =>
        show ((s.trading.step _).om.order w).state = _ →
          ∀ r ∈ s.unanswered w,
            ((s.trading.step _).om.order w).pendingcancelNewqty ≤ r
        rw [s.trading.step_destroy_order]
        exact h w
    | acknowledged v exchangeID size ts exts =>
        obtain rfl : v = w := hw
        exact hother (Function.update_self ..) (fun h => by cases h)
    | rejected v ts exts =>
        obtain rfl : v = w := hw
        exact hother (Function.update_self ..) (fun h => by cases h)
    | fill v size price ts exts feeCode =>
        obtain rfl : v = w := hw
        refine hother (Function.update_self ..) ?_
        show (if _ then OrderState.filled else .partiallyFilled) ≠ _
        split <;> intro h <;> cases h
    | cancelled v size ts exts =>
        obtain rfl : v = w := hw
        refine hother (Function.update_self ..) ?_
        unfold orderUpdateOnCancel
        split <;> intro h <;> cases h
    | cancelRejected v ts exts =>
        obtain rfl : v = w := hw
        exact hother (Function.update_self ..) (fun h => by cases h)
    | cancel v newqty a =>
        obtain rfl : v = w := hw
        have horder := cancel_order s.trading.om v newqty a
        have hlist : s.requested ⟨.cancel v newqty a, answers⟩
            = if (s.trading.om.cancel v newqty a).1 = .requested then
                Function.update s.unanswered v
                  (s.unanswered v ++ [newqty])
              else s.unanswered := rfl
        show ((s.trading.om.cancel v newqty a).2.order v).state = _ →
          ∀ r ∈ s.requested ⟨.cancel v newqty a, answers⟩ v,
            ((s.trading.om.cancel v newqty a).2.order v
              ).pendingcancelNewqty ≤ r
        by_cases hr : (s.trading.om.cancel v newqty a).1 = .requested
        · rw [if_pos hr] at horder hlist
          rw [horder, hlist, Function.update_self]
          intro _ r hmem
          show newqty ≤ r
          rcases List.mem_append.mp hmem with hmem | hmem
          · exact (htight hr r hmem).le
          · exact (List.mem_singleton.mp hmem).ge
        · rw [if_neg hr] at horder hlist
          rw [horder, hlist]
          exact h v

omit [DecidableEq ω] [DecidableEq ι] in
theorem requestsInv_start (c : OrderManagerConf ω ι) :
    (start c).RequestsInv := nofun

-- ================================================================= result

/-- On every day, a request that goes out asks for less than every request
not yet answered, exactly if each one that asks for no less finds the
order still `PENDING_CANCEL`. -/
theorem cancel_requests_tighten_iff (c : OrderManagerConf ω ι)
    (is : List (Input ω)) :
    Lib.Admits step Tightens (start c) is
      ↔ Lib.Admits step InForce (start c) is :=
  Lib.admits_iff_of_step (I := RequestsInv) (p := fun _ _ => True)
    (fun _ i h _ => tightens_iff h i)
    (fun _ i h _ hforce => requestsInv_step h ((tightens_iff h i).mpr hforce))
    (requestsInv_start c) (Lib.Admits.trivial _ _)

/-- A partial fill arrives before the answer, and the same request goes
out again. -/
theorem cancel_repeated_after_fill :
    ¬ ∀ (c : OrderManagerConf Unit Unit) (is : List (Input Unit)),
      Lib.Admits step Tightens (start c) is := by
  intro h
  have hrun := h (.plain fun _ => .dayLimit () .buy 5 10)
    ([.send () [66] .taken, .acknowledged () 1 5 ⟨1, 0⟩ 1,
      .cancel () 0 ⟨true, ⟨2, 0⟩⟩, .fill () 2 10 ⟨3, 0⟩ 3 .unknown,
      .cancel () 0 ⟨true, ⟨4, 0⟩⟩].map Input.plain)
  exact absurd hrun (by decide +kernel)

end Requests

end TradingEngine.OE
