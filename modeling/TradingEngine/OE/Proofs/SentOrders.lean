/-
What stays of an order once it was sent.

The order manager reports on an order as often as it likes, and a strategy
may hand it to `send` again. Neither makes it new, and what it asks for is
fixed (`step_fixed`). A local id is given once, and belongs to one order
(`Numbered`).

# The invariant

`Numbered` says that an order that was sent has a local id between one and
`m_localID`, that no two have the same, and that the entry of `m_orders` at
the id is the order. A `send` that is accepted takes the next id, and refuses
an order that is not new, so the ids given before stay with their orders.
Everything else writes to orders through `Order.fixed`, which it leaves as it
is.
-/
import TradingEngine.OE.Proofs.OrderTable

namespace TradingEngine.OE

variable {ω ι : Type}

/-- What an order asks for, and of whom. -/
def Order.fixed (o : Order ι) :
    ι × Rat × Nat × Side × TimeInForce × OrderType × Option Bytes :=
  (o.instrument, o.price, o.size, o.side, o.tif, o.type, o.session)

/-- The size is fixed when an order is sent. -/
theorem Order.size_of_fixed {o o' : Order ι} (h : o'.fixed = o.fixed) :
    o'.size = o.size :=
  congrArg (fun x => x.2.2.1) h

/-- So is its session. -/
theorem Order.session_of_fixed {o o' : Order ι} (h : o'.fixed = o.fixed) :
    o'.session = o.session :=
  congrArg (fun x => x.2.2.2.2.2.2) h

/-- And its instrument. -/
theorem Order.instrument_of_fixed {o o' : Order ι}
    (h : o'.fixed = o.fixed) : o'.instrument = o.instrument :=
  congrArg Prod.fst h

namespace Trading

variable [DecidableEq ω] [DecidableEq ι]

/-- An order that is sent again is refused before anything is asked. -/
theorem send_again (om : OrderManager ω ι) {w : ω}
    (h : (om.order w).unsent = false) (session : Bytes)
    (a : OrderManager.SendAnswer) :
    (om.send w session a).1 = false
    ∧ (om.send w session a).2.order = Function.update om.order w
      { om.order w with
        localID := om.localID + 1
        state := .locallyRejected } := by
  have hagain : (om.takeLocalID w).validates w a = false := by
    have hvalid : ((om.takeLocalID w).order w).validateBase = false := by
      have hself : ((om.takeLocalID w).order w).unsent = false := by
        show (Function.update om.order w _ w).unsent = false
        rw [Function.update_self]
        exact h
      unfold Order.validateBase
      rw [hself]
      rfl
    unfold OrderManager.validates
    rw [hvalid]
    rfl
  unfold OrderManager.send
  simp only [hagain, Bool.not_false, if_true]
  refine ⟨trivial, ?_⟩
  show Function.update (Function.update om.order w _) w _ = _
  simp [OrderManager.takeLocalID]

/-- The step lemma. -/
theorem step_fixed (t : Trading ω ι) (e : Event ω) {w : ω}
    (h : (t.om.order w).unsent = false) :
    ((t.step e).om.order w).fixed = (t.om.order w).fixed
    ∧ ((t.step e).om.order w).unsent = false := by
  by_cases hw : e.about = w
  case neg =>
    rw [t.step_order_of_ne hw]
    exact ⟨rfl, h⟩
  case pos =>
    have written : ∀ {o : Order ι}, (t.step e).om.order w = o →
        o.fixed = (t.om.order w).fixed → o.unsent = false →
        ((t.step e).om.order w).fixed = (t.om.order w).fixed
          ∧ ((t.step e).om.order w).unsent = false := by
      intro o hself hfixed hunsent
      rw [hself]
      exact ⟨hfixed, hunsent⟩
    cases e with
    | send v session a =>
        obtain rfl : v = w := hw
        obtain ⟨-, horder⟩ := send_again t.om h session a
        refine written (o := { t.om.order v with
          localID := t.om.localID + 1, state := .locallyRejected }) ?_ rfl
          rfl
        show (t.om.send v session a).2.order v = _
        rw [horder, Function.update_self]
    | cancel v newqty a =>
        obtain rfl : v = w := hw
        rcases t.step_cancel_order v newqty a with hself | hself
        · exact written hself rfl h
        · exact written hself rfl rfl
    | destroy v onlyIfTerminal sessionDestroys =>
        exact written (t.step_destroy_order ..) rfl h
    | acknowledged v exchangeID size ts exts =>
        obtain rfl : v = w := hw
        exact written (Function.update_self ..) rfl rfl
    | rejected v ts exts =>
        obtain rfl : v = w := hw
        exact written (Function.update_self ..) rfl rfl
    | fill v size price ts exts feeCode =>
        obtain rfl : v = w := hw
        refine written (Function.update_self ..) rfl ?_
        show ((if _ then OrderState.filled else .partiallyFilled)
          == .newAndUnsent) = false
        split <;> rfl
    | cancelled v size ts exts =>
        obtain rfl : v = w := hw
        refine written (Function.update_self ..) ?_ ?_
        · rw [orderUpdateOnCancel_eq]
          rfl
        · rw [orderUpdateOnCancel_eq]
          show ((if _ then OrderState.cancelled else .partiallyCancelled)
            == .newAndUnsent) = false
          split <;> rfl
    | cancelRejected v ts exts =>
        obtain rfl : v = w := hw
        exact written (Function.update_self ..) rfl rfl

/-- Only `send` sends. -/
theorem step_sent (t : Trading ω ι) {e : Event ω}
    (he : ∀ v session a, e ≠ .send v session a) :
    (t.step e).sent = t.sent := by
  cases e with
  | send v session a => exact absurd rfl (he v session a)
  | _ => rfl

/-- And only `send` counts. -/
theorem step_counter (t : Trading ω ι) {e : Event ω}
    (he : ∀ v session a, e ≠ .send v session a) :
    (t.step e).om.localID = t.om.localID := by
  cases e with
  | send v session a => exact absurd rfl (he v session a)
  | cancel v newqty a =>
      show (t.om.cancel v newqty a).2.localID = _
      rcases t.om.cancel_cases v newqty a with heq | ⟨-, -, heq⟩ <;> rw [heq]
      rfl
  | destroy v onlyIfTerminal sessionDestroys =>
      show (t.om.destroy v onlyIfTerminal sessionDestroys).2.localID = _
      rcases t.om.destroy_cases v onlyIfTerminal sessionDestroys with
        heq | ⟨-, heq⟩ | ⟨-, heq⟩ <;> rw [heq] <;> rfl
  | _ => rfl

/-- What was sent stays sent. -/
theorem subset_sent (t : Trading ω ι) (e : Event ω) :
    t.sent ⊆ (t.step e).sent := by
  intro v hv
  by_cases he : ∀ w session a, e ≠ .send w session a
  · rwa [t.step_sent he]
  · push Not at he
    obtain ⟨w, session, a, rfl⟩ := he
    exact (t.mem_sent_send w session a v).mpr (.inl hv)

-- ================================================================= invariant

/-- Local ids are given once, to orders that are not new from then on. -/
structure Numbered (t : Trading ω ι) : Prop where
  counted : ∀ w, (t.om.order w).localID ≤ t.om.localID
  apart : ∀ w w', (t.om.order w).localID = (t.om.order w').localID →
    (t.om.order w).localID ≠ 0 → w = w'
  numbered : ∀ w ∈ t.sent, (t.om.order w).localID ≠ 0
  unsent : ∀ w ∈ t.sent, (t.om.order w).unsent = false
  sized : ∀ w ∈ t.sent, 0 < (t.om.order w).size
  session : ∀ w ∈ t.sent, (t.om.order w).session ≠ none

/-- No event changes what was fixed. -/
theorem Numbered.fixed {t : Trading ω ι} (h : t.Numbered) (e : Event ω)
    {w : ω} (hw : w ∈ t.sent) :
    ((t.step e).om.order w).fixed = (t.om.order w).fixed :=
  (t.step_fixed e (h.unsent w hw)).1

/-- A send gives the next number. -/
theorem Numbered.send {t : Trading ω ι} (h : t.Numbered) (w : ω)
    (session : Bytes) (a : OrderManager.SendAnswer) :
    (t.step (.send w session a)).Numbered := by
  obtain ⟨o, hwrites⟩ := t.om.send_writes w session a
  have horder : (t.step (.send w session a)).om.order
      = Function.update t.om.order w o := hwrites.order
  have hcounter : (t.step (.send w session a)).om.localID
      = t.om.localID + 1 := hwrites.counter
  have hsent := t.mem_sent_send w session a
  have hlt : ∀ v, (t.om.order v).localID < t.om.localID + 1 :=
    fun v => Nat.lt_succ_of_le (h.counted v)
  have hone : ∀ {P : Order ι → Prop} (v : ω), (v = w → P o) →
      (v ≠ w → P (t.om.order v)) →
      P ((t.step (.send w session a)).om.order v) := by
    intro P v hself hother
    rw [horder]
    by_cases hv : v = w
    · rw [hv, Function.update_self]
      exact hself hv
    · rw [Function.update_of_ne hv]
      exact hother hv
  refine ⟨fun v => ?_, fun v v' heq hne => ?_, fun v hv => ?_,
    fun v hv => ?_, fun v hv => ?_, fun v hv => ?_⟩
  · rw [hcounter]
    exact hone (P := fun x => x.localID ≤ t.om.localID + 1) v
      (fun _ => hwrites.localID.le) fun _ => (hlt v).le
  · rw [horder] at heq hne
    by_cases hv : v = w <;> by_cases hv' : v' = w
    · exact hv.trans hv'.symm
    · subst hv
      rw [Function.update_self, Function.update_of_ne hv',
        hwrites.localID] at heq
      exact absurd heq (Nat.ne_of_gt (hlt v'))
    · subst hv'
      rw [Function.update_self, Function.update_of_ne hv,
        hwrites.localID] at heq
      exact absurd heq (Nat.ne_of_lt (hlt v))
    · rw [Function.update_of_ne hv, Function.update_of_ne hv'] at heq
      rw [Function.update_of_ne hv] at hne
      exact h.apart v v' heq hne
  · refine hone (P := fun x => x.localID ≠ 0) v (fun _ => ?_) fun hne => ?_
    · rw [hwrites.localID]
      exact Nat.succ_ne_zero _
    · rcases (hsent v).mp hv with hv | ⟨rfl, -⟩
      · exact h.numbered v hv
      · exact absurd rfl hne
  · rcases (hsent v).mp hv with hv | ⟨rfl, hr⟩
    · exact (t.step_fixed _ (h.unsent v hv)).2
    · rw [horder, Function.update_self]
      unfold Order.unsent
      rw [hwrites.state, hr]
      rfl
  · rcases (hsent v).mp hv with hv | ⟨rfl, hr⟩
    · rw [Order.size_of_fixed (h.fixed _ hv)]
      exact h.sized v hv
    · rcases t.om.send_spec v session a with ⟨-, side, hacc⟩ | ⟨hr', -⟩
      · obtain ⟨-, -, hpos, -⟩ := Order.validateBase_spec hacc.valid
        show 0 < ((t.om.send v session a).2.order v).size
        rw [hacc.order, Function.update_self]
        exact hpos
      · rw [hr] at hr'
        cases hr'
  · rcases (hsent v).mp hv with hv | ⟨rfl, hr⟩
    · rw [Order.session_of_fixed (h.fixed _ hv)]
      exact h.session v hv
    · rcases t.om.send_spec v session a with ⟨-, side, hacc⟩ | ⟨hr', -⟩
      · show ((t.om.send v session a).2.order v).session ≠ none
        rw [hacc.order, Function.update_self]
        exact Option.some_ne_none session
      · rw [hr] at hr'
        cases hr'

/-- The step lemma. -/
theorem numbered_step {t : Trading ω ι} (h : t.Numbered) (e : Event ω) :
    (t.step e).Numbered := by
  by_cases he : ∀ w session a, e ≠ .send w session a
  · have hid : ∀ w, ((t.step e).om.order w).localID
        = (t.om.order w).localID := fun w => (t.step_localID he w).1
    refine ⟨fun w => ?_, fun w w' => ?_, fun w hw => ?_, fun w hw => ?_,
      fun w hw => ?_, fun w hw => ?_⟩
    · rw [hid, t.step_counter he]
      exact h.counted w
    · rw [hid, hid]
      exact h.apart w w'
    · rw [t.step_sent he] at hw
      rw [hid]
      exact h.numbered w hw
    · rw [t.step_sent he] at hw
      exact (t.step_fixed e (h.unsent w hw)).2
    · rw [t.step_sent he] at hw
      rw [Order.size_of_fixed (h.fixed e hw)]
      exact h.sized w hw
    · rw [t.step_sent he] at hw
      rw [Order.session_of_fixed (h.fixed e hw)]
      exact h.session w hw
  · push Not at he
    obtain ⟨w, session, a, rfl⟩ := he
    exact h.send w session a

/-- An order keeps its local id or gets one that none had before. -/
theorem localID_step (t : Trading ω ι) (e : Event ω) (w : ω) :
    ((t.step e).om.order w).localID = (t.om.order w).localID
    ∨ t.om.localID < ((t.step e).om.order w).localID := by
  by_cases he : ∀ w session a, e ≠ .send w session a
  · exact .inl (t.step_localID he w).1
  · push Not at he
    obtain ⟨v, session, a, rfl⟩ := he
    by_cases hw : v = w
    · subst hw
      obtain ⟨o, hwrites⟩ := t.om.send_writes v session a
      right
      show _ < ((t.om.send v session a).2.order v).localID
      rw [hwrites.order, Function.update_self, hwrites.localID]
      exact Nat.lt_succ_self _
    · exact .inl (congrArg Order.localID (t.step_order_of_ne hw))

/-- The counter never goes back. -/
theorem counter_step (t : Trading ω ι) (e : Event ω) :
    t.om.localID ≤ (t.step e).om.localID := by
  by_cases he : ∀ w session a, e ≠ .send w session a
  · exact (t.step_counter he).ge
  · push Not at he
    obtain ⟨v, session, a, rfl⟩ := he
    obtain ⟨o, hwrites⟩ := t.om.send_writes v session a
    show _ ≤ (t.om.send v session a).2.localID
    rw [hwrites.counter]
    exact Nat.le_succ _

omit [DecidableEq ω] [DecidableEq ι] in
/-- Before the first order there are no numbers. -/
theorem numbered_start (c : OrderManagerConf ω ι) : (start c).Numbered := by
  obtain ⟨sessions, records, hstart, -⟩ := OrderManager.start_frame c
  have hzero : ∀ w, ((start c).om.order w).localID = 0 := by
    intro w
    show ((OrderManager.start c).order w).localID = 0
    rw [hstart]
    rfl
  refine ⟨fun w => ?_, fun w w' _ hne => absurd (hzero w) hne, nofun, nofun,
    nofun, nofun⟩
  rw [hzero]
  exact Nat.zero_le _

end Trading

end TradingEngine.OE
