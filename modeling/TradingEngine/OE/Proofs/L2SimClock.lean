/-
Whether simulated time goes forward.

# The agenda

The session's clock and queue are an agenda (`agenda_step`): `update_ts`
takes off what is due first, everything else puts events on it that are due
no earlier than the clock, and the clock is set to a packet's time when
nothing is due before it. So the library's result is one about the session
(`simulated_time_monotone`).

# Guard

`Timely` asks that packets come in the order of their times, that market
data is no earlier than its packet, and that `update_ts` goes on until
nothing on top of the queue is due before the packet. Sends and cancels come
at any time, also between two turns of the loop.
-/
import TradingEngine.Lib.Agenda
import TradingEngine.OE.Proofs.L2SimFrames
import TradingEngine.OE.Proofs.L2Sim
import Mathlib.Data.List.MinMax

namespace TradingEngine.OE

variable {ω ι : Type}

-- ================================================================== the queue

/-- When an event of the queue is due. -/
def dueTime (q : SimEvent.Ordering × SimEvent ω) : Nat := (ofLex q.1).1

/-- What comes first is due no later. -/
theorem dueTime_le {q q' : SimEvent.Ordering × SimEvent ω}
    (h : q.1 ≤ q'.1) : dueTime q ≤ dueTime q' := by
  rcases (Prod.Lex.le_iff ..).mp h with hlt | ⟨heq, -⟩
  · exact Nat.le_of_lt hlt
  · exact Nat.le_of_eq heq

namespace L2SimSession

/-- The clock stands, and what comes into the queue is due at `t` or
later. -/
structure Appends (t : Nat) (ss ss' : L2SimSession ω ι) : Prop where
  ts : ss'.ts = ss.ts
  eventq : ∃ new, ss'.eventq = ss.eventq ++ new ∧ ∀ q ∈ new, t ≤ dueTime q

/-- Clock and queue are not touched. -/
theorem Appends.of_eventq {t : Nat} {ss ss' : L2SimSession ω ι}
    (hts : ss'.ts = ss.ts) (heventq : ss'.eventq = ss.eventq) :
    Appends t ss ss' :=
  ⟨hts, [], by rw [heventq, List.append_nil], nofun⟩

/-- Nothing is added. -/
theorem Appends.refl (t : Nat) (ss : L2SimSession ω ι) : Appends t ss ss :=
  .of_eventq rfl rfl

/-- Over several steps of a handler. -/
theorem Appends.trans {t : Nat} {ss ss' ss'' : L2SimSession ω ι}
    (h : Appends t ss ss') (h' : Appends t ss' ss'') : Appends t ss ss'' := by
  obtain ⟨new, hnew, hdue⟩ := h.eventq
  obtain ⟨new', hnew', hdue'⟩ := h'.eventq
  refine ⟨h'.ts.trans h.ts, new ++ new', ?_, fun q hq => ?_⟩
  · rw [hnew', hnew, List.append_assoc]
  · exact (List.mem_append.mp hq).elim (hdue q) (hdue' q)

/-- Events go into the queue. -/
theorem appends_emplaceAll {t : Nat} (ss : L2SimSession ω ι)
    {due : SimEvent.Ordering} (hdue : t ≤ (ofLex due).1)
    (es : List (SimEvent ω)) : Appends t ss (ss.emplaceAll due es) := by
  refine ⟨rfl, _, rfl, fun q hq => ?_⟩
  obtain ⟨e, -, rfl⟩ := List.mem_map.mp hq
  exact hdue

/-- What market data leaves behind is due no earlier than its time. -/
theorem marketFrame_appends (ts esi : Nat) (ks : List Container) :
    MarketFrame ts esi ks (Appends (ω := ω) (ι := ι) ts) where
  refl := .refl ts
  trans := .trans
  thinned ss k c es _ _ := by
    have hset : Appends ts ss (ss.setOrders esi k c) := .of_eventq rfl rfl
    exact hset.trans (appends_emplaceAll _ (Nat.le_add_right ..) es)
  found _ := .of_eventq rfl rfl
  status _ _ := .of_eventq rfl rfl
  seen _ _ := .of_eventq rfl rfl
  executed _ _ := .of_eventq rfl rfl
  imbalance _ _ := .of_eventq rfl rfl

/-- Nor is what an arrival leaves behind. -/
theorem arrivalFrame_appends (o : Order ι) (ts : Nat) (se : SimEvent ω) :
    ArrivalFrame o ts se (Appends ts) where
  refl := .refl ts
  trans := .trans
  recorded _ := .of_eventq rfl rfl
  answered ss _ _ _ _ _ _ _ :=
    appends_emplaceAll ss (Nat.le_add_right ..) [_]
  placed _ _ _ _ _ _ _ := .of_eventq rfl rfl

/-- Nor a request. -/
theorem requestFrame_appends (ts : Nat) (se : SimEvent ω) :
    RequestFrame ts se (Appends (ω := ω) (ι := ι) ts) where
  trans := .trans
  thinned _ _ _ _ _ := .of_eventq rfl rfl
  rejected ss := appends_emplaceAll ss (Nat.le_add_right ..) [_]
  cancelled ss _ := appends_emplaceAll ss (Nat.le_add_right ..) [_]

end L2SimSession

namespace L2Sim

open Lib.Agenda (Step Steps)
open L2SimSession (Appends appends_emplaceAll arrivalFrame_appends
  marketFrame_appends requestFrame_appends)

variable [DecidableEq ω] [DecidableEq ι]

/-- An event is served. -/
theorem appends_serve (s : L2Sim ω ι) (ts : Nat) (se : SimEvent ω)
    (view : BookView) :
    Appends ts s.session (s.serve ts se view).session :=
  serve_frame s view (arrivalFrame_appends _ ts se)
    (requestFrame_appends ts se) fun _ _ => .of_eventq rfl rfl

-- ================================================================== the guard

/-- What may come next. -/
def Timely (s : L2Sim ω ι) : Input ω ι → Prop
  | .send _ _ => True
  | .cancel _ _ => True
  | .startOfData ts => s.updating = none ∧ s.session.ts ≤ ts
  | .turn k _ => ∃ ts, s.updating = some ts ∧ s.IsTop ts k
  | .endOfUpdate => ∃ ts, s.updating = some ts ∧ ∀ k, ¬ s.IsTop ts k
  | .symbolDefinition _ _ => True
  | .market ts _ _ => s.updating = none ∧ s.session.ts ≤ ts

omit [DecidableEq ω] [DecidableEq ι] in
/-- As long as something is due, the loop goes on. -/
theorem exists_top {s : L2Sim ω ι} {ts : Nat}
    {q : SimEvent.Ordering × SimEvent ω} (hq : q ∈ s.session.eventq)
    (hdue : dueTime q < ts) : ∃ k, s.IsTop ts k := by
  obtain ⟨top, htop⟩ : ∃ top, top ∈ s.session.eventq.argmin Prod.fst := by
    cases hmin : s.session.eventq.argmin Prod.fst with
    | none => exact absurd (List.argmin_eq_none.mp hmin) (List.ne_nil_of_mem hq)
    | some top => exact ⟨top, rfl⟩
  obtain ⟨k, hk⟩ := List.getElem?_of_mem (List.argmin_mem htop)
  refine ⟨k, top, hk, ?_, fun q' hq' => List.le_of_mem_argmin hq' htop⟩
  exact Nat.lt_of_le_of_lt (dueTime_le (List.le_of_mem_argmin hq htop)) hdue

-- ==================================================================== records

/-- The event that an input takes out of the queue. -/
def dequeuedBy (s : L2Sim ω ι) :
    Input ω ι → List (SimEvent.Ordering × SimEvent ω)
  | .turn k _ => (s.session.eventq[k]?).toList
  | _ => []

/-- The events that it puts in. -/
def enqueuedBy (s : L2Sim ω ι) (i : Input ω ι) :
    List (SimEvent.Ordering × SimEvent ω) :=
  (s.step i).session.eventq.drop
    (s.session.eventq.length - (s.dequeuedBy i).length)

/-- All events that a run takes out, in its order. -/
def dequeued (s : L2Sim ω ι) :
    List (Input ω ι) → List (SimEvent.Ordering × SimEvent ω)
  | [] => []
  | i :: is => s.dequeuedBy i ++ dequeued (s.step i) is

/-- And all that it puts in. -/
def enqueued (s : L2Sim ω ι) :
    List (Input ω ι) → List (SimEvent.Ordering × SimEvent ω)
  | [] => []
  | i :: is => s.enqueuedBy i ++ enqueued (s.step i) is

/-- What was taken off over two runs. -/
theorem dequeued_append (s : L2Sim ω ι) (is is' : List (Input ω ι)) :
    s.dequeued (is ++ is')
      = s.dequeued is ++ (Lib.run step s is).dequeued is' := by
  induction is generalizing s with
  | nil => rfl
  | cons i is ih =>
      rw [List.cons_append, dequeued, ih, dequeued, List.append_assoc]
      rfl

/-- What was put on over two runs. -/
theorem enqueued_append (s : L2Sim ω ι) (is is' : List (Input ω ι)) :
    s.enqueued (is ++ is')
      = s.enqueued is ++ (Lib.run step s is).enqueued is' := by
  induction is generalizing s with
  | nil => rfl
  | cons i is ih =>
      rw [List.cons_append, enqueued, ih, enqueued, List.append_assoc]
      rfl

-- ==================================================================== a step

/-- While `update_ts` runs the clock is no later than its time. -/
def UpdatesOn (s : L2Sim ω ι) : Prop :=
  ∀ ts, s.updating = some ts → s.session.ts ≤ ts

/-- The agenda, with what went through it so far. -/
def agendaOf (s : L2Sim ω ι)
    (entered taken : List (SimEvent.Ordering × SimEvent ω)) :
    Lib.Agenda Nat (SimEvent.Ordering × SimEvent ω) :=
  ⟨s.session.ts, s.session.eventq, entered, taken⟩

section Step

variable {s : L2Sim ω ι}
  {entered taken : List (SimEvent.Ordering × SimEvent ω)}

/-- What an input that serves no event puts in. -/
theorem enqueuedBy_eq {i : Input ω ι}
    {new : List (SimEvent.Ordering × SimEvent ω)}
    (hi : s.dequeuedBy i = [])
    (hnew : (s.step i).session.eventq = s.session.eventq ++ new) :
    s.enqueuedBy i = new := by
  unfold enqueuedBy
  rw [hi, hnew, List.length_nil, Nat.sub_zero, List.drop_left]

/-- And what a turn does. -/
theorem enqueuedBy_turn {k : Nat} {q : SimEvent.Ordering × SimEvent ω}
    {view : BookView} {new : List (SimEvent.Ordering × SimEvent ω)}
    (hq : s.session.eventq[k]? = some q)
    (hnew : (s.step (.turn k view)).session.eventq
      = (s.popped k q.1).session.eventq ++ new) :
    s.enqueuedBy (.turn k view) = new := by
  obtain ⟨hk, -⟩ := List.getElem?_eq_some_iff.mp hq
  have htaken : s.dequeuedBy (.turn k view) = [q] := by
    show (s.session.eventq[k]?).toList = [q]
    rw [hq]
    rfl
  unfold enqueuedBy
  rw [htaken, hnew]
  show (s.session.eventq.eraseIdx k ++ new).drop
    (s.session.eventq.length - 1) = new
  rw [← List.length_eraseIdx_of_lt hk, List.drop_left]

/-- An input that serves no event puts some into the queue. -/
theorem agenda_enter {i : Input ω ι} {t : Nat} (hi : s.dequeuedBy i = [])
    (h : Appends t s.session (s.step i).session) (ht : s.session.ts ≤ t) :
    Steps dueTime (s.agendaOf entered taken) ((s.step i).agendaOf
      (entered ++ s.enqueuedBy i) (taken ++ s.dequeuedBy i)) := by
  obtain ⟨hts, new, hnew, hdue⟩ := h
  have hentered : s.enqueuedBy i = new := enqueuedBy_eq hi hnew
  have hstep : Step dueTime (s.agendaOf entered taken) _ :=
    .enter new fun q hq => Nat.le_trans ht (hdue q hq)
  rw [hentered, hi, List.append_nil]
  unfold agendaOf at hstep ⊢
  rw [hts, hnew]
  exact .single hstep

/-- A turn takes what is first, and puts some into the queue. -/
theorem agenda_turn {ts k : Nat} (htop : s.IsTop ts k) (view : BookView) :
    Steps dueTime (s.agendaOf entered taken) ((s.step (.turn k view)).agendaOf
      (entered ++ s.enqueuedBy (.turn k view))
      (taken ++ s.dequeuedBy (.turn k view))) := by
  obtain ⟨q, hq, -, hfirst⟩ := htop
  have htake : Step dueTime (s.agendaOf entered taken) _ :=
    .take hq fun q' hq' => dueTime_le (hfirst q' hq')
  have hturn : s.step (.turn k view)
      = (s.popped k q.1).serve (dueTime q) q.2 view :=
    turn_eq s hq view
  obtain ⟨hts, new, hnew, hdue⟩ :=
    appends_serve (s.popped k q.1) (dueTime q) q.2 view
  rw [← hturn] at hts hnew
  have htaken : s.dequeuedBy (.turn k view) = [q] := by
    show (s.session.eventq[k]?).toList = [q]
    rw [hq]
    rfl
  have hentered : s.enqueuedBy (.turn k view) = new :=
    enqueuedBy_turn hq hnew
  rw [hentered, htaken]
  have henter : Step dueTime
      ⟨dueTime q, s.session.eventq.eraseIdx k, entered, taken ++ [q]⟩ _ :=
    .enter new hdue
  refine .head htake (.single ?_)
  unfold agendaOf
  rw [hts, hnew]
  exact henter

/-- The update is over, and the clock is at its time. -/
theorem step_endOfUpdate {ts : Nat} (hts : s.updating = some ts) :
    s.step .endOfUpdate = { s with
      session := { s.session with ts := ts }, updating := none } := by
  unfold step
  dsimp only
  rw [hts]

/-- The step lemma. -/
theorem agenda_step {i : Input ω ι} (hupdates : s.UpdatesOn)
    (hi : s.Timely i) :
    Steps dueTime (s.agendaOf entered taken) ((s.step i).agendaOf
      (entered ++ s.enqueuedBy i) (taken ++ s.dequeuedBy i)) := by
  cases i with
  | send w validated =>
      refine agenda_enter rfl ?_ (Nat.le_refl _)
      obtain ⟨a, -, heq⟩ := s.send_eq w validated
      show Appends _ s.session (s.send w validated).session
      rw [heq]
      dsimp only
      split
      · exact appends_emplaceAll _ (Nat.le_add_right ..) [_]
      · exact .refl _ _
  | cancel w newqty =>
      refine agenda_enter rfl ?_ (Nat.le_refl _)
      obtain ⟨a, heq⟩ := s.cancel_eq w newqty
      show Appends _ s.session (s.cancel w newqty).session
      rw [heq]
      dsimp only
      split
      · exact appends_emplaceAll _ (Nat.le_add_right ..) [_]
      · exact .refl _ _
  | startOfData ts =>
      exact agenda_enter rfl (.of_eventq rfl rfl) (Nat.le_refl _)
  | turn k view =>
      obtain ⟨ts, -, htop⟩ := hi
      exact agenda_turn htop view
  | endOfUpdate =>
      obtain ⟨ts, hts, hend⟩ := hi
      have hadvance : Step dueTime (s.agendaOf entered taken) _ :=
        .advance (hupdates ts hts) fun q hq => Nat.le_of_not_lt fun hlt => by
          obtain ⟨k, hk⟩ := exists_top hq hlt
          exact hend k hk
      have hstep := step_endOfUpdate hts
      have hentered : s.enqueuedBy .endOfUpdate = [] := by
        unfold enqueuedBy
        rw [hstep]
        exact List.drop_length
      rw [hentered, hstep, List.append_nil]
      show Steps dueTime _ ⟨ts, s.session.eventq, entered, taken ++ []⟩
      rw [List.append_nil]
      exact .single hadvance
  | symbolDefinition ticker esi =>
      exact agenda_enter rfl (.of_eventq rfl rfl) (Nat.le_refl _)
  | market ts esi e =>
      exact agenda_enter rfl ((marketFrame_appends ts esi _).onMarketEvent
        s.session e fun _ h => h) hi.2

/-- Serving an event leaves the update as it is. -/
theorem updating_serve (s : L2Sim ω ι) (ts : Nat) (se : SimEvent ω)
    (view : BookView) : (s.serve ts se view).updating = s.updating := by
  unfold serve
  split
  · rfl
  · rfl
  · rfl
  · unfold onOrderCancelled
    dsimp only
    split <;> rfl
  · rfl
  · unfold onOrderFilled
    dsimp only
    split <;> rfl
  · rfl

/-- The clock does not get ahead of the call of `update_ts` that runs. -/
theorem updatesOn_step {i : Input ω ι} (hupdates : s.UpdatesOn)
    (hi : s.Timely i) : (s.step i).UpdatesOn := by
  cases i with
  | send w validated =>
      obtain ⟨a, -, heq⟩ := s.send_eq w validated
      show (s.send w validated).UpdatesOn
      rw [heq]
      intro ts hts
      dsimp only
      split
      · exact hupdates ts hts
      · exact hupdates ts hts
  | cancel w newqty =>
      obtain ⟨a, heq⟩ := s.cancel_eq w newqty
      show (s.cancel w newqty).UpdatesOn
      rw [heq]
      intro ts hts
      dsimp only
      split
      · exact hupdates ts hts
      · exact hupdates ts hts
  | startOfData ts =>
      rintro ts' ⟨⟩
      exact hi.2
  | turn k view =>
      obtain ⟨ts, hts, q, hq, hdue, -⟩ := hi
      show (s.turn k view).UpdatesOn
      unfold turn
      rw [hq]
      intro ts' hts'
      rw [updating_serve] at hts'
      obtain rfl : ts = ts' := Option.some.inj (hts.symm.trans hts')
      rw [(appends_serve _ _ _ _).ts]
      exact Nat.le_of_lt hdue
  | endOfUpdate =>
      obtain ⟨ts, hts, -⟩ := hi
      intro ts' hts'
      unfold step at hts'
      dsimp only at hts'
      rw [hts] at hts'
      cases hts'
  | symbolDefinition ticker esi => exact hupdates
  | market ts esi e =>
      intro ts' hts'
      have hnone : s.updating = some ts' := hts'
      rw [hi.1] at hnone
      cases hnone

end Step

-- ===================================================================== a run

/-- A run is one of the agenda. -/
theorem agenda_run {s : L2Sim ω ι} (hupdates : s.UpdatesOn)
    {is : List (Input ω ι)} (h : Lib.Admits step Timely s is)
    (entered taken : List (SimEvent.Ordering × SimEvent ω)) :
    (Lib.run step s is).UpdatesOn
      ∧ Steps dueTime (s.agendaOf entered taken)
        ((Lib.run step s is).agendaOf (entered ++ s.enqueued is)
          (taken ++ s.dequeued is)) := by
  induction is generalizing s entered taken with
  | nil =>
      refine ⟨hupdates, ?_⟩
      show Steps dueTime _ (s.agendaOf (entered ++ []) (taken ++ []))
      rw [List.append_nil, List.append_nil]
  | cons i is ih =>
      obtain ⟨hrun, hsteps⟩ := ih (updatesOn_step hupdates h.1) h.2
        (entered ++ s.enqueuedBy i) (taken ++ s.dequeuedBy i)
      refine ⟨hrun, ?_⟩
      rw [enqueued, dequeued, ← List.append_assoc, ← List.append_assoc]
      exact (agenda_step hupdates h.1).trans hsteps

/-- Simulated time goes forward: the clock never goes back, events are
taken out of the queue in the order of their times, nothing that is left in
it after an update is due before the packet, and what is due before the
packet, whenever it was put in, was taken out before it, and once. -/
theorem simulated_time_monotone (c : OrderManagerConf ω ι) (name : Bytes)
    (mic : SimMarket) (ackLatency cxlLatency : Nat)
    (imbalanceOnly : ω → Bool) {is : List (Input ω ι)}
    (h : Lib.Admits step Timely (start c (.create name mic ackLatency
      cxlLatency imbalanceOnly)) is) :
    let s := start c (.create name mic ackLatency cxlLatency imbalanceOnly)
    (∀ before after, is = before ++ after →
      (Lib.run step s before).session.ts ≤ (Lib.run step s is).session.ts)
    ∧ (s.dequeued is).Pairwise (fun q q' => dueTime q ≤ dueTime q')
    ∧ ∀ before ts after, is = before ++ .endOfUpdate :: after →
      (Lib.run step s before).updating = some ts →
      (∀ q ∈ (Lib.run step s (before ++ [.endOfUpdate])).session.eventq,
        ts ≤ dueTime q)
      ∧ ((s.enqueued is).filter fun q => dueTime q < ts).Perm
        ((s.dequeued before).filter fun q => dueTime q < ts)
      ∧ ((s.dequeued is).filter fun q => dueTime q < ts)
        = (s.dequeued before).filter fun q => dueTime q < ts := by
  intro s
  have hstart : s.UpdatesOn := nofun
  have hinit : Lib.Agenda.Inv dueTime (s.agendaOf [] []) :=
    Lib.Agenda.inv_init 0
  -- what holds up to a place holds of the agenda from there on
  have hsplit : ∀ before after, is = before ++ after →
      Lib.Agenda.Inv dueTime ((Lib.run step s before).agendaOf
        (s.enqueued before) (s.dequeued before))
      ∧ Steps dueTime ((Lib.run step s before).agendaOf (s.enqueued before)
        (s.dequeued before)) ((Lib.run step s is).agendaOf (s.enqueued is)
          (s.dequeued is)) := by
    rintro before after rfl
    obtain ⟨hbefore, hafter⟩ := Lib.admits_append.mp h
    obtain ⟨hupdates, hsteps⟩ := agenda_run hstart hbefore [] []
    obtain ⟨-, hrest⟩ := agenda_run hupdates hafter (s.enqueued before)
      (s.dequeued before)
    rw [Lib.run_append, enqueued_append, dequeued_append]
    exact ⟨Lib.Agenda.Steps.inv hsteps hinit, hrest⟩
  refine ⟨fun before after heq => ?_, ?_, fun before ts after heq hts => ?_⟩
  · obtain ⟨hinv, hsteps⟩ := hsplit before after heq
    exact (Lib.Agenda.Steps.later hsteps hinv).now
  · exact (hsplit is [] (List.append_nil is).symm).1.sorted
  · -- the clock is at the packet's time after the update
    obtain ⟨hinv, hsteps⟩ := hsplit (before ++ [.endOfUpdate]) after (by
      rw [heq, List.append_assoc]
      rfl)
    have hnow : (Lib.run step s (before ++ [.endOfUpdate])).session.ts
        = ts := by
      rw [Lib.run_append, Lib.run_cons, Lib.run_nil, step_endOfUpdate hts]
    have htaken : s.dequeued (before ++ [.endOfUpdate])
        = s.dequeued before := by
      rw [dequeued_append]
      exact List.append_nil _
    have hsettled := hinv.settled hsteps
    unfold agendaOf at hinv hsettled
    rw [hnow, htaken] at hsettled
    refine ⟨fun q hq => ?_, hsettled⟩
    rw [← hnow]
    exact hinv.ahead q hq

instance (s : L2Sim ω ι) (ts : Nat) : Decidable (∀ k, ¬ s.IsTop ts k) :=
  decidable_of_iff (∀ k < s.session.eventq.length, ¬ s.IsTop ts k) <| by
    refine ⟨fun h k htop => h k ?_ htop, fun h k _ => h k⟩
    obtain ⟨q, hq, -⟩ := htop
    exact (List.getElem?_eq_some_iff.mp hq).1

instance (s : L2Sim ω ι) (i : Input ω ι) : Decidable (s.Timely i) :=
  match i with
  | .send _ _ => .isTrue trivial
  | .cancel _ _ => .isTrue trivial
  | .startOfData ts =>
      inferInstanceAs (Decidable (s.updating = none ∧ s.session.ts ≤ ts))
  | .turn k _ =>
      inferInstanceAs (Decidable (∃ ts ∈ s.updating, s.IsTop ts k))
  | .endOfUpdate => inferInstanceAs (Decidable (∃ ts ∈ s.updating,
      ∀ k, ¬ s.IsTop ts k))
  | .symbolDefinition _ _ => .isTrue trivial
  | .market ts _ _ =>
      inferInstanceAs (Decidable (s.updating = none ∧ s.session.ts ≤ ts))

/-- An order is sent, and cancelled while its acknowledgment is reported;
market data is later than its packet. -/
def demoRun : List (Input Nat Nat) :=
  demoSend ++ [.turn 0 noOffer, .turn 0 noOffer, .cancel 0 0,
    .turn 0 noOffer, .turn 0 noOffer, .endOfUpdate,
    .market 12 0 (.bookAdded .buy 100000 5), .startOfData 20, .endOfUpdate]

theorem simulated_time_monotone_demo :
    let s := start (.plain fun _ : Nat => demoParams 10 .limit)
      (.create [66] .xnas 1 1 fun _ => false)
    (Lib.run step s demoSend).session.ts ≤ (Lib.run step s demoRun).session.ts
    ∧ (s.dequeued demoRun).length = 4
    ∧ (s.dequeued demoRun).Pairwise (fun q q' => dueTime q ≤ dueTime q') := by
  intro s
  have hadm : Lib.Admits step Timely s demoRun := by decide +kernel
  have hrun := simulated_time_monotone (.plain fun _ => demoParams 10 .limit)
    [66] .xnas 1 1 (fun _ => false) hadm
  exact ⟨hrun.1 demoSend _ rfl, by decide +kernel, hrun.2.1⟩

end L2Sim

end TradingEngine.OE
