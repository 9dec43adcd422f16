/-
What a replay restores when sends overlapped.

A `send` takes its local id under `m_mutex` at the start and appends its
record at the end, under other locks. So records can reach the log out of
the order of their ids, and `on_log_order_sent` ignores a record whose id
is not beyond those it has seen: the order is lost.

# The condition

The replay has every sent order if and only if each `ORDER_SENT` record is
appended in turn: no thread with a later id has finished. What the replay
has is right in any case, and it counts as open just what it has
(`Restored`). A lost order is lost for good, so the replay is complete
exactly if every turn kept it so (`Lib.run_iff_admits`).
-/
import TradingEngine.OE.SendThreads
import TradingEngine.OE.Proofs.Reader
import TradingEngine.OE.Proofs.Replay
import TradingEngine.OE.Proofs.Exposure

namespace TradingEngine.OE

variable {ω ι : Type}

namespace SendThreads

-- =========================================================== the live side

/-- The stages past `on_order_adds`, where the order has its session. -/
def hasSession : SendStage → Bool
  | .sessionSend | .markSent => true
  | _ => false

/-- What holds of an order while its thread is at a stage; `n` is the last
local id taken. -/
structure ThreadInv (market : MIC) (call : SendCall) (stage : SendStage)
    (n : Nat) (o : Order ι) : Prop where
  market : o.market = market
  price : o.price = o.originalPrice
  untouched : o.filledSize = 0 ∧ o.openSize = 0 ∧ o.cancelledSize = 0
    ∧ o.totalValuePaid = 0
  numbered : stage ≠ .idle → 0 < o.localID ∧ o.localID ≤ n
  session : hasSession stage = true → o.session = some call.session
  state : stage = .done true → o.state = .sent

structure SendInv (c : OrderManagerConf ω ι) (calls : ω → SendCall)
    (t : SendThreads ω ι) : Prop where
  thread : ∀ w, ThreadInv (c.params w).market (calls w) (t.stage w)
    t.om.localID (t.om.order w)
  distinct : ∀ v w, t.stage v ≠ .idle → t.stage w ≠ .idle →
    (t.om.order v).localID = (t.om.order w).localID → v = w
  /-- The last id is some thread's. -/
  last : t.om.localID = 0 ∨ ∃ w, t.stage w ≠ .idle
    ∧ (t.om.order w).localID = t.om.localID
  sent : ∀ w, w ∈ t.sent ↔ t.stage w = .done true
  sessions : t.om.sessions = (OrderManager.start c).sessions

theorem ThreadInv.mono {market : MIC} {call : SendCall} {stage : SendStage}
    {n n' : Nat} {o : Order ι} (h : ThreadInv market call stage n o)
    (hle : n ≤ n') : ThreadInv market call stage n' o := by
  refine ⟨h.market, h.price, h.untouched, fun hs => ?_, h.session, h.state⟩
  obtain ⟨hpos, hlid⟩ := h.numbered hs
  exact ⟨hpos, by omega⟩

theorem sendInv_start (c : OrderManagerConf ω ι) (calls : ω → SendCall) :
    SendInv c calls (start c) := by
  obtain ⟨sessions, records, hstart, -⟩ := OrderManager.start_frame c
  refine ⟨fun w => ?_, fun v w hv => absurd rfl hv, .inl ?_, fun w => ?_,
    rfl⟩
  · show ThreadInv _ (calls w) .idle _ ((OrderManager.start c).order w)
    rw [hstart]
    exact ⟨rfl, rfl, ⟨rfl, rfl, rfl, rfl⟩, fun hn => absurd rfl hn,
      (fun hn => by cases hn), fun hn => by cases hn⟩
  · show (OrderManager.start c).localID = 0
    rw [hstart]
    rfl
  · refine iff_of_false (Finset.notMem_empty w) fun hn => ?_
    cases hn

variable [DecidableEq ω]

/-- A thread that has its id already leaves a section. -/
theorem SendInv.next {c : OrderManagerConf ω ι} {calls : ω → SendCall}
    {t t' : SendThreads ω ι} (h : SendInv c calls t) {w : ω}
    {s : SendStage} {o : Order ι} (hstage : t.stage w ≠ .idle)
    (hstage' : t'.stage = Function.update t.stage w s) (hidle : s ≠ .idle)
    (horder : t'.om.order = Function.update t.om.order w o)
    (hlid : o.localID = (t.om.order w).localID)
    (hid : t'.om.localID = t.om.localID)
    (hsessions : t'.om.sessions = t.om.sessions)
    (hsent : ∀ v, v ∈ t'.sent ↔ t'.stage v = .done true)
    (hthread : ThreadInv (c.params w).market (calls w) s t.om.localID o) :
    SendInv c calls t' := by
  have hids : ∀ v, (t'.om.order v).localID = (t.om.order v).localID := by
    intro v
    rw [horder]
    by_cases hv : v = w
    · subst hv
      rw [Function.update_self, hlid]
    · rw [Function.update_of_ne hv]
  have hbusy : ∀ v, t'.stage v ≠ .idle ↔ t.stage v ≠ .idle := by
    intro v
    rw [hstage']
    by_cases hv : v = w
    · subst hv
      rw [Function.update_self]
      exact iff_of_true hidle hstage
    · rw [Function.update_of_ne hv]
  refine ⟨fun v => ?_, fun v u hv hu he => ?_, ?_, hsent,
    hsessions.trans h.sessions⟩
  · rw [hid, hstage', horder]
    by_cases hv : v = w
    · subst hv
      rw [Function.update_self, Function.update_self]
      exact hthread
    · rw [Function.update_of_ne hv, Function.update_of_ne hv]
      exact h.thread v
  · rw [hids, hids] at he
    exact h.distinct v u ((hbusy v).mp hv) ((hbusy u).mp hu) he
  · rw [hid]
    rcases h.last with hzero | ⟨v, hv, he⟩
    · exact .inl hzero
    · exact .inr ⟨v, (hbusy v).mpr hv, (hids v).trans he⟩

/-- A thread takes its id, which is new. -/
theorem SendInv.take {c : OrderManagerConf ω ι} {calls : ω → SendCall}
    {t : SendThreads ω ι} (h : SendInv c calls t) {w : ω}
    (hstage : t.stage w = .idle) :
    SendInv c calls (t.goto w .validate (t.om.takeLocalID w)) := by
  have hself : (t.om.takeLocalID w).order w
      = { t.om.order w with localID := t.om.localID + 1 } :=
    Function.update_self ..
  have hother : ∀ v, v ≠ w →
      (t.om.takeLocalID w).order v = t.om.order v
      ∧ (t.goto w .validate (t.om.takeLocalID w)).stage v = t.stage v :=
    fun v hv => ⟨Function.update_of_ne hv .., Function.update_of_ne hv ..⟩
  have hstage' : (t.goto w .validate (t.om.takeLocalID w)).stage w
      = .validate := Function.update_self ..
  have hnew : ∀ v, v ≠ w → t.stage v ≠ .idle →
      (t.om.order v).localID ≠ t.om.localID + 1 := by
    intro v _ hs he
    have := ((h.thread v).numbered hs).2
    omega
  refine ⟨fun v => ?_, fun v u hv hu he => ?_, ?_, fun v => ?_,
    h.sessions⟩
  · show ThreadInv _ _ _ (t.om.localID + 1) ((t.om.takeLocalID w).order v)
    by_cases hv : v = w
    · subst hv
      obtain ⟨hmarket, hprice, hraw, -, -, -⟩ := h.thread v
      rw [hstage', hself]
      exact ⟨hmarket, hprice, hraw, fun _ => ⟨Nat.succ_pos _, le_refl _⟩,
        (fun hn => by cases hn), fun hn => by cases hn⟩
    · obtain ⟨ho, hs⟩ := hother v hv
      rw [ho, hs]
      exact (h.thread v).mono (Nat.le_succ _)
  · have he : ((t.om.takeLocalID w).order v).localID
        = ((t.om.takeLocalID w).order u).localID := he
    by_cases hv' : v = w <;> by_cases hu' : u = w
    · exact hv'.trans hu'.symm
    · rw [(hother u hu').2] at hu
      rw [hv', hself, (hother u hu').1] at he
      exact absurd he.symm (hnew u hu' hu)
    · rw [(hother v hv').2] at hv
      rw [hu', hself, (hother v hv').1] at he
      exact absurd he (hnew v hv' hv)
    · rw [(hother v hv').2] at hv
      rw [(hother u hu').2] at hu
      rw [(hother v hv').1, (hother u hu').1] at he
      exact h.distinct v u hv hu he
  · refine .inr ⟨w, ?_, ?_⟩
    · rw [hstage']
      simp
    · show ((t.om.takeLocalID w).order w).localID = t.om.localID + 1
      rw [hself]
  · show v ∈ t.sent ↔ _
    rw [h.sent]
    by_cases hv : v = w
    · subst hv
      rw [hstage, hstage']
      simp
    · rw [(hother v hv).2]

variable [DecidableEq ι]

-- ========================================================= what a turn does

omit [DecidableEq ι] in
/-- What a turn past the first leaves on its order, and where the thread
goes. -/
structure Leaves (calls : ω → SendCall) (t t' : SendThreads ω ι) (w : ω)
    (s : SendStage) (o : Order ι) : Prop where
  stage : t'.stage = Function.update t.stage w s
  busy : s ≠ .idle
  order : t'.om.order = Function.update t.om.order w o
  localID : t'.om.localID = t.om.localID
  sessions : t'.om.sessions = t.om.sessions
  id_kept : o.localID = (t.om.order w).localID
  market_kept : o.market = (t.om.order w).market
  price_kept : o.price = (t.om.order w).price
    ∧ o.originalPrice = (t.om.order w).originalPrice
  counts_kept : o.filledSize = (t.om.order w).filledSize
    ∧ o.openSize = (t.om.order w).openSize
    ∧ o.cancelledSize = (t.om.order w).cancelledSize
    ∧ o.totalValuePaid = (t.om.order w).totalValuePaid
  session : hasSession s = true → o.session = some (calls w).session
    ∨ (hasSession (t.stage w) = true ∧ o.session = (t.om.order w).session)

omit [DecidableEq ι] in
theorem Leaves.other {calls : ω → SendCall} {t t' : SendThreads ω ι}
    {w : ω} {s : SendStage} {o : Order ι} (h : Leaves calls t t' w s o)
    {v : ω} (hv : v ≠ w) :
    t'.stage v = t.stage v ∧ t'.om.order v = t.om.order v := by
  rw [h.stage, h.order]
  exact ⟨Function.update_of_ne hv .., Function.update_of_ne hv ..⟩

omit [DecidableEq ι] in
theorem Leaves.self {calls : ω → SendCall} {t t' : SendThreads ω ι}
    {w : ω} {s : SendStage} {o : Order ι} (h : Leaves calls t t' w s o) :
    t'.stage w = s ∧ t'.om.order w = o := by
  rw [h.stage, h.order]
  exact ⟨Function.update_self .., Function.update_self ..⟩

/-- What the turn writes to the log: nothing, or the record the thread
returns with. -/
inductive Records (t t' : SendThreads ω ι) (w : ω) (s : SendStage)
    (o : Order ι) : Prop
  | none (hs : ∀ r, s ≠ .done r) (hlog : t'.om.orderlog = t.om.orderlog)
      (hsent : t'.sent = t.sent)
  | sent (hstage : t.stage w = .markSent) (hs : s = .done true)
      (ho : o = { t.om.order w with state := .sent })
      (hlog : t'.om.orderlog = t.om.orderlog ++ [logOrderSent o])
      (hsent : t'.sent = insert w t.sent)
  | refused (hstage : t.stage w = .localReject) (hs : s = .done false)
      (hlog : t'.om.orderlog = t.om.orderlog ++ [logLocalReject o])
      (hsent : t'.sent = t.sent)

/-- Every turn of a thread between its first and its last. -/
theorem advance_leaves (calls : ω → SendCall) (t : SendThreads ω ι)
    {w : ω} (hidle : t.stage w ≠ .idle) (hdone : ∀ r, t.stage w ≠ .done r) :
    ∃ s o, Leaves calls t (t.advance calls w) w s o
      ∧ Records t (t.advance calls w) w s o := by
  have hself : t.om.order = Function.update t.om.order w (t.om.order w) :=
    (Function.update_eq_self ..).symm
  unfold advance
  cases hs : t.stage w with
  | idle => exact absurd hs hidle
  | done r => exact absurd hs (hdone r)
  | validate =>
      refine ⟨_, t.om.order w, ⟨rfl, ?_, hself, rfl, rfl, rfl, rfl,
        ⟨rfl, rfl⟩, ⟨rfl, rfl, rfl, rfl⟩, ?_⟩, .none ?_ rfl rfl⟩ <;>
      · split <;> simp [hasSession]
  | riskCheck =>
      refine ⟨_, t.om.order w, ⟨rfl, ?_, hself, rfl, rfl, rfl, rfl,
        ⟨rfl, rfl⟩, ⟨rfl, rfl, rfl, rfl⟩, ?_⟩, .none ?_ rfl rfl⟩ <;>
      · split <;> simp [hasSession]
  | instrumentCheck =>
      obtain ⟨side, -, horder, -⟩ := t.om.instrumentCheck_spec w
      refine ⟨_, _, ⟨rfl, ?_, horder, rfl, rfl, rfl, rfl,
        ⟨rfl, rfl⟩, ⟨rfl, rfl, rfl, rfl⟩, ?_⟩, .none ?_ rfl rfl⟩ <;>
      · split <;> simp [hasSession]
  | addOpen =>
      exact ⟨_, _, ⟨rfl, by simp, rfl, rfl, rfl, rfl, rfl,
        ⟨rfl, rfl⟩, ⟨rfl, rfl, rfl, rfl⟩, fun _ => .inl rfl⟩,
        .none (by simp) rfl rfl⟩
  | sessionSend =>
      refine ⟨_, _, ⟨rfl, ?_, rfl, rfl, rfl, rfl, rfl,
        ⟨rfl, rfl⟩, ⟨rfl, rfl, rfl, rfl⟩,
        fun _ => .inr ⟨by rw [hs]; rfl, rfl⟩⟩,
        .none ?_ rfl rfl⟩ <;>
      · split <;> simp
  | markSent =>
      exact ⟨_, _, ⟨rfl, by simp, rfl, rfl, rfl, rfl, rfl,
        ⟨rfl, rfl⟩, ⟨rfl, rfl, rfl, rfl⟩, fun hn => by cases hn⟩,
        .sent hs rfl rfl rfl rfl⟩
  | removeOpen =>
      exact ⟨_, t.om.order w, ⟨rfl, by simp, hself, rfl, rfl, rfl, rfl,
        ⟨rfl, rfl⟩, ⟨rfl, rfl, rfl, rfl⟩, fun hn => by cases hn⟩,
        .none (by simp) rfl rfl⟩
  | localReject =>
      exact ⟨_, _, ⟨rfl, by simp, rfl, rfl, rfl, rfl, rfl,
        ⟨rfl, rfl⟩, ⟨rfl, rfl, rfl, rfl⟩, fun hn => by cases hn⟩,
        .refused hs rfl rfl rfl⟩

theorem sendInv_advance {c : OrderManagerConf ω ι} {calls : ω → SendCall}
    {t : SendThreads ω ι} (h : SendInv c calls t) (w : ω) :
    SendInv c calls (t.advance calls w) := by
  by_cases hidle : t.stage w = .idle
  · have htake : t.advance calls w
        = t.goto w .validate (t.om.takeLocalID w) := by
      unfold advance
      rw [hidle]
    rw [htake]
    exact h.take hidle
  by_cases hdone : ∃ r, t.stage w = .done r
  · obtain ⟨r, hr⟩ := hdone
    have hstay : t.advance calls w = t := by
      unfold advance
      rw [hr]
    rw [hstay]
    exact h
  obtain ⟨s, o, hleaves, hrecords⟩ :=
    t.advance_leaves calls hidle fun r hr => hdone ⟨r, hr⟩
  obtain ⟨hmarket, hprice, ⟨hf, ho, hc, hv⟩, hnum, hses, -⟩ := h.thread w
  obtain ⟨hp, hop⟩ := hleaves.price_kept
  obtain ⟨hkf, hko, hkc, hkv⟩ := hleaves.counts_kept
  refine h.next hidle hleaves.stage hleaves.busy hleaves.order
    hleaves.id_kept hleaves.localID hleaves.sessions (fun v => ?_)
    ⟨hleaves.market_kept.trans hmarket, ?_,
      ⟨hkf.trans hf, hko.trans ho, hkc.trans hc, hkv.trans hv⟩,
      fun _ => ?_, fun hs => ?_, fun hs => ?_⟩
  · rw [hleaves.stage]
    have hold : v ≠ w → (v ∈ t.sent ↔ Function.update t.stage w s v
        = .done true) := by
      intro hne
      rw [Function.update_of_ne hne]
      exact h.sent v
    have hnot : w ∉ t.sent := fun hw => hdone ⟨_, (h.sent w).mp hw⟩
    by_cases hne : v = w
    · subst hne
      rw [Function.update_self]
      cases hrecords with
      | none hs _ hsent =>
          rw [hsent]
          exact iff_of_false hnot (hs true)
      | sent _ hs _ _ hsent =>
          rw [hsent]
          exact iff_of_true (Finset.mem_insert_self ..) hs
      | refused _ hs _ hsent =>
          rw [hsent, hs]
          exact iff_of_false hnot (by simp)
    · cases hrecords with
      | none _ _ hsent =>
          rw [hsent]
          exact hold hne
      | sent _ _ _ _ hsent =>
          rw [hsent, Finset.mem_insert, or_iff_right hne]
          exact hold hne
      | refused _ _ _ hsent =>
          rw [hsent]
          exact hold hne
  · rw [hp, hop]
    exact hprice
  · rw [hleaves.id_kept]
    exact hnum hidle
  · rcases hleaves.session hs with hnew | ⟨hhas, hkept⟩
    · exact hnew
    · rw [hkept]
      exact hses hhas
  · cases hrecords with
    | none hn => exact absurd hs (hn true)
    | sent _ _ ho => rw [ho]
    | refused _ hs' =>
        rw [hs] at hs'
        cases hs'

-- ========================================================= the replay side

/-- What the replay knows of the threads that have finished. -/
structure Restored [Fintype ι] (t : SendThreads ω ι)
    (r : OrderManager ℕ ι) : Prop where
  aligned : r.Aligned
  sessions : r.sessions = t.om.sessions
  /-- The last id of the replay is the greatest of a finished thread. -/
  reached : ∀ w b, t.stage w = .done b → (t.om.order w).localID ≤ r.localID
  last : r.localID = 0 ∨ ∃ w b, t.stage w = .done b
    ∧ (t.om.order w).localID = r.localID
  /-- An entry is a sent order. -/
  entry : ∀ l p, r.orderAt l = some p → p = l
    ∧ ∃ w ∈ t.sent, (t.om.order w).localID = l
      ∧ (r.order l).view = (t.om.order w).view
  /-- What is there counts as open, and nothing else does. -/
  accounted : Accounted r.book
    (t.sent.filter fun w => (r.orderAt (t.om.order w).localID).isSome)
    t.om.order

/-- The replay has every sent order. -/
def Complete (t : SendThreads ω ι) (r : OrderManager ℕ ι) : Prop :=
  ∀ w ∈ t.sent,
    r.orderAt (t.om.order w).localID = some (t.om.order w).localID

/-- The record is appended in turn: no thread with a later id has
finished. -/
def InTurn (t : SendThreads ω ι) (w : ω) : Prop :=
  t.stage w = .markSent →
    ∀ v b, t.stage v = .done b →
      (t.om.order v).localID < (t.om.order w).localID

instance [Fintype ω] (t : SendThreads ω ι) (w : ω) :
    Decidable (t.InTurn w) := by
  unfold InTurn
  infer_instance

section Replay

variable [Fintype ι] {c : OrderManagerConf ω ι} {calls : ω → SendCall}
  {t t' : SendThreads ω ι} {r r' : OrderManager ℕ ι}

omit [DecidableEq ω] in
/-- A turn that ends no thread. -/
theorem Restored.quiet (h : Restored t r) (hinv : SendInv c calls t)
    (hsessions : t'.om.sessions = t.om.sessions)
    (hdone : ∀ v b, t'.stage v = .done b ↔ t.stage v = .done b)
    (horder : ∀ v b, t.stage v = .done b → t'.om.order v = t.om.order v)
    (hsent : t'.sent = t.sent) :
    Restored t' r ∧ (Complete t' r ↔ Complete t r) := by
  have hsame : ∀ v ∈ t.sent, t'.om.order v = t.om.order v := fun v hv =>
    horder v true ((hinv.sent v).mp hv)
  refine ⟨⟨h.aligned, h.sessions.trans hsessions.symm, fun v b hv => ?_, ?_,
    fun l p hp => ?_, ?_⟩, ?_⟩
  · rw [hdone] at hv
    rw [horder v b hv]
    exact h.reached v b hv
  · rcases h.last with hzero | ⟨v, b, hv, he⟩
    · exact .inl hzero
    · refine .inr ⟨v, b, (hdone v b).mpr hv, ?_⟩
      rw [horder v b hv]
      exact he
  · obtain ⟨hpl, v, hv, he, hview⟩ := h.entry l p hp
    refine ⟨hpl, v, by rw [hsent]; exact hv, ?_⟩
    rw [hsame v hv]
    exact ⟨he, hview⟩
  · have hfilter : (t'.sent.filter fun w =>
        (r.orderAt (t'.om.order w).localID).isSome)
        = t.sent.filter fun w =>
          (r.orderAt (t.om.order w).localID).isSome := by
      rw [hsent]
      exact Finset.filter_congr fun v hv => by rw [hsame v hv]
    rw [hfilter]
    refine h.accounted.still fun v hv i => ?_
    rw [hsame v (Finset.mem_filter.mp hv).1]
  · unfold Complete
    rw [hsent]
    exact forall₂_congr fun v hv => by rw [hsame v hv]

/-- A thread that was refused: its id, and nothing else. -/
theorem Restored.refused (h : Restored t r) (hinv : SendInv c calls t)
    {w : ω} {o : Order ι} (hl : Leaves calls t t' w (.done false) o)
    (hbusy : ∀ b, t.stage w ≠ .done b) (hsent : t'.sent = t.sent)
    (hext : r.Extended o.localID r') :
    Restored t' r' ∧ (Complete t' r' ↔ Complete t r) := by
  obtain ⟨hstage, hself⟩ := hl.self
  have hother : ∀ v, v ≠ w → t'.om.order v = t.om.order v := fun v hv =>
    (hl.other hv).2
  have hmax := hext.localID
  have hne : ∀ v ∈ t.sent, v ≠ w := by
    rintro v hv rfl
    exact hbusy true ((hinv.sent v).mp hv)
  refine ⟨⟨hext.aligned, ?_, fun v b hv => ?_, ?_, fun l p hp => ?_, ?_⟩,
    ?_⟩
  · rw [hext.sessions, hl.sessions]
    exact h.sessions
  · by_cases hv' : v = w
    · rw [hv', hself]
      omega
    · rw [(hl.other hv').1] at hv
      have := h.reached v b hv
      rw [hother v hv']
      omega
  · by_cases hle : o.localID ≤ r.localID
    · rcases h.last with hzero | ⟨v, b, hv, he⟩
      · exact .inl (by omega)
      · have hv' : v ≠ w := fun heq => hbusy b (heq ▸ hv)
        refine .inr ⟨v, b, (hl.other hv').1.trans hv, ?_⟩
        rw [hother v hv']
        omega
    · exact .inr ⟨w, false, hstage, by rw [hself]; omega⟩
  · rw [hext.orderAt] at hp
    obtain ⟨hpl, v, hv, he, hview⟩ := h.entry l p hp
    refine ⟨hpl, v, by rw [hsent]; exact hv, ?_⟩
    rw [hother v (hne v hv), hext.order]
    exact ⟨he, hview⟩
  · have hfilter : (t'.sent.filter fun w =>
        (r'.orderAt (t'.om.order w).localID).isSome)
        = t.sent.filter fun w =>
          (r.orderAt (t.om.order w).localID).isSome := by
      rw [hsent]
      exact Finset.filter_congr fun v hv => by
        rw [hother v (hne v hv), hext.orderAt]
    have hbook : r'.book = r.book := congrArg Desk.book hext.desk
    rw [hfilter, hbook]
    refine h.accounted.still fun v hv i => ?_
    rw [hother v (hne v (Finset.mem_filter.mp hv).1)]
  · unfold Complete
    rw [hsent]
    exact forall₂_congr fun v hv => by
      rw [hother v (hne v hv), hext.orderAt]

omit [DecidableEq ω] in
/-- An order that has not been logged has no entry. -/
theorem Restored.no_entry (h : Restored t r)
    (hinv : SendInv c calls t) {w : ω} (hbusy : t.stage w ≠ .idle)
    (hw : w ∉ t.sent) : r.orderAt (t.om.order w).localID = none := by
  cases hat : r.orderAt (t.om.order w).localID with
  | none => rfl
  | some p =>
      obtain ⟨-, v, hv, he, -⟩ := h.entry _ p hat
      have hv' : t.stage v ≠ .idle := by
        rw [(hinv.sent v).mp hv]
        simp
      exact absurd (hinv.distinct v w hv' hbusy he ▸ hv) hw

/-- A sent order whose record comes after that of a later id: the replay
stays as it was. -/
theorem Restored.lost (h : Restored t r) (hinv : SendInv c calls t) {w : ω}
    {o : Order ι} (hl : Leaves calls t t' w (.done true) o)
    (hstage : t.stage w = .markSent) (hsent : t'.sent = insert w t.sent)
    (hstale : o.localID ≤ r.localID) :
    Restored t' r ∧ ¬Complete t' r := by
  obtain ⟨hstage', hself⟩ := hl.self
  have hw : w ∉ t.sent := fun hw => by
    rw [(hinv.sent w).mp hw] at hstage
    cases hstage
  have hne : ∀ v ∈ t.sent, v ≠ w := fun v hv he => hw (he ▸ hv)
  have hnone : r.orderAt (t'.om.order w).localID = none := by
    rw [hself, hl.id_kept]
    exact h.no_entry hinv (by rw [hstage]; simp) hw
  refine ⟨⟨h.aligned, h.sessions.trans hl.sessions.symm, fun v b hv => ?_,
    ?_, fun l p hp => ?_, ?_⟩, fun hall => ?_⟩
  · by_cases hv' : v = w
    · rw [hv', hself]
      exact hstale
    · rw [(hl.other hv').1] at hv
      rw [(hl.other hv').2]
      exact h.reached v b hv
  · rcases h.last with hzero | ⟨v, b, hv, he⟩
    · exact .inl hzero
    · have hv' : v ≠ w := by
        rintro rfl
        rw [hstage] at hv
        cases hv
      refine .inr ⟨v, b, (hl.other hv').1.trans hv, ?_⟩
      rw [(hl.other hv').2]
      exact he
  · obtain ⟨hpl, v, hv, he, hview⟩ := h.entry l p hp
    refine ⟨hpl, v, by rw [hsent]; exact Finset.mem_insert_of_mem hv, ?_⟩
    rw [(hl.other (hne v hv)).2]
    exact ⟨he, hview⟩
  · have hfilter : (t'.sent.filter fun w =>
        (r.orderAt (t'.om.order w).localID).isSome)
        = t.sent.filter fun w =>
          (r.orderAt (t.om.order w).localID).isSome := by
      rw [hsent, Finset.filter_insert, hnone]
      exact Finset.filter_congr fun v hv => by
        rw [(hl.other (hne v hv)).2]
    rw [hfilter]
    refine h.accounted.still fun v hv i => ?_
    rw [(hl.other (hne v (Finset.mem_filter.mp hv).1)).2]
  · have hentry := hall w (by rw [hsent]; exact Finset.mem_insert_self ..)
    rw [hnone] at hentry
    cases hentry

/-- A sent order whose record comes in turn joins the replay. -/
theorem Restored.adopted (h : Restored t r) (hinv : SendInv c calls t)
    {w : ω} {o o' : Order ι} (hl : Leaves calls t t' w (.done true) o)
    (hstage : t.stage w = .markSent) (hsent : t'.sent = insert w t.sent)
    (hnew : r.localID < o.localID)
    (hadopt : r.Adopted o.localID o' r')
    (hview : ({ o' with
      localID := o.localID
      state := .sent } : Order ι).view = o.view)
    (huncounted : o.filledSize = 0 ∧ o.cancelledSize = 0) :
    Restored t' r' ∧ (Complete t' r' ↔ Complete t r) := by
  obtain ⟨hstage', hself⟩ := hl.self
  have hw : w ∉ t.sent := fun hw => by
    rw [(hinv.sent w).mp hw] at hstage
    cases hstage
  have hne : ∀ v ∈ t.sent, v ≠ w := fun v hv he => hw (he ▸ hv)
  have hids : ∀ v ∈ t.sent, (t.om.order v).localID ≠ o.localID := by
    intro v hv he
    have := h.reached v true ((hinv.sent v).mp hv)
    omega
  have hsame : ∀ v ∈ t.sent, r'.orderAt (t'.om.order v).localID
      = r.orderAt (t.om.order v).localID := by
    intro v hv
    rw [(hl.other (hne v hv)).2, hadopt.orderAt, if_neg (hids v hv)]
  have hentry : r'.orderAt (t'.om.order w).localID = some o.localID := by
    rw [hself, hadopt.orderAt, if_pos rfl]
  refine ⟨⟨hadopt.aligned, ?_, fun v b hv => ?_, ?_, fun l p hp => ?_, ?_⟩,
    ?_⟩
  · rw [hadopt.sessions, hl.sessions]
    exact h.sessions
  · rw [hadopt.localID]
    by_cases hv' : v = w
    · rw [hv', hself]
    · rw [(hl.other hv').1] at hv
      have := h.reached v b hv
      rw [(hl.other hv').2]
      omega
  · exact .inr ⟨w, true, hstage', by rw [hself, hadopt.localID]⟩
  · rw [hadopt.orderAt] at hp
    by_cases hlid : l = o.localID
    · rw [if_pos hlid] at hp
      refine ⟨(Option.some.inj hp).symm.trans hlid.symm, w, ?_, ?_⟩
      · rw [hsent]
        exact Finset.mem_insert_self ..
      · rw [hself, hlid, hadopt.order, Function.update_self]
        exact ⟨rfl, hview⟩
    · rw [if_neg hlid] at hp
      obtain ⟨hpl, v, hv, he, hv'⟩ := h.entry l p hp
      refine ⟨hpl, v, by rw [hsent]; exact Finset.mem_insert_of_mem hv, ?_⟩
      rw [(hl.other (hne v hv)).2, hadopt.order, Function.update_of_ne hlid]
      exact ⟨he, hv'⟩
  · have hfilter : (t'.sent.filter fun w =>
        (r'.orderAt (t'.om.order w).localID).isSome)
        = insert w (t.sent.filter fun w =>
          (r.orderAt (t.om.order w).localID).isSome) := by
      rw [hsent, Finset.filter_insert, hentry]
      refine congrArg (insert w) ?_
      exact Finset.filter_congr fun v hv => by rw [hsame v hv]
    have hjoin := h.accounted.join t'.om.order (w := w)
      (fun hmem => hw (Finset.mem_filter.mp hmem).1) fun v hv =>
      (hl.other (hne v (Finset.mem_filter.mp hv).1)).2
    have hout : (t'.om.order w).outstanding = o.size := by
      unfold Order.outstanding
      rw [hself, huncounted.1, huncounted.2]
      omega
    have hbook : r'.book = r.book.moveOpen (t'.om.order w).instrument
        (t'.om.order w).side (t'.om.order w).price
        (t'.om.order w).outstanding := by
      rw [hadopt.book, hout, hself]
      exact congrArg (fun v : OrderView ι =>
        r.book.moveOpen v.instrument v.side v.price v.size) hview
    rw [hfilter, hbook]
    exact hjoin
  · unfold Complete
    rw [hsent, Finset.forall_mem_insert]
    rw [and_iff_right (by rw [hentry, hself])]
    exact forall₂_congr fun v hv => by
      rw [hsame v hv, (hl.other (hne v hv)).2]

omit [DecidableEq ω] in
/-- A new id goes beyond the replay exactly when it comes in turn. -/
theorem Restored.inTurn_iff (h : Restored t r) (hinv : SendInv c calls t)
    {w : ω} (hstage : t.stage w = .markSent) :
    t.InTurn w ↔ r.localID < (t.om.order w).localID := by
  constructor
  · intro hturn
    rcases h.last with hzero | ⟨v, b, hv, he⟩
    · have := (hinv.thread w).numbered (by rw [hstage]; simp)
      omega
    · have := hturn hstage v b hv
      omega
  · intro hnew _ v b hv
    have := h.reached v b hv
    omega

/-- The first turn takes an id, and logs nothing. -/
theorem Restored.started (h : Restored t r) (hinv : SendInv c calls t)
    {w : ω} (hidle : t.stage w = .idle) :
    (t.advance calls w).om.orderlog = t.om.orderlog
      ∧ Restored (t.advance calls w) r
      ∧ (Complete (t.advance calls w) r ↔ Complete t r) := by
  have htake : t.advance calls w
      = t.goto w .validate (t.om.takeLocalID w) := by
    unfold advance
    rw [hidle]
  rw [htake]
  refine ⟨rfl, h.quiet hinv rfl (fun v b => ?_) (fun v b hv => ?_) rfl⟩
  · show Function.update t.stage w _ v = _ ↔ _
    by_cases hv : v = w
    · subst hv
      rw [Function.update_self, hidle]
      simp
    · rw [Function.update_of_ne hv]
  · refine Function.update_of_ne ?_ ..
    rintro rfl
    rw [hidle] at hv
    cases hv

/-- The turn that logs a sent order: the replay takes its record on exactly
if it comes in turn. -/
theorem Restored.sent {create : CreateReplayOrder ι}
    (hcreate : create.Faithful (OrderManager.start c).sessions) {w : ω}
    (hreg : ((calls w).session, (c.params w).market)
      ∈ (OrderManager.start c).sessions)
    (hname : NameOk (calls w).session) (hinv : SendInv c calls t)
    (h : Restored t r) {o : Order ι}
    (hl : Leaves calls t t' w (.done true) o)
    (hstage : t.stage w = .markSent)
    (ho : o = { t.om.order w with state := .sent })
    (hsent : t'.sent = insert w t.sent) :
    Restored t' (r.replay create [logOrderSent o])
      ∧ (Complete t' (r.replay create [logOrderSent o])
        ↔ Complete t r ∧ t.InTurn w) := by
  obtain ⟨hmarket, hprice, ⟨hf, hop, hc, hv⟩, -, hses, -⟩ := hinv.thread w
  have hlid : o.localID = (t.om.order w).localID := hl.id_kept
  have hturn := h.inTurn_iff hinv hstage
  rw [← hlid] at hturn
  by_cases hnew : r.localID < o.localID
  · have hsess : r.sessions = (OrderManager.start c).sessions :=
      h.sessions.trans hinv.sessions
    have hsession : o.session = some (calls w).session := by
      rw [ho]
      exact hses (by rw [hstage]; rfl)
    rw [← hsess] at hreg hcreate
    have hmarketReg : ((calls w).session, o.market) ∈ r.sessions := by
      rw [ho]
      exact hmarket ▸ hreg
    have huntouched : o.filledSize = 0 ∧ o.openSize = 0
        ∧ o.cancelledSize = 0 ∧ o.totalValuePaid = 0 := by
      rw [ho]
      exact ⟨hf, hop, hc, hv⟩
    obtain ⟨o', hadopt, hview⟩ :=
      OrderManager.decode_logOrderSent h.aligned hnew hsession hname
        hmarketReg hcreate (by rw [ho]; exact hprice) huntouched
        (by rw [ho])
    obtain ⟨hR, hC⟩ := h.adopted hinv hl hstage hsent hnew hadopt hview
      ⟨huntouched.1, huntouched.2.2.1⟩
    exact ⟨hR, by rw [and_iff_left (hturn.mpr hnew)]; exact hC⟩
  · obtain ⟨hR, hC⟩ := h.lost hinv hl hstage hsent (by omega)
    have hstale : r.replay create [logOrderSent o] = r :=
      OrderManager.onLogOrderSent_stale create o.sentTime
        (b := newOrderBody o) (by
          show o.localID ≤ r.localID
          omega)
    rw [hstale]
    exact ⟨hR, iff_of_false hC fun hn => hnew (hturn.mp hn.2)⟩

/-- One turn: the records it writes keep the replay right, and complete
exactly if the turn is in turn. -/
theorem restored_advance {create : CreateReplayOrder ι}
    (hcreate : create.Faithful (OrderManager.start c).sessions)
    (hcalls : ∀ w, ((calls w).session, (c.params w).market)
        ∈ (OrderManager.start c).sessions
      ∧ NameOk (calls w).session)
    (hinv : SendInv c calls t) (h : Restored t r) (w : ω) :
    ∃ recs, (t.advance calls w).om.orderlog = t.om.orderlog ++ recs
      ∧ Restored (t.advance calls w) (r.replay create recs)
      ∧ (Complete (t.advance calls w) (r.replay create recs)
          ↔ Complete t r ∧ t.InTurn w) := by
  -- a turn that is no `markSent` is always in turn
  have hother : t.stage w ≠ .markSent → t.InTurn w := fun hne hs =>
    absurd hs hne
  by_cases hidle : t.stage w = .idle
  · obtain ⟨hlog, hR, hC⟩ := h.started hinv hidle
    refine ⟨[], by rw [hlog, List.append_nil], hR, ?_⟩
    rw [and_iff_left (hother (by rw [hidle]; simp))]
    exact hC
  by_cases hdone : ∃ b, t.stage w = .done b
  · obtain ⟨b, hb⟩ := hdone
    have hstay : t.advance calls w = t := by
      unfold advance
      rw [hb]
    rw [hstay]
    exact ⟨[], (List.append_nil _).symm, h,
      (and_iff_left (hother (by rw [hb]; simp))).symm⟩
  have hbusy : ∀ b, t.stage w ≠ .done b := fun b hb => hdone ⟨b, hb⟩
  obtain ⟨s, o, hl, hrec⟩ := t.advance_leaves calls hidle hbusy
  cases hrec with
  | none hs hlog hsent =>
      have hne : t.stage w ≠ .markSent := by
        intro hmark
        refine hs true ?_
        rw [← hl.self.1]
        unfold advance
        rw [hmark]
        exact Function.update_self ..
      have hquiet : Restored (t.advance calls w) r
          ∧ (Complete (t.advance calls w) r ↔ Complete t r) := by
        refine h.quiet hinv hl.sessions (fun v b => ?_) (fun v b hv => ?_)
          hsent
        · by_cases hv : v = w
          · subst hv
            rw [hl.self.1]
            exact iff_of_false (hs b) (hbusy b)
          · rw [(hl.other hv).1]
        · refine (hl.other ?_).2
          rintro rfl
          exact hbusy b hv
      refine ⟨[], by rw [hlog, List.append_nil], hquiet.1, ?_⟩
      rw [and_iff_left (hother hne)]
      exact hquiet.2
  | refused hstage hs hlog hsent =>
      subst hs
      have hne : t.stage w ≠ .markSent := by
        rw [hstage]
        simp
      obtain ⟨-, hext⟩ := OrderManager.extendLocalIDHelper_spec h.aligned
        (newOrderBody o).oid
      obtain ⟨hR, hC⟩ := h.refused hinv hl hbusy hsent hext
      refine ⟨[logLocalReject o], hlog, hR, ?_⟩
      rw [and_iff_left (hother hne)]
      exact hC
  | sent hstage hs ho hlog hsent =>
      subst hs
      obtain ⟨hreg, hname⟩ := hcalls w
      exact ⟨[logOrderSent o], hlog,
        h.sent hcreate hreg hname hinv hl hstage ho hsent⟩

end Replay

-- ================================================================= result

variable [Fintype ι]

/-- The replay has each sent order at its local id, counts their sizes as
open and nothing else, and stands at the same local id once every thread
has finished. -/
structure Recovers (t : SendThreads ω ι) (r : OrderManager ℕ ι) : Prop where
  entry : ∀ w ∈ t.sent,
    r.orderAt (t.om.order w).localID = some (t.om.order w).localID
    ∧ (r.order (t.om.order w).localID).view = (t.om.order w).view
  counted : ∀ i, (r.desk.position i).openVec
    = ∑ w ∈ t.sent, (t.om.order w).share i
  firm : r.desk.firmRisk.totals.openPair
    = ∑ i, (r.desk.position i).openVec.2.2
  localID : (∀ w, t.stage w = .idle ∨ ∃ b, t.stage w = .done b) →
    r.localID = t.om.localID

omit [DecidableEq ω] in
theorem restored_start {c : OrderManagerConf ω ι}
    {c' : OrderManagerConf ℕ ι} (hday : c.SameDay c') :
    Restored (start c) (OrderManager.start c') := by
  have hmirror := mirrors_start hday
  have hnone : ∀ l p, (OrderManager.start c').orderAt l = some p →
      False := by
    intro l p hp
    obtain ⟨w, hw, -⟩ := hmirror.only l p hp
    exact Finset.notMem_empty w hw
  refine ⟨hmirror.aligned, hmirror.sessions, (fun w b hw => by cases hw),
    .inl ?_, fun l p hp => (hnone l p hp).elim,
    accounted_start c' (OrderManager.start c).order⟩
  obtain ⟨sessions, records, hstart, -⟩ := OrderManager.start_frame c'
  rw [hstart]
  rfl

omit [DecidableEq ω] in
/-- A complete replay that is right recovers everything. -/
theorem Restored.recovers_iff {c : OrderManagerConf ω ι}
    {calls : ω → SendCall} {t : SendThreads ω ι} {r : OrderManager ℕ ι}
    (h : Restored t r) (hinv : SendInv c calls t) :
    Recovers t r ↔ Complete t r := by
  constructor
  · exact fun hrec w hw => (hrec.entry w hw).1
  · intro hall
    have hfilter : (t.sent.filter fun w =>
        (r.orderAt (t.om.order w).localID).isSome) = t.sent :=
      Finset.filter_true_of_mem fun w hw => by rw [hall w hw]; rfl
    have hacc := h.accounted
    rw [hfilter] at hacc
    refine ⟨fun w hw => ⟨hall w hw, ?_⟩, hacc.position, hacc.firm,
      fun hrest => ?_⟩
    · obtain ⟨-, v, hv, he, hview⟩ := h.entry _ _ (hall w hw)
      have hbusy : ∀ u ∈ t.sent, t.stage u ≠ .idle := by
        intro u hu
        rw [(hinv.sent u).mp hu]
        simp
      have hvw := hinv.distinct v w (hbusy v hv) (hbusy w hw) he
      rw [← hvw] at hview ⊢
      exact hview
    · have hfinished : ∀ w, t.stage w ≠ .idle →
          (t.om.order w).localID ≤ r.localID := by
        intro w hw
        obtain ⟨b, hb⟩ := (hrest w).resolve_left hw
        exact h.reached w b hb
      have hle : r.localID ≤ t.om.localID := by
        rcases h.last with hzero | ⟨w, b, hw, he⟩
        · omega
        · have := (hinv.thread w).numbered (by rw [hw]; simp)
          omega
      rcases hinv.last with hzero | ⟨w, hw, he⟩
      · omega
      · have := hfinished w hw
        omega

/-- Threads in `send`, in any order of turns: replaying the log into a
fresh order manager recovers every sent order if and only if every
`ORDER_SENT` record was appended in turn. -/
theorem sends_recovered_iff (c : OrderManagerConf ω ι)
    (c' : OrderManagerConf ℕ ι) (hday : c.SameDay c')
    (create : CreateReplayOrder ι)
    (hcreate : create.Faithful (OrderManager.start c).sessions)
    (calls : ω → SendCall)
    (hcalls : ∀ w, ((calls w).session, (c.params w).market)
        ∈ (OrderManager.start c).sessions
      ∧ NameOk (calls w).session)
    (ws : List ω) :
    let t := Lib.run (advance calls) (start c) ws
    let r := (OrderManager.start c').replay create t.om.orderlog
    Recovers t r ↔ Lib.Admits (advance calls) InTurn (start c) ws := by
  let replayed : SendThreads ω ι → OrderManager ℕ ι := fun t =>
    (OrderManager.start c').replay create t.om.orderlog
  have hstart : replayed (start c) = OrderManager.start c' :=
    OrderManager.replay_start create c (OrderManager.start c')
  let I : SendThreads ω ι → Prop := fun t =>
    SendInv c calls t ∧ Restored t (replayed t)
  have hnext : ∀ t w, I t → Restored (t.advance calls w)
      (replayed (t.advance calls w))
      ∧ (Complete (t.advance calls w) (replayed (t.advance calls w))
        ↔ Complete t (replayed t) ∧ t.InTurn w) := by
    rintro t w ⟨hinv, hR⟩
    obtain ⟨recs, hlog, hR', hC⟩ :=
      restored_advance hcreate hcalls hinv hR w
    have hrep : replayed (t.advance calls w)
        = (replayed t).replay create recs := by
      show (OrderManager.start c').replay create _ = _
      rw [hlog]
      exact Lib.run_append ..
    rw [hrep]
    exact ⟨hR', hC⟩
  have hI : ∀ t w, I t → I (t.advance calls w) := fun t w h =>
    ⟨sendInv_advance h.1 w, (hnext t w h).1⟩
  have hI₀ : I (start c) := by
    refine ⟨sendInv_start c calls, ?_⟩
    rw [hstart]
    exact restored_start hday
  have hend : I (Lib.run (advance calls) (start c) ws) :=
    Lib.run_induction hI hI₀
  intro t r
  rw [hend.2.recovers_iff hend.1]
  refine (Lib.run_iff_admits (P := fun t => Complete t (replayed t)) hI
    (fun t w h => (hnext t w h).2) hI₀).trans ?_
  exact and_iff_right fun w hw => absurd hw (Finset.notMem_empty w)

/-- Two threads that overlap: the second takes its id after the first and
appends its record after the first. -/
theorem sends_recovered_iff_demo :
    let c : OrderManagerConf Bool Bool := .plain fun w =>
      .dayLimit w .buy 10 5
    let c' : OrderManagerConf ℕ Bool := .plain fun _ =>
      .dayLimit true .buy 1 1
    let create : CreateReplayOrder Bool := fun name a =>
      some (a.build name [] ⟨9, 0⟩)
    let ws := List.replicate 3 true ++ List.replicate 3 false
      ++ List.replicate 4 true ++ List.replicate 4 false
    let t := Lib.run (advance fun _ => ⟨[66], .taken⟩) (start c) ws
    t.sent = {true, false}
      ∧ Recovers t ((OrderManager.start c').replay create t.om.orderlog) := by
  intro c c' create ws t
  exact ⟨by decide +kernel, (sends_recovered_iff c c'
    ⟨rfl, rfl, rfl, rfl, rfl⟩ create
    (fun s _ a _ => ⟨_, rfl, a.builds_build s.1 [] ⟨9, 0⟩⟩)
    (fun _ => ⟨[66], .taken⟩) (by decide +kernel) ws).mpr
    (by decide +kernel)⟩

/-- The first thread has id 1, the second has id 2 and is logged first.
Both orders were sent; the replay knows only the second, counts only its
size, and the reader finds nothing at id 1. -/
theorem overtaken_send_lost :
    let c : OrderManagerConf Bool Bool := .plain fun w =>
      .dayLimit w .buy 10 5
    let c' : OrderManagerConf ℕ Bool := .plain fun _ =>
      .dayLimit true .buy 1 1
    let create : CreateReplayOrder Bool := fun name a =>
      some (a.build name [] ⟨9, 0⟩)
    let turns : List (Turn Bool) := List.replicate 3 (.send true)
      ++ List.replicate 7 (.send false) ++ List.replicate 4 (.send true)
    let calls : Bool → SendCall := fun _ => ⟨[66], .taken⟩
    let t := Lib.run (turn calls) (start c) turns
    let r := (OrderManager.start c').replay create t.om.orderlog
    Lib.Admits (turn calls) Locks (start c) turns
      ∧ t.stage true = .done true ∧ (t.om.order true).localID = 1
      ∧ t.stage false = .done true ∧ (t.om.order false).localID = 2
      ∧ r.localID = 2 ∧ r.orderAt 1 = none ∧ r.orderAt 2 = some 2
      ∧ t.om.desk.firmRisk.longOpenExposure = 100
      ∧ r.desk.firmRisk.longOpenExposure = 50 := by
  decide +kernel

end SendThreads

end TradingEngine.OE
