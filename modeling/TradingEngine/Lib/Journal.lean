/-
Machines that keep a journal, and recovery by reading it back.

A state `σ` has a journal `log : σ → List μ` that grows by whole records.
Recovery is a second machine over the records, `read : τ → μ → τ`. When
reading the records of one step keeps a relation between the two, then
reading the whole journal ends in a state related to the end of the run.

# Rules

`Journaled` is what is asked of one step: reading the records that it writes
restores the relation, be there none (`Journaled.silent`) or one
(`Journaled.record`). The rules are for whole runs: recovery at the end
(`recovered_run`), a journal that only grows (`log_prefix_run`), and recovery
from a beginning of the journal (`recovered_prefix`).
-/
import TradingEngine.Lib.Run

namespace TradingEngine.Lib

variable {σ τ α μ : Type*} {step : σ → α → σ} {ok : σ → α → Prop}
  {log : σ → List μ} {read : τ → μ → τ} {R : σ → τ → Prop}

/-- `s` steps to `s'` and appends to the journal records which recovery
answers by keeping `R`. -/
def Journaled (log : σ → List μ) (read : τ → μ → τ) (R : σ → τ → Prop)
    (s s' : σ) : Prop :=
  ∃ recs, log s' = log s ++ recs ∧ ∀ r, R s r → R s' (run read r recs)

/-- A step that writes nothing. -/
theorem Journaled.silent {s s' : σ} (hlog : log s' = log s)
    (hR : ∀ r, R s r → R s' r) : Journaled log read R s s' :=
  ⟨[], by rw [hlog, List.append_nil], hR⟩

/-- A step that writes one record. -/
theorem Journaled.record {s s' : σ} {m : μ} (hlog : log s' = log s ++ [m])
    (hR : ∀ r, R s r → R s' (read r m)) : Journaled log read R s s' :=
  ⟨[m], hlog, hR⟩

/-- Reading the journal back gives a state related to the one that wrote
it, in every state of a run whose steps journal what they do. -/
theorem recovered_run (log : σ → List μ) {I : σ → Prop} {r : τ}
    (hinv : ∀ s e, I s → ok s e → I (step s e))
    (hstep : ∀ s e, I s → ok s e → Journaled log read R s (step s e))
    {s : σ} {es : List α} (hs : I s) (hR : R s (run read r (log s)))
    (hes : Admits step ok s es) :
    R (run step s es) (run read r (log (run step s es))) := by
  refine (run_invariant (I := fun s => I s ∧ R s (run read r (log s)))
    (fun s e ⟨hI, hR⟩ hok => ⟨hinv s e hI hok, ?_⟩) ⟨hs, hR⟩ hes).2
  obtain ⟨recs, hlog, hkeep⟩ := hstep s e hI hok
  rw [hlog, run_append]
  exact hkeep _ hR

section Torn

variable (log) {I : σ → Prop} (hinv : ∀ s e, I s → ok s e → I (step s e))
  (hgrows : ∀ s e, I s → ok s e → ∃ recs, recs.length ≤ 1
    ∧ log (step s e) = log s ++ recs)

include hinv hgrows

theorem log_prefix_run {s : σ} {es : List α} (hs : I s)
    (hes : Admits step ok s es) : log s <+: log (run step s es) := by
  induction es generalizing s with
  | nil => exact List.prefix_rfl
  | cons e es ih =>
      obtain ⟨recs, -, hlog⟩ := hgrows s e hs hes.1
      have hstep : log s <+: log (step s e) := ⟨recs, hlog.symm⟩
      exact hstep.trans (ih (hinv s e hs hes.1) hes.2)

/-- A journal that grows by a record at a time shows where a beginning of it
was the whole. -/
theorem exists_log_eq {s : σ} {es : List α} {p : List μ} (hs : I s)
    (hes : Admits step ok s es) (hlow : log s <+: p)
    (hhigh : p <+: log (run step s es)) :
    ∃ k, log (run step s (es.take k)) = p := by
  induction es generalizing s with
  | nil =>
      have heq := hhigh.eq_of_length_le hlow.length_le
      exact ⟨0, heq.symm⟩
  | cons e es ih =>
      by_cases hsame : p = log s
      · exact ⟨0, hsame.symm⟩
      · obtain ⟨recs, hone, hlog⟩ := hgrows s e hs hes.1
        have hnext := log_prefix_run log hinv hgrows (hinv s e hs hes.1) hes.2
        have hlonger : (log s).length < p.length := by
          refine Nat.lt_of_le_of_ne hlow.length_le fun heq => hsame ?_
          exact (hlow.eq_of_length heq).symm
        have hstep : log (step s e) <+: p := by
          refine List.prefix_of_prefix_length_le hnext hhigh ?_
          rw [hlog, List.length_append]
          omega
        obtain ⟨k, hk⟩ := ih (hinv s e hs hes.1) hes.2 hstep hhigh
        exact ⟨k + 1, hk⟩

/-- Reading a beginning of the journal gives a state related to one that
the run went through. -/
theorem recovered_prefix {r : τ}
    (hstep : ∀ s e, I s → ok s e → Journaled log read R s (step s e))
    {s : σ} {es : List α} {p : List μ} (hs : I s)
    (hR : R s (run read r (log s))) (hes : Admits step ok s es)
    (hlow : log s <+: p) (hhigh : p <+: log (run step s es)) :
    ∃ k, R (run step s (es.take k)) (run read r p) := by
  obtain ⟨k, rfl⟩ := exists_log_eq log hinv hgrows hs hes hlow hhigh
  refine ⟨k, recovered_run log hinv hstep hs hR ?_⟩
  rw [← List.take_append_drop k es] at hes
  exact (admits_append.mp hes).1

end Torn

end TradingEngine.Lib
