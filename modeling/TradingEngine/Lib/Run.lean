/-
Runs of a deterministic machine under a guard: the executable spine that
every whole-run statement rests on.

A machine is a `step : σ → α → σ`. A guard `ok s e` says which events the
environment may present in state `s`; `Admits` asks it of every event
along a run, each in the state that event finds. The three rules are the
ones proofs use: a guarded invariant, weakening of the guard, and a
lock-step simulation between two machines.

# Rules

`run_invariant` and `run_induction` are the induction for an invariant, with
a guard and without. `run_iff_admits` and `admits_iff_of_step` turn an
equivalence for one step into one for a run, where the invariant is kept as
long as all has gone well. `run_simulation` and `run_related` are for two
machines that take the same events, one of which has been proved about.
-/
import Mathlib.Tactic.TypeStar

namespace TradingEngine.Lib

variable {σ τ α β : Type*}

/-- The state after the events, in order. -/
def run (step : σ → α → σ) (s : σ) (es : List α) : σ := es.foldl step s

/-- Every event is admissible in the state it finds. -/
def Admits (step : σ → α → σ) (ok : σ → α → Prop) : σ → List α → Prop
  | _, [] => True
  | s, e :: es => ok s e ∧ Admits step ok (step s e) es

/-- A decidable guard is decidable along a run. -/
instance Admits.decidable (step : σ → α → σ) (ok : σ → α → Prop)
    [∀ s e, Decidable (ok s e)] :
    ∀ (s : σ) (es : List α), Decidable (Admits step ok s es)
  | _, [] => .isTrue trivial
  | s, e :: es =>
      @instDecidableAnd _ _ inferInstance
        (Admits.decidable step ok (step s e) es)

variable {step : σ → α → σ} {ok ok' : σ → α → Prop}

/-- No input. -/
@[simp] theorem run_nil (s : σ) : run step s [] = s := rfl

/-- The first input, and the others. -/
@[simp] theorem run_cons (s : σ) (e : α) (es : List α) :
    run step s (e :: es) = run step (step s e) es := rfl

/-- One run after the other. -/
theorem run_append (s : σ) (es es' : List α) :
    run step s (es ++ es') = run step (run step s es) es' := by
  unfold run
  rw [List.foldl_append]

/-- Inputs that are admitted in two runs. -/
theorem admits_append {s : σ} {es es' : List α} :
    Admits step ok s (es ++ es')
      ↔ Admits step ok s es ∧ Admits step ok (run step s es) es' := by
  induction es generalizing s with
  | nil => simp [Admits]
  | cons e es ih =>
      simp only [List.cons_append, Admits, run_cons, ih]
      exact and_assoc.symm

/-- A guard may be weakened wherever an invariant justifies it. -/
theorem Admits.mono_of {I : σ → Prop}
    (hstep : ∀ s e, I s → ok s e → I (step s e))
    (himp : ∀ s e, I s → ok s e → ok' s e) :
    ∀ {s : σ} {es : List α}, I s → Admits step ok s es →
      Admits step ok' s es := by
  intro s es
  induction es generalizing s with
  | nil => intro _ _; trivial
  | cons e es ih =>
      intro hs hadm
      exact ⟨himp s e hs hadm.1, ih (hstep s e hs hadm.1) hadm.2⟩

/-- Two conditions on the inputs at once. -/
theorem admits_and {s : σ} {es : List α} :
    Admits step (fun s e => ok s e ∧ ok' s e) s es
      ↔ Admits step ok s es ∧ Admits step ok' s es := by
  induction es generalizing s with
  | nil => simp [Admits]
  | cons e es ih =>
      simp only [Admits, ih]
      exact and_and_and_comm

/-- Events admissible in every state. -/
theorem Admits.of_forall_mem {s : σ} {es : List α}
    (h : ∀ e ∈ es, ∀ s, ok s e) : Admits step ok s es := by
  induction es generalizing s with
  | nil => exact True.intro
  | cons e es ih =>
      exact ⟨h e List.mem_cons_self s,
        ih fun e' he' => h e' (List.mem_cons_of_mem e he')⟩

/-- A guard that does not look at the state. -/
theorem admits_iff_forall_mem {c : α → Prop} {s : σ} {es : List α} :
    Admits step (fun _ e => c e) s es ↔ ∀ e ∈ es, c e := by
  induction es generalizing s with
  | nil => exact iff_of_true True.intro (List.forall_mem_nil _)
  | cons e es ih =>
      rw [Admits, ih]
      exact List.forall_mem_cons.symm

/-- The guard that admits everything. -/
theorem Admits.trivial (s : σ) (es : List α) :
    Admits step (fun _ _ => True) s es := by
  induction es generalizing s with
  | nil => exact True.intro
  | cons e es ih => exact ⟨True.intro, ih _⟩

/-- A property of the initial state that guarded steps keep holds at the
end of every admissible run. -/
theorem run_invariant {I : σ → Prop}
    (hstep : ∀ s e, I s → ok s e → I (step s e)) :
    ∀ {s : σ} {es : List α}, I s → Admits step ok s es →
      I (run step s es) := by
  intro s es
  induction es generalizing s with
  | nil => intro hs _; exact hs
  | cons e es ih =>
      intro hs hadm
      exact ih (hstep s e hs hadm.1) hadm.2

/-- The unguarded form: every step keeps the property. -/
theorem run_induction {I : σ → Prop} (hstep : ∀ s e, I s → I (step s e))
    {s : σ} {es : List α} (hs : I s) : I (run step s es) := by
  induction es generalizing s with
  | nil => exact hs
  | cons e es ih => exact ih (hstep s e hs)

/-- A property that a step keeps exactly when it is admissible, and that
nothing brings back, holds in the end exactly if every step was. -/
theorem run_iff_admits {I P : σ → Prop}
    (hstep : ∀ s e, I s → I (step s e))
    (hiff : ∀ s e, I s → (P (step s e) ↔ P s ∧ ok s e)) :
    ∀ {s : σ} {es : List α}, I s →
      (P (run step s es) ↔ P s ∧ Admits step ok s es) := by
  intro s es
  induction es generalizing s with
  | nil => exact fun _ => (and_iff_left True.intro).symm
  | cons e es ih =>
      intro hs
      rw [run_cons, ih (hstep s e hs), hiff s e hs]
      exact and_assoc

/-- When a step ends well exactly if its condition holds, a run ends every
step well exactly if every step's condition holds. -/
theorem admits_iff_of_step {I : σ → Prop} {p good cond : σ → α → Prop}
    (hiff : ∀ s e, I s → p s e → (good s e ↔ cond s e))
    (hstep : ∀ s e, I s → p s e → cond s e → I (step s e)) :
    ∀ {s : σ} {es : List α}, I s → Admits step p s es →
      (Admits step good s es ↔ Admits step cond s es) := by
  intro s es
  induction es generalizing s with
  | nil => intro _ _; exact Iff.rfl
  | cons e es ih =>
      intro hs hadm
      have he := hiff s e hs hadm.1
      constructor
      · rintro ⟨hgood, hrest⟩
        have hcond := he.mp hgood
        exact ⟨hcond, (ih (hstep s e hs hadm.1 hcond) hadm.2).mp hrest⟩
      · rintro ⟨hcond, hrest⟩
        have hnext := hstep s e hs hadm.1 hcond
        exact ⟨he.mpr hcond, (ih hnext hadm.2).mpr hrest⟩

/-- Lock-step simulation: related states stay related while both
machines take the same events, each under its own guard. -/
theorem run_simulation {step' : τ → α → τ} {okt : τ → α → Prop}
    {R : σ → τ → Prop}
    (hstep : ∀ s t e, R s t → ok s e → okt t e →
      R (step s e) (step' t e)) :
    ∀ {s : σ} {t : τ} {es : List α}, R s t → Admits step ok s es →
      Admits step' okt t es → R (run step s es) (run step' t es) := by
  intro s t es
  induction es generalizing s t with
  | nil => intro hR _ _; exact hR
  | cons e es ih =>
      intro hR hadm hadm'
      exact ih (hstep s t e hR hadm.1 hadm'.1) hadm.2 hadm'.2

/-- The unguarded form. -/
theorem run_related {step' : τ → α → τ} {R : σ → τ → Prop}
    (hstep : ∀ s t e, R s t → R (step s e) (step' t e)) {s : σ} {t : τ}
    {es : List α} (h : R s t) : R (run step s es) (run step' t es) :=
  run_simulation (fun s t e hR _ _ => hstep s t e hR) h
    (Admits.trivial s es) (Admits.trivial t es)

end TradingEngine.Lib
