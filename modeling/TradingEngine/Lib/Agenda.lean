/-
An agenda: a clock, and what waits for its time.

What is put on the agenda is due no earlier than the clock, which moves on
to what is taken off, first what is due first, or to a time before which
nothing waits. So the clock never goes back, things are taken off in the
order of their times, and once the clock is at a time, everything that was
due before it, then or later, has been taken off exactly once
(`Inv.settled`).

Things may be due together, and then any of them may be taken off.

# Rules

A machine with a clock and a queue is shown to take `Step`s: it puts
something on, takes something that is due first off, or lets time pass. What
follows is then for any number of steps (`Steps`): the invariant
(`Steps.inv`), that what is taken off comes in order and no earlier than the
clock was (`Steps.later`), and that nothing due is left behind
(`Inv.settled`).
-/
import Mathlib.Data.List.Perm.Basic
import Mathlib.Logic.Relation
import Mathlib.Order.Lattice

namespace TradingEngine.Lib

variable {τ α : Type*} [LinearOrder τ]

structure Agenda (τ α : Type*) where
  now : τ
  waiting : List α
  /-- Everything that was put on it. -/
  entered : List α
  /-- Everything that was taken off it, oldest first. -/
  taken : List α

namespace Agenda

/-- What is done with an agenda. -/
inductive Step (due : α → τ) : Agenda τ α → Agenda τ α → Prop
  | enter {a : Agenda τ α} (xs : List α) (h : ∀ x ∈ xs, a.now ≤ due x) :
      Step due a { a with
        waiting := a.waiting ++ xs
        entered := a.entered ++ xs }
  | take {a : Agenda τ α} {k : Nat} {x : α} (hx : a.waiting[k]? = some x)
      (hfirst : ∀ y ∈ a.waiting, due x ≤ due y) :
      Step due a { a with
        now := due x
        waiting := a.waiting.eraseIdx k
        taken := a.taken ++ [x] }
  | advance {a : Agenda τ α} {t : τ} (h : a.now ≤ t)
      (hall : ∀ x ∈ a.waiting, t ≤ due x) : Step due a { a with now := t }

/-- What holds of an agenda at all times. -/
structure Inv (due : α → τ) (a : Agenda τ α) : Prop where
  ahead : ∀ x ∈ a.waiting, a.now ≤ due x
  behind : ∀ x ∈ a.taken, due x ≤ a.now
  sorted : a.taken.Pairwise fun x y => due x ≤ due y
  all : a.entered.Perm (a.taken ++ a.waiting)

variable {due : α → τ} {a a' : Agenda τ α}

/-- An empty agenda is in order. -/
theorem inv_init (now : τ) : Inv due ⟨now, [], [], []⟩ :=
  ⟨nofun, nofun, .nil, .refl _⟩

/-- The thing at a place, and the others. -/
theorem perm_eraseIdx {xs : List α} {k : Nat} {x : α}
    (hx : xs[k]? = some x) : xs.Perm (x :: xs.eraseIdx k) := by
  obtain ⟨hk, rfl⟩ := List.getElem?_eq_some_iff.mp hx
  exact (List.getElem_cons_eraseIdx_perm hk).symm

/-- The step lemma. -/
theorem Step.inv (hs : Step due a a') (h : Inv due a) : Inv due a' := by
  cases hs with
  | enter xs hxs =>
      refine ⟨fun x hx => ?_, h.behind, h.sorted, ?_⟩
      · rcases List.mem_append.mp hx with hx | hx
        · exact h.ahead x hx
        · exact hxs x hx
      · rw [← List.append_assoc]
        exact h.all.append_right xs
  | @take k x hx hfirst =>
      have hmem : x ∈ a.waiting := List.mem_of_getElem? hx
      have hnow : a.now ≤ due x := h.ahead x hmem
      refine ⟨fun y hy => hfirst y (List.mem_of_mem_eraseIdx hy),
        fun y hy => ?_, ?_, ?_⟩
      · rcases List.mem_append.mp hy with hy | hy
        · exact le_trans (h.behind y hy) hnow
        · rw [List.mem_singleton.mp hy]
      · refine List.pairwise_append.mpr ⟨h.sorted, List.pairwise_singleton ..,
          fun y hy z hz => ?_⟩
        rw [List.mem_singleton.mp hz]
        exact le_trans (h.behind y hy) hnow
      · rw [List.append_assoc]
        exact h.all.trans ((perm_eraseIdx hx).append_left a.taken)
  | advance hnow hall =>
      exact ⟨hall, fun x hx => le_trans (h.behind x hx) hnow, h.sorted,
        h.all⟩

/-- What a step adds is due no earlier than the clock was. -/
structure Later (due : α → τ) (a a' : Agenda τ α) : Prop where
  now : a.now ≤ a'.now
  entered : ∃ xs, a'.entered = a.entered ++ xs ∧ ∀ x ∈ xs, a.now ≤ due x
  taken : ∃ xs, a'.taken = a.taken ++ xs ∧ ∀ x ∈ xs, a.now ≤ due x

/-- Nothing was taken off. -/
theorem Later.refl (a : Agenda τ α) : Later due a a :=
  ⟨le_refl _, ⟨[], (List.append_nil _).symm, nofun⟩,
    ⟨[], (List.append_nil _).symm, nofun⟩⟩

/-- What was taken off in two runs is in order if each run is. -/
theorem Later.trans {a'' : Agenda τ α} (h : Later due a a')
    (h' : Later due a' a'') : Later due a a'' := by
  obtain ⟨xs, hxs, hlate⟩ := h.entered
  obtain ⟨ys, hys, hlate'⟩ := h'.entered
  obtain ⟨zs, hzs, hlater⟩ := h.taken
  obtain ⟨us, hus, hlater'⟩ := h'.taken
  refine ⟨le_trans h.now h'.now, ⟨xs ++ ys, ?_, ?_⟩, ⟨zs ++ us, ?_, ?_⟩⟩
  · rw [hys, hxs, List.append_assoc]
  · intro x hx
    rcases List.mem_append.mp hx with hx | hx
    · exact hlate x hx
    · exact le_trans h.now (hlate' x hx)
  · rw [hus, hzs, List.append_assoc]
  · intro x hx
    rcases List.mem_append.mp hx with hx | hx
    · exact hlater x hx
    · exact le_trans h.now (hlater' x hx)

/-- A step takes off nothing earlier than the clock. -/
theorem Step.later (hs : Step due a a') (h : Inv due a) :
    Later due a a' := by
  cases hs with
  | enter xs hxs =>
      exact ⟨le_refl _, ⟨xs, rfl, hxs⟩, (Later.refl a).taken⟩
  | @take k x hx hfirst =>
      have hnow : a.now ≤ due x := h.ahead x (List.mem_of_getElem? hx)
      refine ⟨hnow, (Later.refl a).entered, ⟨[x], rfl, fun y hy => ?_⟩⟩
      rw [List.mem_singleton.mp hy]
      exact hnow
  | advance hnow hall =>
      exact ⟨hnow, (Later.refl a).entered, (Later.refl a).taken⟩

/-- Any number of steps. -/
abbrev Steps (due : α → τ) : Agenda τ α → Agenda τ α → Prop :=
  Relation.ReflTransGen (Step due)

/-- Over any number of steps. -/
theorem Steps.inv (hs : Steps due a a') (h : Inv due a) : Inv due a' := by
  induction hs with
  | refl => exact h
  | tail _ hstep ih => exact hstep.inv ih

/-- The run lemma: what is taken off comes in the order of its times. -/
theorem Steps.later (hs : Steps due a a') (h : Inv due a) :
    Later due a a' := by
  induction hs with
  | refl => exact .refl a
  | tail hprev hstep ih => exact ih.trans (hstep.later (Steps.inv hprev h))

/-- Nothing is left out, nothing comes twice: what is due before the clock,
now or later, is what was taken off up to now. -/
theorem Inv.settled (h : Inv due a) (hs : Steps due a a') :
    (a'.entered.filter fun x => due x < a.now).Perm
        (a.taken.filter fun x => due x < a.now)
      ∧ a'.taken.filter (fun x => due x < a.now)
        = a.taken.filter fun x => due x < a.now := by
  have hnone : ∀ xs : List α, (∀ x ∈ xs, a.now ≤ due x) →
      xs.filter (fun x => due x < a.now) = [] := by
    intro xs hxs
    refine List.filter_eq_nil_iff.mpr fun x hx => ?_
    rw [decide_eq_true_eq]
    exact not_lt.mpr (hxs x hx)
  have hlater := Steps.later hs h
  obtain ⟨xs, hxs, hlate⟩ := hlater.entered
  obtain ⟨ys, hys, hlate'⟩ := hlater.taken
  constructor
  · rw [hxs, List.filter_append, hnone xs hlate, List.append_nil]
    have hall := h.all.filter fun x => decide (due x < a.now)
    rwa [List.filter_append, hnone a.waiting h.ahead, List.append_nil]
      at hall
  · rw [hys, List.filter_append, hnone ys hlate', List.append_nil]

end Agenda

end TradingEngine.Lib
