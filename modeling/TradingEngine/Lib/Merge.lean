/-
Merging sorted sources.

A merge has something left of each source and has taken the rest. It takes
the head of a source when no other head has a smaller key. Then what it has
taken is sorted, nothing that is left is smaller, and what was taken of a
source is a prefix of it, so that in the end nothing is missing, twice
there or out of the order of its source (`Inv.done`).

# Rules

`Inv` is kept by taking a least head (`Inv.take`), for any way of choosing
among equal ones. The keys are of any linear order, and the sources are
indexed by any type. For an implementation it is enough to show that what it
takes is the least head, and that it takes it off its source.
-/
import Mathlib.Data.List.Basic
import Mathlib.Data.List.Nodup
import Mathlib.Logic.Function.Basic
import Mathlib.Order.Lattice

namespace TradingEngine.Lib

variable {ι α κ : Type*} [DecidableEq ι] [LinearOrder κ]

structure Merge (ι α : Type*) where
  left : ι → List α
  /-- What was taken, and from where, oldest first. -/
  taken : List (ι × α)

namespace Merge

/-- What was taken of one source. -/
def takenOf (i : ι) (ts : List (ι × α)) : List α :=
  (ts.filter (·.1 = i)).map Prod.snd

/-- What was taken of a source in two runs. -/
theorem takenOf_append (i : ι) (ts us : List (ι × α)) :
    takenOf i (ts ++ us) = takenOf i ts ++ takenOf i us := by
  unfold takenOf
  rw [List.filter_append, List.map_append]

/-- What one step takes. -/
theorem takenOf_singleton (i j : ι) (x : α) :
    takenOf i [(j, x)] = if j = i then [x] else [] := by
  unfold takenOf
  by_cases h : j = i
  · simp [h]
  · simp [h]

/-- `x` is the head of source `i`, and the least of the heads. -/
structure Least (key : α → κ) (m : Merge ι α) (i : ι) (x : α)
    (rest : List α) : Prop where
  head : m.left i = x :: rest
  least : ∀ j y ys, m.left j = y :: ys → key x ≤ key y

/-- Taking the head of a source. -/
def take (m : Merge ι α) (i : ι) (x : α) (rest : List α) : Merge ι α where
  left := Function.update m.left i rest
  taken := m.taken ++ [(i, x)]

/-- What holds of a merge of `src` at all times. -/
structure Inv (key : α → κ) (src : ι → List α) (m : Merge ι α) :
    Prop where
  whole : ∀ i, takenOf i m.taken ++ m.left i = src i
  sorted : m.taken.Pairwise fun a b => key a.2 ≤ key b.2
  ahead : ∀ t ∈ m.taken, ∀ i, ∀ y ∈ m.left i, key t.2 ≤ key y

variable {key : α → κ} {src : ι → List α} {m : Merge ι α}

/-- Before the first step nothing was taken. -/
theorem inv_init : Inv key src ⟨src, []⟩ where
  whole := fun _ => rfl
  sorted := List.Pairwise.nil
  ahead := by simp

section Sorted

variable (hsrc : ∀ i, (src i).Pairwise fun a b => key a ≤ key b)

include hsrc

/-- What is left of a source is sorted. -/
theorem Inv.left_sorted (h : Inv key src m) (i : ι) :
    (m.left i).Pairwise fun a b => key a ≤ key b := by
  have hi := hsrc i
  rw [← h.whole i] at hi
  exact (List.pairwise_append.mp hi).2.1

/-- The least of the heads is the least of all that is left. -/
theorem Inv.least_le (h : Inv key src m) {i : ι} {x : α} {rest : List α}
    (hx : Least key m i x rest) : ∀ j, ∀ y ∈ m.left j, key x ≤ key y := by
  intro j y hy
  cases hj : m.left j with
  | nil =>
      rw [hj] at hy
      cases hy
  | cons z zs =>
      have hz := hx.least j z zs hj
      have hsorted := h.left_sorted hsrc j
      rw [hj] at hsorted hy
      rcases List.mem_cons.mp hy with heq | hmem
      · rw [heq]
        exact hz
      · exact le_trans hz ((List.pairwise_cons.mp hsorted).1 y hmem)

/-- Taking the least keeps the invariant. -/
theorem Inv.take (h : Inv key src m) {i : ι} {x : α} {rest : List α}
    (hx : Least key m i x rest) : Inv key src (m.take i x rest) where
  whole := by
    intro j
    unfold Merge.take
    dsimp only
    rw [takenOf_append, takenOf_singleton, ← h.whole j]
    by_cases hij : i = j
    · rw [← hij, if_pos rfl, Function.update_self, hx.head]
      simp
    · rw [if_neg hij, Function.update_of_ne (Ne.symm hij),
        List.append_nil]
  sorted := by
    apply List.pairwise_append.mpr
    refine ⟨h.sorted, List.pairwise_singleton _ _, ?_⟩
    intro t ht u hu
    rw [List.mem_singleton.mp hu]
    exact h.ahead t ht i x (hx.head ▸ List.mem_cons_self)
  ahead := by
    intro t ht j y hy
    have hleft : y ∈ m.left j := by
      unfold Merge.take at hy
      dsimp only at hy
      by_cases hij : j = i
      · rw [hij, Function.update_self] at hy
        rw [hij, hx.head]
        exact List.mem_cons_of_mem x hy
      · rwa [Function.update_of_ne hij] at hy
    rcases List.mem_append.mp ht with hold | hnew
    · exact h.ahead t hold j y hleft
    · rw [List.mem_singleton.mp hnew]
      exact h.least_le hsrc hx j y hleft

end Sorted

/-- Taking leaves the other sources alone, so what is left of several
sources together is less what was taken. -/
theorem perm_flatMap_take {is : List ι} (hnodup : is.Nodup) {i : ι}
    (hi : i ∈ is) {x : α} {rest : List α} (hhead : m.left i = x :: rest) :
    (is.flatMap m.left).Perm
      (x :: is.flatMap (m.take i x rest).left) := by
  obtain ⟨before, after, hsplit⟩ := List.append_of_mem hi
  have hperm : (i :: (before ++ after)).Nodup := by
    rw [hsplit] at hnodup
    exact (List.perm_middle.nodup_iff).mp hnodup
  obtain ⟨hnot, -⟩ := List.nodup_cons.mp hperm
  rw [List.mem_append, not_or] at hnot
  have hsame : ∀ js : List ι, i ∉ js →
      js.flatMap (m.take i x rest).left = js.flatMap m.left := by
    intro js hjs
    apply List.flatMap_congr
    intro j hj
    have hne : j ≠ i := fun heq => hjs (heq ▸ hj)
    unfold Merge.take
    dsimp only
    rw [Function.update_of_ne hne]
  have hown : (m.take i x rest).left i = rest := by
    unfold Merge.take
    dsimp only
    rw [Function.update_self]
  rw [hsplit]
  simp only [List.flatMap_append, List.flatMap_cons, hsame before hnot.1,
    hsame after hnot.2, hown, hhead, List.cons_append]
  exact List.perm_middle

/-- When nothing is left, everything was taken. -/
theorem Inv.done (h : Inv key src m) (hdone : ∀ i, m.left i = []) (i : ι) :
    takenOf i m.taken = src i := by
  rw [← h.whole i, hdone i, List.append_nil]

end Merge

end TradingEngine.Lib
