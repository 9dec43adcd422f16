/-
Stable sorting by a key.

An output is the stable sort of an input when it has the same elements, in
the order of their keys, and those of one key in the order of the input.
Whoever numbers the input as it arrives and puts the output in the order of
(key, number) has sorted it stably (`stablySorted_of_before`).

How far an input is from sorted is how many larger keys come before a key
(`DisplacedBelow`): so many elements have to be seen before the least can be
told (`DisplacedBelow.le_of_window`).

# Rules

Both are for keys of any linear order. A sort of the elements as numbered and
a map of the elements leave each other alone (`StablySorted.map`), so that
what is sorted may be a record made from the element.
-/
import Mathlib.Data.List.Perm.Basic
import Mathlib.Data.List.Count
import Mathlib.Order.Lattice

namespace TradingEngine.Lib

variable {α β κ : Type*} [LinearOrder κ]

-- ============================================================== stable sorts

/-- `out` is `inp`, sorted by `key`, with equal keys left in their order. -/
structure StablySorted (key : α → κ) (inp out : List α) : Prop where
  perm : out.Perm inp
  sorted : out.Pairwise fun a b => key a ≤ key b
  stable : ∀ k, out.filter (key · = k) = inp.filter (key · = k)

/-- By key, and by number where the keys are equal. -/
def Before (key : α → κ) (num : α → Int) (a b : α) : Prop :=
  key a < key b ∨ key a = key b ∧ num a < num b

variable {key : α → κ} {num : α → Int} {inp out : List α}

theorem Before.key_le {a b : α} (h : Before key num a b) :
    key a ≤ key b := by
  rcases h with h | h
  · exact le_of_lt h
  · exact le_of_eq h.1

theorem Before.trans {a b c : α} (h : Before key num a b)
    (h' : Before key num b c) : Before key num a c := by
  rcases h with h | h
  · exact Or.inl (lt_of_lt_of_le h h'.key_le)
  · rcases h' with h' | h'
    · exact Or.inl (h.1 ▸ h')
    · exact Or.inr ⟨h.1.trans h'.1, Int.lt_trans h.2 h'.2⟩

/-- Elements of different numbers come one before the other. -/
theorem before_or_before {a b : α} (h : num a < num b) :
    Before key num a b ∨ key b < key a := by
  rcases lt_trichotomy (key a) (key b) with hlt | heq | hgt
  · exact Or.inl (Or.inl hlt)
  · exact Or.inl (Or.inr ⟨heq, h⟩)
  · exact Or.inr hgt

/-- In the order of the keys, with ties in the order of arrival. -/
theorem stablySorted_of_before (hinp : inp.Pairwise fun a b => num a < num b)
    (hperm : out.Perm inp) (hout : out.Pairwise (Before key num)) :
    StablySorted key inp out where
  perm := hperm
  sorted := hout.imp Before.key_le
  stable := by
    intro k
    have hof : ∀ a b, a ∈ out.filter (key · = k) →
        b ∈ inp.filter (key · = k) → num a < num b → num b < num a →
        a = b := by
      intro a b _ _ hlt hgt
      omega
    have hties : (out.filter (key · = k)).Pairwise
        fun a b => num a < num b := by
      have hkeyed := List.Pairwise.and_mem.mp (hout.filter (key · = k))
      refine hkeyed.imp fun {a b} h => ?_
      have ha : key a = k := of_decide_eq_true (List.mem_filter.mp h.1).2
      have hb : key b = k := of_decide_eq_true (List.mem_filter.mp h.2.1).2
      rcases h.2.2 with hlt | heq
      · exact absurd (ha.trans hb.symm) (ne_of_lt hlt)
      · exact heq.2
    exact List.Perm.eq_of_pairwise hof hties (hinp.filter _)
      (hperm.filter _)

/-- A stable sort of what the elements stand for. -/
theorem StablySorted.map {f : α → β} {key : β → κ}
    (h : StablySorted (key ∘ f) inp out) :
    StablySorted key (inp.map f) (out.map f) where
  perm := h.perm.map f
  sorted := List.pairwise_map.mpr h.sorted
  stable := by
    intro k
    have hk := h.stable k
    simp only [Function.comp_apply] at hk
    rw [List.filter_map, List.filter_map]
    exact congrArg (List.map f) hk

-- ============================================================= displacement

/-- Every element has fewer than `n` larger ones before it. -/
def DisplacedBelow (key : α → κ) (n : Nat) (inp : List α) : Prop :=
  ∀ before x after, inp = before ++ x :: after →
    before.countP (key x < key ·) < n

/-- When `n` elements have been seen and kept, and everything kept is at
least `m`, so is what comes later. -/
theorem DisplacedBelow.le_of_window {n : Nat} {kept gone : List α}
    {seen later : List α} {m : κ} (h : DisplacedBelow key n (seen ++ later))
    (hseen : seen.Perm (gone ++ kept)) (hlen : n ≤ kept.length)
    (hm : ∀ x ∈ kept, m ≤ key x) : ∀ x ∈ later, m ≤ key x := by
  intro x hx
  apply le_of_not_gt
  intro hlt
  obtain ⟨between, after, hsplit⟩ := List.append_of_mem hx
  have hcount := h (seen ++ between) x after (by rw [hsplit]; simp)
  -- all that is kept is larger than `x` and comes before it
  have hkept : kept.countP (key x < key ·) = kept.length := by
    apply List.countP_eq_length.mpr
    intro y hy
    exact decide_eq_true (lt_of_lt_of_le hlt (hm y hy))
  have hall : seen.countP (key x < key ·)
      = gone.countP (key x < key ·) + kept.countP (key x < key ·) := by
    rw [hseen.countP_eq, List.countP_append]
  rw [List.countP_append] at hcount
  omega

end TradingEngine.Lib
