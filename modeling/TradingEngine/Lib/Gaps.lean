/-
A receiver of numbered messages that takes what it has not passed yet and
reports what it skips.

It knows one number, the next it expects. A lower one is dropped, a higher
one is taken after the range between has been reported as a gap. Over any
numbers in any order, what is taken goes up, and the gaps are exactly what
lies between and was not taken, each number in one gap (`Accounted`).

# Counting

For any number from the first one on, a run has taken it, reported it in a
gap, or not come to it yet, and exactly one of these (`Accounted.count_add`).
Which of them it is can be told from the numbers that arrived: the run has
passed a number if a number as high arrived (`next_run_le_iff`), and it has
taken the numbers that were higher than all before (`mem_taken_run`).
-/
import TradingEngine.Lib.Run
import Mathlib.Data.List.Count
import Mathlib.Data.List.Induction
import Mathlib.Data.List.Pairwise

namespace TradingEngine.Lib

/-- The receiver, with what it has taken and the gaps it has reported, from
the first number missing to the first that is not. -/
structure GapDetector where
  next : Nat
  taken : List Nat
  gaps : List (Nat × Nat)

namespace GapDetector

/-- One message. -/
def arrive (d : GapDetector) (n : Nat) : GapDetector :=
  if n < d.next then d
  else
    { next := n + 1
      taken := d.taken ++ [n]
      gaps := if n > d.next then d.gaps ++ [(d.next, n)] else d.gaps }

/-- In the gap. -/
def inGap (n : Nat) (g : Nat × Nat) : Bool := g.1 ≤ n && n < g.2

/-- What is missing of the numbers from `first` on. -/
def Missing (first n : Nat) (d : GapDetector) : Prop :=
  first ≤ n ∧ n < d.next ∧ n ∉ d.taken

instance (first n : Nat) (d : GapDetector) : Decidable (d.Missing first n) :=
  inferInstanceAs (Decidable (_ ∧ _ ∧ _))

/-- What the receiver has made of a stream, having expected `first` in the
beginning. -/
structure Accounted (first : Nat) (d : GapDetector) : Prop where
  le : first ≤ d.next
  increasing : d.taken.Pairwise (· < ·)
  taken : ∀ n ∈ d.taken, first ≤ n ∧ n < d.next
  last : ∀ n, first ≤ n → n < d.next →
    ∃ m, d.taken.getLast? = some m ∧ n ≤ m
  gaps : ∀ n, d.gaps.countP (inGap n) = if d.Missing first n then 1 else 0

theorem accounted_init (first : Nat) :
    Accounted first ⟨first, [], []⟩ := by
  refine ⟨Nat.le_refl _, List.Pairwise.nil, fun n hn => ?_, fun n h h' => ?_,
    fun n => ?_⟩
  · cases hn
  · exact absurd h' (Nat.not_lt_of_le h)
  · have hnone : ¬Missing first n ⟨first, [], []⟩ :=
      fun h => absurd h.2.1 (Nat.not_lt_of_le h.1)
    rw [if_neg hnone]
    rfl

/-- The gap that a taken number leaves. -/
theorem countP_gaps_arrive (d : GapDetector) {n : Nat} (h : d.next ≤ n)
    (k : Nat) :
    (d.arrive n).gaps.countP (inGap k)
      = d.gaps.countP (inGap k)
        + if d.next ≤ k ∧ k < n then 1 else 0 := by
  unfold arrive
  rw [if_neg (Nat.not_lt_of_le h)]
  dsimp only
  by_cases hgap : n > d.next
  · rw [if_pos hgap, List.countP_append, List.countP_singleton]
    unfold inGap
    simp only [Bool.and_eq_true, decide_eq_true_iff]
  · rw [if_neg hgap, if_neg (by omega), Nat.add_zero]

theorem Accounted.arrive {first : Nat} {d : GapDetector}
    (h : Accounted first d) (n : Nat) : Accounted first (d.arrive n) := by
  by_cases hlow : n < d.next
  · unfold GapDetector.arrive
    rwa [if_pos hlow]
  have hle : d.next ≤ n := Nat.le_of_not_lt hlow
  have hgaps := d.countP_gaps_arrive hle
  have hnext : (d.arrive n).next = n + 1 := by
    unfold GapDetector.arrive
    rw [if_neg hlow]
  have htaken : (d.arrive n).taken = d.taken ++ [n] := by
    unfold GapDetector.arrive
    rw [if_neg hlow]
  have hfirst := h.le
  have hbelow : ∀ m ∈ d.taken, m < n :=
    fun m hm => Nat.lt_of_lt_of_le (h.taken m hm).2 hle
  constructor
  · omega
  · rw [htaken, List.pairwise_append]
    refine ⟨h.increasing, List.pairwise_singleton _ _, fun m hm k hk => ?_⟩
    rw [List.mem_singleton.mp hk]
    exact hbelow m hm
  · intro m hm
    rw [htaken, List.mem_append, List.mem_singleton] at hm
    rcases hm with hm | rfl
    · have hrange := h.taken m hm
      omega
    · omega
  · intro k _ hk
    rw [htaken]
    exact ⟨n, List.getLast?_concat, by omega⟩
  · intro k
    -- what was missing still is, and what was skipped is now
    have hmissing : Missing first k (d.arrive n)
        ↔ Missing first k d ∨ d.next ≤ k ∧ k < n := by
      unfold Missing
      rw [hnext, htaken, List.mem_append, List.mem_singleton, not_or]
      constructor
      · rintro ⟨hf, hlt, hm, hne⟩
        by_cases hk : k < d.next
        · exact .inl ⟨hf, hk, hm⟩
        · exact .inr ⟨by omega, by omega⟩
      · rintro (⟨hf, hk, hm⟩ | ⟨hk, hlt⟩)
        · exact ⟨hf, by omega, hm, by omega⟩
        · refine ⟨by omega, by omega, fun hm => ?_, by omega⟩
          exact absurd (h.taken k hm).2 (Nat.not_lt_of_le hk)
    rw [hgaps, h.gaps]
    by_cases hold : Missing first k d
    · have hk := hold.2.1
      rw [if_pos hold, if_pos (hmissing.mpr (.inl hold)),
        if_neg fun hnew => absurd hk (Nat.not_lt_of_le hnew.1)]
    · rw [if_neg hold, Nat.zero_add]
      exact if_congr (hmissing.trans (or_iff_right hold)).symm rfl rfl

/-- Over any numbers in any order. -/
theorem accounted_run (first : Nat) (ns : List Nat) :
    Accounted first (run arrive ⟨first, [], []⟩ ns) :=
  run_induction (I := Accounted first) (fun _ n h => h.arrive n)
    (accounted_init first)

-- ================================================================= accounted

/-- Every number up to the next expected is taken or in a gap, and once. -/
theorem Accounted.count_add {first : Nat} {d : GapDetector}
    (h : Accounted first d) (n : Nat) :
    d.taken.count n + d.gaps.countP (inGap n)
      = if first ≤ n ∧ n < d.next then 1 else 0 := by
  have hnodup : d.taken.Nodup := h.increasing.imp Nat.ne_of_lt
  rw [h.gaps]
  by_cases hn : n ∈ d.taken
  · rw [hnodup.count, if_pos hn, if_neg fun hm => hm.2.2 hn,
      if_pos (h.taken n hn)]
  · rw [hnodup.count, if_neg hn, Nat.zero_add]
    refine if_congr ⟨fun hm => ⟨hm.1, hm.2.1⟩, fun hm => ?_⟩ rfl rfl
    exact ⟨hm.1, hm.2, hn⟩

/-- A number is still expected if it is not below the first and above all
that came. -/
theorem next_run_le_iff {first n : Nat} {ns : List Nat} :
    (run arrive ⟨first, [], []⟩ ns).next ≤ n
      ↔ first ≤ n ∧ ∀ m ∈ ns, m < n := by
  induction ns using List.reverseRecOn with
  | nil => simp
  | append_singleton ns k ih =>
      have hnext (d : GapDetector) : (d.arrive k).next ≤ n
          ↔ d.next ≤ n ∧ k < n := by
        unfold arrive
        split
        · omega
        · dsimp only
          omega
      rw [run_append, run_cons, run_nil, hnext, ih]
      simp only [List.mem_append, List.mem_singleton]
      constructor
      · rintro ⟨⟨hfirst, hall⟩, hk⟩
        refine ⟨hfirst, fun m hm => ?_⟩
        rcases hm with hm | rfl
        · exact hall m hm
        · exact hk
      · rintro ⟨hfirst, hall⟩
        exact ⟨⟨hfirst, fun m hm => hall m (.inl hm)⟩, hall k (.inr rfl)⟩

/-- What is taken: the numbers that come after lower ones only, from the
first expected on. -/
theorem mem_taken_run {first n : Nat} {ns : List Nat} :
    n ∈ (run arrive ⟨first, [], []⟩ ns).taken
      ↔ first ≤ n ∧ ∃ pre post, ns = pre ++ n :: post
        ∧ ∀ m ∈ pre, m < n := by
  induction ns using List.reverseRecOn with
  | nil => simp
  | append_singleton ns k ih =>
      have htaken (d : GapDetector) : n ∈ (d.arrive k).taken
          ↔ n ∈ d.taken ∨ n = k ∧ d.next ≤ n := by
        unfold arrive
        split
        · constructor
          · exact .inl
          · rintro (h | ⟨rfl, h⟩)
            · exact h
            · omega
        · rw [List.mem_append, List.mem_singleton]
          refine or_congr_right ⟨fun h => ⟨h, by omega⟩, And.left⟩
      rw [run_append, run_cons, run_nil, htaken, ih, next_run_le_iff]
      constructor
      · rintro (⟨hfirst, pre, post, rfl, hpre⟩ | ⟨rfl, hfirst, hall⟩)
        · exact ⟨hfirst, pre, post ++ [k], by simp, hpre⟩
        · exact ⟨hfirst, ns, [], rfl, hall⟩
      · rintro ⟨hfirst, pre, post, heq, hpre⟩
        rcases List.eq_nil_or_concat post with rfl | ⟨post, m, rfl⟩
        · obtain ⟨rfl, hk⟩ := List.append_inj' heq rfl
          exact .inr ⟨(List.cons.inj hk).1.symm, hfirst, hpre⟩
        · have heq : ns ++ [k] = (pre ++ n :: post) ++ [m] := by
            rw [heq]
            simp
          exact .inl ⟨hfirst, pre, post, (List.append_inj' heq rfl).1, hpre⟩

end GapDetector

end TradingEngine.Lib
