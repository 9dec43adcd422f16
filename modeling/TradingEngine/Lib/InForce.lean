/-
Values that hold until the next one: a history of samples, the newest
first, and the sum over whole seconds of what is in force at each.

An accumulator that is brought forward only when a sample arrives rests on
two facts: behind the newest sample the sum is a product (`total_const`),
and a new sample changes nothing before its own time (`total_cons`).

# Rules

Totals over two stretches of time add up (`total_add`), and samples that come
later than a stretch do not count in it (`total_append`). The values may be of
any additive commutative group, and times are whole numbers.
-/
import Mathlib.Algebra.BigOperators.Group.Finset.Basic
import Mathlib.Algebra.Module.NatInt

namespace TradingEngine.Lib

/-- A value from a time on. -/
structure Sample (M : Type*) where
  time : Int
  value : M

namespace Sample

variable {M : Type*} [AddCommGroup M]

/-- The value in force at a time: of the newest sample that is not later,
and nothing before the first. -/
def inForce (us : List (Sample M)) (i : Int) : M :=
  ((us.find? fun u => u.time ≤ i).map value).getD 0

/-- The sum over the seconds from `a` to `b`. -/
def total (us : List (Sample M)) (a b : Int) : M :=
  ∑ k ∈ Finset.range (b - a).toNat, inForce us (a + k)

/-- From its time on the newest sample is in force. -/
theorem inForce_cons_of_le {u : Sample M} {i : Int} (h : u.time ≤ i)
    (us : List (Sample M)) : inForce (u :: us) i = u.value := by
  unfold inForce
  rw [List.find?_cons_of_pos (p := fun u : Sample M => decide (u.time ≤ i))
    (decide_eq_true h), Option.map_some, Option.getD_some]

/-- Before that, those before it. -/
theorem inForce_cons_of_lt {u : Sample M} {i : Int} (h : i < u.time)
    (us : List (Sample M)) : inForce (u :: us) i = inForce us i := by
  have hnot : ¬decide (u.time ≤ i) = true := by
    rw [decide_eq_true_iff]
    exact not_le.mpr h
  unfold inForce
  rw [List.find?_cons_of_neg (p := fun u : Sample M => decide (u.time ≤ i))
    hnot]

/-- No time, no total. -/
theorem total_self (us : List (Sample M)) (a : Int) : total us a a = 0 := by
  unfold total
  rw [Int.sub_self, Int.toNat_zero, Finset.range_zero, Finset.sum_empty]

/-- Totals over two stretches of time. -/
theorem total_add (us : List (Sample M)) {a b c : Int} (hab : a ≤ b)
    (hbc : b ≤ c) : total us a c = total us a b + total us b c := by
  have hcount : (c - a).toNat = (b - a).toNat + (c - b).toNat := by omega
  unfold total
  rw [hcount, Finset.sum_range_add]
  refine congrArg _ (Finset.sum_congr rfl fun k _ => ?_)
  have htime : a + (((b - a).toNat + k : Nat) : Int) = b + k := by omega
  rw [htime]

/-- Samples from `b` on do not matter before. -/
theorem total_append {new us : List (Sample M)} {b : Int}
    (h : ∀ u ∈ new, b ≤ u.time) (a : Int) :
    total (new ++ us) a b = total us a b := by
  refine Finset.sum_congr rfl fun k hk => ?_
  have hlt := Finset.mem_range.mp hk
  induction new with
  | nil => rfl
  | cons u new ih =>
      have hu := h u List.mem_cons_self
      rw [List.cons_append, inForce_cons_of_lt (by omega)]
      exact ih fun v hv => h v (List.mem_cons_of_mem u hv)

/-- A new sample changes nothing before its own time. -/
theorem total_cons {u : Sample M} {b : Int} (h : b ≤ u.time)
    (us : List (Sample M)) (a : Int) :
    total (u :: us) a b = total us a b :=
  total_append (List.forall_mem_singleton.mpr h) a

/-- Behind the newest sample its value holds. -/
theorem total_const {u : Sample M} {a b : Int} (hu : u.time ≤ a)
    (hab : a ≤ b) (us : List (Sample M)) :
    total (u :: us) a b = (b - a) • u.value := by
  have hconst : ∀ k ∈ Finset.range (b - a).toNat,
      inForce (u :: us) (a + k) = u.value :=
    fun k _ => inForce_cons_of_le (by omega) us
  have hcount : ((b - a).toNat : Int) = b - a :=
    Int.toNat_of_nonneg (by omega)
  unfold total
  rw [Finset.sum_congr rfl hconst, Finset.sum_const, Finset.card_range,
    ← natCast_zsmul, hcount]

end Sample

end TradingEngine.Lib
