/-
Totals over keyed accounts: what happens to a finite sum when one
account changes, joins or leaves.

Bookkeeping code never recomputes a total, it adds the change of the one
account it touched. Each lemma here is the reason one such increment is
right, over any commutative group of amounts.

# Rules

An account that changes moves the total by its change (`sum_change`), one
that joins brings its amount (`sum_join`), one that leaves takes its amount
away (`sum_leave`). `sum_update` is the first of them for a table in which
one entry is replaced.
-/
import Mathlib.Algebra.BigOperators.Group.Finset.Basic
import Mathlib.Algebra.BigOperators.Group.Finset.Piecewise
import Mathlib.Tactic.Abel

namespace TradingEngine.Lib

variable {κ M : Type*} [DecidableEq κ] [AddCommGroup M]

/-- One account changed: the total moves by that account's change. -/
theorem sum_change {S : Finset κ} {f g : κ → M} {k : κ} (hk : k ∈ S)
    (hrest : ∀ j ∈ S, j ≠ k → g j = f j) :
    ∑ j ∈ S, g j = ∑ j ∈ S, f j + (g k - f k) := by
  rw [← Finset.add_sum_erase S g hk, ← Finset.add_sum_erase S f hk]
  have herase : ∑ j ∈ S.erase k, g j = ∑ j ∈ S.erase k, f j := by
    refine Finset.sum_congr rfl fun j hj => ?_
    exact hrest j (Finset.mem_of_mem_erase hj) (Finset.ne_of_mem_erase hj)
  rw [herase]
  abel

/-- An account joined, the others unchanged. -/
theorem sum_join {S : Finset κ} {f g : κ → M} {k : κ} (hk : k ∉ S)
    (hrest : ∀ j ∈ S, g j = f j) :
    ∑ j ∈ insert k S, g j = ∑ j ∈ S, f j + g k := by
  rw [Finset.sum_insert hk, Finset.sum_congr rfl hrest, add_comm]

/-- An account left, the others unchanged. -/
theorem sum_leave {S : Finset κ} {f g : κ → M} {k : κ} (hk : k ∈ S)
    (hrest : ∀ j ∈ S, j ≠ k → g j = f j) :
    ∑ j ∈ S.erase k, g j = ∑ j ∈ S, f j - f k := by
  rw [← Finset.add_sum_erase S f hk]
  have herase : ∑ j ∈ S.erase k, g j = ∑ j ∈ S.erase k, f j := by
    refine Finset.sum_congr rfl fun j hj => ?_
    exact hrest j (Finset.mem_of_mem_erase hj) (Finset.ne_of_mem_erase hj)
  rw [herase]
  abel

/-- Over a finite key type, replacing one entry of a table moves the
total of any reading `w` of its entries by the change of that reading. -/
theorem sum_update [Fintype κ] {ε : Type*} (t : κ → ε) (k : κ) (e : ε)
    (w : ε → M) :
    ∑ j, w (Function.update t k e j) = ∑ j, w (t j) + (w e - w (t k)) := by
  have h := sum_change (S := Finset.univ) (f := fun j => w (t j))
    (g := fun j => w (Function.update t k e j)) (Finset.mem_univ k)
    (fun j _ hj => by rw [Function.update_of_ne hj])
  rw [h, Function.update_self]

end TradingEngine.Lib
