/-
The finite values of a `double`, and their bits.

A finite double is a whole number of the smallest steps, 2 to the -1074: a
number of at most 53 bits, shifted left by up to 2045 (`IsDouble`). The bits
of it without the sign are the shift and the number, added at bit 52, and
one bit of the number is not there twice, because a shifted number always
has its bit 52.

Infinities, and what is not a number, are read as if they were numbers.
There are two zeros; the one without a sign is written.

# Reading back

`ofBits` and `toBits` are executable, on rational numbers. They are inverse
to each other on the finite doubles (`ofBits_toBits`), among which are all
whole numbers up to 53 bits (`isDouble_natCast`). The argument is on steps,
that is on natural numbers: a number of steps is divided by its shift without
a rest (`Short.dvd`), so that nothing is lost when it is put into the bits.
Rounding is not treated.
-/
import Mathlib.Algebra.Order.Field.Basic
import Mathlib.Algebra.Order.Field.Rat
import Mathlib.Data.Nat.Cast.Order.Field
import Mathlib.Tactic.Linarith

namespace TradingEngine.Lib.Binary64

-- =================================================================== steps

/-- The bits of a number of steps. -/
def ofSteps (n : Nat) : Nat :=
  (Nat.log2 n - 52) * 2 ^ 52 + n / 2 ^ (Nat.log2 n - 52)

/-- The number of steps, from the bits without the sign. -/
def steps (bits : Nat) : Nat :=
  if bits < 2 ^ 52 then bits
  else (2 ^ 52 + bits % 2 ^ 52) * 2 ^ (bits / 2 ^ 52 - 1)

/-- At most 53 bits, shifted left. -/
def Short (n : Nat) : Prop := ∃ m p, m < 2 ^ 53 ∧ p ≤ 2045 ∧ n = m * 2 ^ p

/-- Fewer bits, smaller logarithm. -/
theorem log2_lt_of_lt {n k : Nat} (h : n < 2 ^ k) (hk : 0 < k) :
    Nat.log2 n < k := by
  by_cases hn : n = 0
  · subst hn
    exact hk
  · exact (Nat.log2_lt hn).mpr h

/-- A significand of 53 bits that is shifted. -/
theorem log2_shift_lt {m p : Nat} (hm : m < 2 ^ 53) :
    Nat.log2 (m * 2 ^ p) < 53 + p := by
  refine log2_lt_of_lt ?_ (by omega)
  rw [Nat.pow_add]
  exact Nat.mul_lt_mul_of_pos_right hm (Nat.two_pow_pos p)

/-- A number of steps is no longer than the largest double. -/
theorem Short.log2_lt {n : Nat} (h : Short n) : Nat.log2 n < 2098 := by
  obtain ⟨m, p, hm, hp, rfl⟩ := h
  exact Nat.lt_of_lt_of_le (log2_shift_lt hm) (by omega)

/-- Shifting back loses nothing. -/
theorem Short.dvd {n : Nat} (h : Short n) : 2 ^ (Nat.log2 n - 52) ∣ n := by
  obtain ⟨m, p, hm, -, rfl⟩ := h
  have hlog := log2_shift_lt (p := p) hm
  exact Dvd.dvd.mul_left (Nat.pow_dvd_pow 2 (by omega)) m

/-- What is shifted has its bit 52. -/
theorem div_bounds {n : Nat} (h : 52 < Nat.log2 n) :
    2 ^ 52 ≤ n / 2 ^ (Nat.log2 n - 52)
      ∧ n / 2 ^ (Nat.log2 n - 52) < 2 ^ 53 := by
  have hn : n ≠ 0 := by
    rintro rfl
    cases h
  have hpos := Nat.two_pow_pos (Nat.log2 n - 52)
  constructor
  · rw [Nat.le_div_iff_mul_le hpos, ← Nat.pow_add]
    refine Nat.le_trans (Nat.pow_le_pow_right (by decide) ?_)
      (Nat.log2_self_le hn)
    omega
  · rw [Nat.div_lt_iff_lt_mul hpos, ← Nat.pow_add]
    refine Nat.lt_of_lt_of_le Nat.lt_log2_self
      (Nat.pow_le_pow_right (by decide) ?_)
    omega

/-- Its bits leave room for the sign. -/
theorem ofSteps_lt {n : Nat} (h : Short n) : ofSteps n < 2 ^ 63 := by
  have hlog := h.log2_lt
  unfold ofSteps
  by_cases hbig : 52 < Nat.log2 n
  · have hbounds := div_bounds hbig
    omega
  · have hlt : n < 2 ^ 53 := by
      have hself := Nat.lt_log2_self (n := n)
      exact Nat.lt_of_lt_of_le hself
        (Nat.pow_le_pow_right (by decide) (by omega))
    rw [Nat.sub_eq_zero_of_le (by omega), Nat.pow_zero, Nat.div_one]
    omega

/-- The number of steps is read back from the bits. -/
theorem steps_ofSteps {n : Nat} (h : Short n) : steps (ofSteps n) = n := by
  unfold ofSteps
  by_cases hbig : 52 < Nat.log2 n
  · obtain ⟨hlow, hhigh⟩ := div_bounds hbig
    have hexact := Nat.div_mul_cancel h.dvd
    revert hlow hhigh hexact
    generalize hp : Nat.log2 n - 52 = p
    generalize n / 2 ^ p = m
    intro hlow hhigh hexact
    have hdiv : (p * 2 ^ 52 + m) / 2 ^ 52 - 1 = p := by omega
    have hmod : 2 ^ 52 + (p * 2 ^ 52 + m) % 2 ^ 52 = m := by omega
    unfold steps
    rw [if_neg (by omega), hdiv, hmod]
    exact hexact
  · have hlt : n < 2 ^ 53 := by
      have hself := Nat.lt_log2_self (n := n)
      exact Nat.lt_of_lt_of_le hself
        (Nat.pow_le_pow_right (by decide) (by omega))
    rw [Nat.sub_eq_zero_of_le (by omega), Nat.pow_zero, Nat.div_one]
    unfold steps
    split
    case isTrue => omega
    case isFalse hle =>
      have hdiv : (0 * 2 ^ 52 + n) / 2 ^ 52 - 1 = 0 := by omega
      rw [hdiv, Nat.pow_zero, Nat.mul_one]
      omega

-- ================================================================== values

/-- The exponent of the smallest step, without its sign. -/
def scale : Nat := 1074

/-- The smallest steps in one. -/
def unit : Nat := 2 ^ scale

/-- The smallest step is there. -/
theorem unit_pos : 0 < unit := Nat.two_pow_pos scale

/-- A magnitude is not negative. -/
theorem value_nonneg (n : Nat) : (0 : Rat) ≤ (n : Rat) / unit :=
  div_nonneg (Nat.cast_nonneg n) (Nat.cast_nonneg _)

/-- The value of some steps, with a sign. -/
def value (negative : Bool) (n : Nat) : Rat :=
  if negative then -((n : Rat) / unit) else (n : Rat) / unit

/-- A value that a `double` can have. -/
def IsDouble (q : Rat) : Prop := ∃ negative n, Short n ∧ q = value negative n

/-- The steps of a value, without its sign. -/
def stepsOf (q : Rat) : Nat := q.num.natAbs * unit / q.den

/-- The bits of a value. -/
def toBits (q : Rat) : Nat :=
  (if q < 0 then 2 ^ 63 else 0) + ofSteps (stepsOf q)

/-- The value of some bits. -/
def ofBits (bits : Nat) : Rat :=
  value (decide (2 ^ 63 ≤ bits)) (steps (bits % 2 ^ 63))

/-- The sign apart. -/
theorem abs_value (negative : Bool) (n : Nat) :
    |value negative n| = (n : Rat) / unit := by
  have hnonneg := value_nonneg n
  unfold value
  split
  · rw [abs_neg, abs_of_nonneg hnonneg]
  · exact abs_of_nonneg hnonneg

/-- The number of steps of a value. -/
theorem stepsOf_value (negative : Bool) (n : Nat) :
    stepsOf (value negative n) = n := by
  have habs := abs_value negative n
  have hunit : (unit : Rat) ≠ 0 := Nat.cast_ne_zero.mpr unit_pos.ne'
  unfold stepsOf
  generalize value negative n = q at habs
  have hden : (q.den : Rat) ≠ 0 := Nat.cast_ne_zero.mpr q.den_ne_zero
  have hq : |q| = (q.num.natAbs : Rat) / q.den := by
    conv_lhs => rw [← Rat.num_div_den q]
    rw [abs_div, Nat.abs_cast, Nat.cast_natAbs, Int.cast_abs]
  have hcross : ((q.num.natAbs * unit : Nat) : Rat)
      = ((n * q.den : Nat) : Rat) := by
    rw [hq, div_eq_div_iff hden hunit] at habs
    rw [Nat.cast_mul, Nat.cast_mul]
    exact habs
  rw [Nat.cast_inj.mp hcross]
  exact Nat.mul_div_cancel n q.den_pos

/-- A value below zero has the sign, and of the others only zero may. -/
theorem value_sign (negative : Bool) (n : Nat) :
    value (decide (value negative n < 0)) n = value negative n := by
  have hnonneg := value_nonneg n
  by_cases hneg : value negative n < 0
  · rw [decide_eq_true hneg]
    cases negative with
    | true => rfl
    | false => exact absurd hneg (not_lt.mpr hnonneg)
  · rw [decide_eq_false hneg]
    cases negative with
    | false => rfl
    | true =>
        have hle : (n : Rat) / unit ≤ 0 := by
          have hge : 0 ≤ -((n : Rat) / unit) := not_lt.mp hneg
          linarith
        show (n : Rat) / unit = -((n : Rat) / unit)
        rw [le_antisymm hle hnonneg, neg_zero]

/-- A double has 64 bits. -/
theorem toBits_lt {q : Rat} (h : IsDouble q) : toBits q < 2 ^ 64 := by
  obtain ⟨negative, n, hn, rfl⟩ := h
  have hlt := ofSteps_lt hn
  unfold toBits
  rw [stepsOf_value]
  split <;> omega

/-- A value that a `double` can have is what its bits say. -/
theorem ofBits_toBits {q : Rat} (h : IsDouble q) : ofBits (toBits q) = q := by
  obtain ⟨negative, n, hn, rfl⟩ := h
  have hlt := ofSteps_lt hn
  conv_rhs => rw [← value_sign]
  unfold toBits ofBits
  rw [stepsOf_value]
  by_cases hneg : value negative n < 0
  · have hmod : (2 ^ 63 + ofSteps n) % 2 ^ 63 = ofSteps n := by omega
    rw [if_pos hneg, hmod, steps_ofSteps hn, decide_eq_true hneg,
      decide_eq_true (Nat.le_add_right _ _)]
  · rw [if_neg hneg, Nat.zero_add, Nat.mod_eq_of_lt hlt, steps_ofSteps hn,
      decide_eq_false hneg, decide_eq_false (by omega)]

/-- A whole number of up to 53 bits is one. -/
theorem isDouble_natCast {n : Nat} (h : n < 2 ^ 53) : IsDouble n := by
  have hunit : (unit : Rat) ≠ 0 := Nat.cast_ne_zero.mpr unit_pos.ne'
  refine ⟨false, n * unit, ⟨n, scale, h, by decide, rfl⟩, ?_⟩
  show (n : Rat) = ((n * unit : Nat) : Rat) / unit
  rw [Nat.cast_mul, mul_div_cancel_right₀ _ hunit]

end TradingEngine.Lib.Binary64
