/-
`core/Alphanumeric.hpp`: unsigned integers as fields of digits and letters.

An unsigned integer type is its number of bits. `set` and `get` go through
the field from the least significant place on, which is the last one when
the padding is on the left.
-/
import TradingEngine.OE.Types
import Mathlib.Data.Nat.ModEq

namespace TradingEngine

open OE (Bytes)

/-- The parameters of the template. -/
structure Alphanumeric where
  outWidth : Nat
  caseSensitive : Bool
  leftPadding : Bool
  padChar : UInt8
  deriving DecidableEq

namespace Alphanumeric

variable (a : Alphanumeric)

def base : Nat := if a.caseSensitive then 62 else 36

/-- `charset`: digits, capitals, small letters. -/
def charset (n : Nat) : UInt8 :=
  if n < 10 then .ofNat (48 + n)
  else if n < 36 then .ofNat (65 + (n - 10))
  else .ofNat (97 + (n - 36))

/-- The loop of `set`, with the places that are left: what is set from here
on, in the order of the loop, and what remains of the number. Only the
first place is never padding. -/
def setLoop : Nat → Bool → Nat → Bytes × Nat
  | 0, _, n => ([], n)
  | i + 1, first, n =>
      if n = 0 ∧ first = false then
        let r := setLoop i false n
        (a.padChar :: r.1, r.2)
      else
        let r := setLoop i false (n / a.base)
        (charset (n % a.base) :: r.1, r.2)

/-- `set`: whether the number fits, and the field. With padding on the left
the loop goes from the last place to the first. -/
def set (n : Nat) : Bool × Bytes :=
  let r := a.setLoop a.outWidth true n
  (r.2 = 0, if a.leftPadding then r.1.reverse else r.1)

/-- The digit that a digit or a letter stands for. -/
def digit (caseSensitive : Bool) (c : UInt8) : Option Nat :=
  if 48 ≤ c ∧ c ≤ 57 then some (c.toNat - 48)
  else if 65 ≤ c ∧ c ≤ 90 then some (c.toNat - 65 + 10)
  else if 97 ≤ c ∧ c ≤ 122 then
    some (c.toNat - 97 + if caseSensitive then 36 else 10)
  else none

/-- What a place counts; `none` for an invalid character. -/
def inc (c : UInt8) : Option Nat :=
  (digit a.caseSensitive c).or (if c = a.padChar then some 0 else none)

/-- The loop of `get`, in a type of so many bits. -/
def getLoop (bits : Nat) : Bytes → Nat → Nat → Nat
  | [], ret, _ => ret
  | c :: cs, ret, multiplier =>
      match a.inc c with
      | none => 0
      | some inc =>
          getLoop bits cs ((ret + multiplier * inc) % 2 ^ bits)
            (multiplier * a.base % 2 ^ bits)

/-- `get`. -/
def get (bits : Nat) (field : Bytes) : Nat :=
  a.getLoop bits (if a.leftPadding then field.reverse else field) 0 1

-- ================================================================ round trip

/-- Padding that counts nothing: `'0'`, or no digit and no letter. -/
def PadSound : Prop := a.padChar = 48 ∨ digit true a.padChar = none

instance : Decidable a.PadSound := inferInstanceAs (Decidable (_ ∨ _))

theorem digit_charset_of_lt {caseSensitive : Bool} {n : Nat}
    (h : n < if caseSensitive then 62 else 36) :
    digit caseSensitive (charset n) = some n := by
  cases caseSensitive with
  | true =>
      have hall : ∀ n : Fin 62, digit true (charset n) = some n.val := by
        decide
      exact hall ⟨n, h⟩
  | false =>
      have hall : ∀ n : Fin 36, digit false (charset n) = some n.val := by
        decide
      exact hall ⟨n, h⟩

theorem inc_charset {n : Nat} (h : n < a.base) :
    a.inc (charset n) = some n := by
  unfold inc
  rw [digit_charset_of_lt h, Option.some_or]

variable {a}

theorem PadSound.inc_padChar (h : a.PadSound) : a.inc a.padChar = some 0 := by
  unfold inc
  rw [if_pos rfl]
  rcases h with h | h
  · rw [h]
    cases a.caseSensitive <;> rfl
  · have hnone : digit a.caseSensitive a.padChar = none := by
      unfold digit at h ⊢
      split at h
      · cases h
      · split at h
        · cases h
        · split at h
          · cases h
          · rename_i h1 h2 h3
            rw [if_neg h1, if_neg h2, if_neg h3]
    rw [hnone, Option.none_or]

/-- What is left of a number after so many places. -/
theorem setLoop_rest (w : Nat) (first : Bool) (n : Nat) :
    (a.setLoop w first n).2 = n / a.base ^ w := by
  induction w generalizing first n with
  | zero => exact (Nat.div_one n).symm
  | succ w ih =>
      unfold setLoop
      split
      case isTrue hzero =>
        show (a.setLoop w false n).2 = _
        rw [ih, hzero.1, Nat.zero_div, Nat.zero_div]
      case isFalse =>
        show (a.setLoop w false (n / a.base)).2 = _
        rw [ih, Nat.div_div_eq_div_mul, Nat.pow_succ']

/-- The places that were set are read back, up to what was left. -/
theorem getLoop_setLoop (hpad : a.PadSound) (bits w : Nat) (first : Bool)
    (n : Nat) {ret : Nat} (hret : ret < 2 ^ bits) (multiplier : Nat) :
    a.getLoop bits (a.setLoop w first n).1 ret multiplier
      = (ret + multiplier * (n % a.base ^ w)) % 2 ^ bits := by
  have hbits : 0 < 2 ^ bits := Nat.two_pow_pos bits
  induction w generalizing first n ret multiplier with
  | zero =>
      show ret = _
      rw [Nat.pow_zero, Nat.mod_one, Nat.mul_zero, Nat.add_zero,
        Nat.mod_eq_of_lt hret]
  | succ w ih =>
      have hnext (inc : Nat) : (ret + multiplier * inc) % 2 ^ bits < 2 ^ bits :=
        Nat.mod_lt _ hbits
      unfold setLoop
      split
      case isTrue hzero =>
        show a.getLoop bits (a.padChar :: (a.setLoop w false n).1) _ _ = _
        unfold getLoop
        rw [hpad.inc_padChar]
        show a.getLoop bits _ _ _ = _
        rw [ih false n (hnext 0), hzero.1]
        simp only [Nat.zero_mod, Nat.mul_zero, Nat.add_zero, Nat.mod_mod]
      case isFalse =>
        show a.getLoop bits
          (charset (n % a.base) :: (a.setLoop w false (n / a.base)).1) _ _ = _
        have hbase : 0 < a.base := by
          unfold base
          split <;> decide
        unfold getLoop
        rw [a.inc_charset (Nat.mod_lt n hbase)]
        show a.getLoop bits _ _ _ = _
        rw [ih false _ (hnext _), Nat.pow_succ', Nat.mod_mul]
        -- the wraps so far make no difference to the sum
        show Nat.ModEq (2 ^ bits) _ _
        have hmult := (Nat.mod_modEq (multiplier * a.base) (2 ^ bits)).mul_right
          (n / a.base % a.base ^ w)
        refine Eq.trans ((Nat.mod_modEq _ _).add hmult) ?_
        rw [Nat.mul_add, Nat.mul_assoc, Nat.add_assoc]

variable (a) in
theorem set_fits_iff (n : Nat) :
    (a.set n).1 = true ↔ n < a.base ^ a.outWidth := by
  have hpos : 0 < a.base ^ a.outWidth := by
    apply Nat.pow_pos
    unfold base
    split <;> decide
  show decide ((a.setLoop a.outWidth true n).2 = 0) = true ↔ _
  rw [decide_eq_true_iff, setLoop_rest, Nat.div_eq_zero_iff_lt hpos]

/-- What fits is read back. -/
theorem get_set (hpad : a.PadSound) {bits n : Nat} (hn : n < 2 ^ bits)
    (hfits : n < a.base ^ a.outWidth) : a.get bits (a.set n).2 = n := by
  have hfield : (if a.leftPadding then (a.set n).2.reverse else (a.set n).2)
      = (a.setLoop a.outWidth true n).1 := by
    unfold set
    dsimp only
    split
    · exact List.reverse_reverse _
    · rfl
  unfold get
  rw [hfield, getLoop_setLoop hpad bits _ _ _ (Nat.two_pow_pos bits),
    Nat.mod_eq_of_lt hfits, Nat.zero_add, Nat.one_mul, Nat.mod_eq_of_lt hn]

end Alphanumeric

end TradingEngine
