/-
What a computation touches of a buffer, and whether it ends.

A computation with loops is given a number of turns. What it has touched
when it ends, or when its turns are up, is a `Touches`. It is contained in
a buffer if some number of turns is enough for it and it leaves the buffer
with none.

# A loop over records

`forEach` is the loop over `n` records in a row, with a counter of 32 bits.
The counter wraps around, so the loop ends exactly if `n` fits into it.

# Rules

A loop that ends is contained exactly if its last record is
(`end_le_of_mem_forEach`, `end_le_of_within`), so a check of one length is
enough for all of it. What is done after another computation is only touched
if that one ends (`mem_andThen`).
-/
import TradingEngine.Lib.Bytes

namespace TradingEngine.Lib

/-- What has been touched, and whether that was all. -/
structure Touches where
  extents : List Extent
  ended : Bool
  deriving DecidableEq, Repr

namespace Touches

/-- The turns are up. -/
def cut : Touches := ⟨[], false⟩

/-- One computation, then another if it ends. -/
def andThen (t next : Touches) : Touches :=
  if t.ended then ⟨t.extents ++ next.extents, next.ended⟩ else t

/-- A computation, by its turns, that ends and stays in the buffer. -/
def Contained (len : Nat) (f : Nat → Touches) : Prop :=
  (∃ turns, (f turns).ended = true)
    ∧ ∀ turns, ∀ e ∈ (f turns).extents, e.Within len

/-- It ends, and in the buffer. -/
def settles (t : Touches) (len : Nat) : Bool :=
  t.ended && t.extents.all fun e => decide (e.Within len)

/-- A run settles if it ends, within the length. -/
theorem settles_iff {t : Touches} {len : Nat} :
    t.settles len = true
      ↔ t.ended = true ∧ ∀ e ∈ t.extents, e.Within len := by
  unfold settles
  rw [Bool.and_eq_true, List.all_eq_true]
  simp only [decide_eq_true_eq]

/-- One thing after the other ends if both do. -/
@[simp] theorem ended_andThen (t next : Touches) :
    (t.andThen next).ended = (t.ended && next.ended) := by
  unfold andThen
  cases h : t.ended <;> simp [h]

/-- What comes second is only reached if the first ends. -/
theorem mem_andThen {t next : Touches} {e : Extent} :
    e ∈ (t.andThen next).extents
      ↔ e ∈ t.extents ∨ t.ended = true ∧ e ∈ next.extents := by
  unfold andThen
  cases h : t.ended <;> simp

-- ================================================================= records

/-- `for (auto i = 0U; i < n; i++)`, the fields of a record at `idx` in
every turn, and `idx += stride`. -/
def forEach (fields : List Extent) (stride n : Nat) :
    Nat → UInt32 → Nat → Touches
  | 0, _, _ => cut
  | turns + 1, i, idx =>
      if i.toNat < n then
        andThen ⟨fields.map (Extent.shift idx), true⟩
          (forEach fields stride n turns (i + 1) (idx + stride))
      else ⟨[], true⟩

variable {fields : List Extent} {stride n : Nat}

/-- A counter that cannot reach `n` never ends the loop. -/
theorem ended_forEach_of_le (hn : 4294967296 ≤ n) (turns : Nat)
    (i : UInt32) (idx : Nat) :
    (forEach fields stride n turns i idx).ended = false := by
  induction turns generalizing i idx with
  | zero => rfl
  | succ turns ih =>
      have hi := i.toNat_lt
      unfold forEach
      rw [if_pos (by omega), ended_andThen, ih]
      rfl

/-- The loop ends with more turns than there are points. -/
theorem ended_forEach_of_lt (hn : n < 4294967296) {turns : Nat}
    {i : UInt32} (hturns : n - i.toNat < turns) (idx : Nat) :
    (forEach fields stride n turns i idx).ended = true := by
  induction turns generalizing i idx with
  | zero => exact absurd hturns (Nat.not_lt_zero _)
  | succ turns ih =>
      unfold forEach
      by_cases hi : i.toNat < n
      · have hsucc := toNat_add_one (n := i) (by omega)
        rw [if_pos hi, ended_andThen, ih (by omega)]
        rfl
      · rw [if_neg hi]

/-- What is touched is a field of one of the records. -/
theorem exists_of_mem_forEach (hn : n < 4294967296) {turns : Nat}
    {i : UInt32} {idx : Nat} {e : Extent}
    (he : e ∈ (forEach fields stride n turns i idx).extents) :
    ∃ k, i.toNat + k < n ∧ ∃ f ∈ fields, e = f.shift (idx + k * stride) := by
  induction turns generalizing i idx with
  | zero => simp [forEach, cut] at he
  | succ turns ih =>
      unfold forEach at he
      by_cases hi : i.toNat < n
      · rw [if_pos hi, mem_andThen] at he
        rcases he with he | ⟨-, he⟩
        · obtain ⟨f, hf, rfl⟩ := List.mem_map.mp he
          exact ⟨0, hi, f, hf, by simp⟩
        · have hsucc := toNat_add_one (n := i) (by omega)
          obtain ⟨k, hk, f, hf, rfl⟩ := ih he
          refine ⟨k + 1, by omega, f, hf, ?_⟩
          rw [Nat.succ_mul]
          congr 1
          omega
      · simp [if_neg hi] at he

/-- A loop that ends has touched every field of every record. -/
theorem mem_forEach (hn : n < 4294967296) {turns : Nat} {i : UInt32}
    {idx : Nat} (hended : (forEach fields stride n turns i idx).ended = true)
    {k : Nat} (hk : i.toNat + k < n) {f : Extent} (hf : f ∈ fields) :
    f.shift (idx + k * stride)
      ∈ (forEach fields stride n turns i idx).extents := by
  induction turns generalizing i idx k with
  | zero => simp [forEach, cut] at hended
  | succ turns ih =>
      have hi : i.toNat < n := by omega
      have hsucc := toNat_add_one (n := i) (by omega)
      unfold forEach at hended ⊢
      rw [if_pos hi, mem_andThen]
      rw [if_pos hi, ended_andThen] at hended
      cases k with
      | zero =>
          left
          rw [Nat.zero_mul]
          exact List.mem_map_of_mem hf
      | succ k =>
          right
          have hrest := ih (k := k) (by simpa using hended) (by omega)
          have hidx : idx + (k + 1) * stride = idx + stride + k * stride := by
            rw [Nat.succ_mul]
            omega
          rw [hidx]
          exact ⟨rfl, hrest⟩

/-- Where the last field of the last record ends. -/
theorem end_le_of_mem_forEach (hn : n < 4294967296) {turns idx : Nat}
    {e : Extent} (he : e ∈ (forEach fields stride n turns 0 idx).extents) :
    idx ≤ e.start
      ∧ e.start + e.size ≤ idx + (n - 1) * stride + Extent.reach fields := by
  obtain ⟨k, hk, f, hf, rfl⟩ := exists_of_mem_forEach hn he
  have hreach := Extent.le_reach hf
  have hzero : (0 : UInt32).toNat = 0 := rfl
  have hmul : k * stride ≤ (n - 1) * stride :=
    Nat.mul_le_mul_right stride (by omega)
  unfold Extent.shift
  dsimp only
  omega

/-- The last point lies within the length if all do. -/
theorem end_le_of_within (hn : n < 4294967296) (hfields : fields ≠ [])
    (hpos : n ≠ 0) {turns idx len : Nat}
    (hended : (forEach fields stride n turns 0 idx).ended = true)
    (h : ∀ e ∈ (forEach fields stride n turns 0 idx).extents,
      e.Within len) :
    idx + (n - 1) * stride + Extent.reach fields ≤ len := by
  obtain ⟨f, hf, hreach⟩ := Extent.exists_reach hfields
  have hzero : (0 : UInt32).toNat = 0 := rfl
  have hmem := mem_forEach hn hended (k := n - 1) (by omega) hf
  have hlast := h _ hmem
  unfold Extent.Within Extent.shift at hlast
  dsimp only at hlast
  omega

end Touches

end TradingEngine.Lib
