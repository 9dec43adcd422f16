/-
Packed records: fields that follow one another without a gap.

A record is the list of its fields, and the width of a field is known by its
name. A writer puts the values one after the other (`pack`); a reader that
has the same list finds each of them at its `offset` (`bytesAt_pack`).

# Optional fields

`chosen table bits` are the fields of a table, in its order, whose bit is
set. Writer and reader agree on a record with optional fields if the list of
the one is what the bits choose for the other.

# Numbers

`leNat` is the number that bytes stand for, the least significant first; it
undoes `leBytes`.
-/
import TradingEngine.Lib.Bytes
import Mathlib.Algebra.GroupWithZero.Nat
import Mathlib.Data.List.Basic

namespace TradingEngine.Lib

-- ================================================================= numbers

/-- The number in bytes, the least significant first. -/
def leNat : List UInt8 → Nat
  | [] => 0
  | b :: bs => b.toNat + 256 * leNat bs

/-- A number is read back up to its width. -/
@[simp] theorem leNat_leBytes (width n : Nat) :
    leNat (leBytes width n) = n % 256 ^ width := by
  induction width generalizing n with
  | zero => rw [Nat.pow_zero, Nat.mod_one]; rfl
  | succ width ih =>
      have hlow : (UInt8.ofNat n).toNat = n % 256 := UInt8.toNat_ofNat'
      rw [leBytes, leNat, ih, hlow, Nat.pow_succ', Nat.mod_mul]

/-- And is the same if it fits. -/
theorem leNat_leBytes_of_lt {width n : Nat} (h : n < 256 ^ width) :
    leNat (leBytes width n) = n := by
  rw [leNat_leBytes, Nat.mod_eq_of_lt h]

/-- Bytes that are there do not depend on what follows. -/
theorem bytesAt_append {bs : List UInt8} {i n : Nat} (h : i + n ≤ bs.length)
    (cs : List UInt8) : bytesAt (bs ++ cs) i n = bytesAt bs i n := by
  unfold bytesAt
  rw [List.drop_append_of_le_length (by omega),
    List.take_append_of_le_length (by rw [List.length_drop]; omega)]

/-- One byte at an offset. -/
theorem byteAt_of_bytesAt {bs : List UInt8} {i : Nat} {b : UInt8}
    (h : bytesAt bs i 1 = [b]) : byteAt bs i = b := by
  unfold bytesAt at h
  unfold byteAt
  by_cases hi : i < bs.length
  · rw [List.drop_eq_getElem_cons hi] at h
    rw [List.getD_eq_getElem _ _ hi]
    exact List.head_eq_of_cons_eq h
  · rw [List.drop_eq_nil_of_le (by omega)] at h
    cases h

/-- Two bytes at an offset are the number in them. -/
theorem le16_eq_leNat {bs : List UInt8} {i : Nat} (h : i + 1 < bs.length) :
    le16 bs i = leNat (bytesAt bs i 2) := by
  have htwo : bytesAt bs i 2 = [byteAt bs i, byteAt bs (i + 1)] := by
    unfold bytesAt byteAt
    rw [List.drop_eq_getElem_cons (by omega), List.take_succ_cons,
      List.drop_eq_getElem_cons h, List.take_succ_cons, List.take_zero,
      List.getD_eq_getElem _ _ (by omega), List.getD_eq_getElem _ _ h]
  rw [htwo]
  rfl

-- ================================================================= records

namespace Record

variable {κ : Type*} (width : κ → Nat)

/-- The bytes of a record. -/
def size (fs : List κ) : Nat := (fs.map width).sum

/-- The values of the fields, one after the other. -/
def pack (v : κ → List UInt8) (fs : List κ) : List UInt8 := fs.flatMap v

/-- Every value has the width of its field. -/
def Fits (v : κ → List UInt8) (fs : List κ) : Prop :=
  ∀ f ∈ fs, (v f).length = width f

/-- A record without fields. -/
@[simp] theorem pack_nil (v : κ → List UInt8) : pack v [] = [] := rfl

/-- The first field, and the others. -/
@[simp] theorem pack_cons (v : κ → List UInt8) (f : κ) (fs : List κ) :
    pack v (f :: fs) = v f ++ pack v fs :=
  List.flatMap_cons

/-- Records one behind the other. -/
@[simp] theorem pack_append (v : κ → List UInt8) (fs gs : List κ) :
    pack v (fs ++ gs) = pack v fs ++ pack v gs :=
  List.flatMap_append

variable {width}

/-- The later fields fit too. -/
theorem Fits.tail {v : κ → List UInt8} {f : κ} {fs : List κ}
    (h : Fits width v (f :: fs)) : Fits width v fs :=
  fun g hg => h g (List.mem_cons_of_mem f hg)

/-- A record is as long as its fields are wide. -/
theorem length_pack {v : κ → List UInt8} {fs : List κ}
    (h : Fits width v fs) : (pack v fs).length = size width fs := by
  induction fs with
  | nil => rfl
  | cons f fs ih =>
      rw [pack_cons, List.length_append, ih h.tail, h f List.mem_cons_self]
      rfl

section Offset

variable [DecidableEq κ] (width)

/-- Where a field begins; behind the record, if it is none of its fields. -/
def offset : List κ → κ → Nat
  | [], _ => 0
  | f :: fs, g => if g = f then 0 else width f + offset fs g

variable {width}

/-- A field is read where it was written, whatever follows the record. -/
theorem bytesAt_pack {v : κ → List UInt8} {fs : List κ}
    (hfits : Fits width v fs) {f : κ} (h : f ∈ fs) (rest : List UInt8) :
    bytesAt (pack v fs ++ rest) (offset width fs f) (width f) = v f := by
  induction fs with
  | nil => cases h
  | cons g fs ih =>
      have hg := hfits g List.mem_cons_self
      unfold offset
      split
      case isTrue heq =>
        subst heq
        unfold bytesAt
        rw [List.drop_zero, pack_cons, List.append_assoc, ← hg, List.take_left]
      case isFalse hne =>
        rw [← ih hfits.tail (List.mem_of_ne_of_mem hne h)]
        unfold bytesAt
        rw [pack_cons, List.append_assoc, ← hg, ← List.drop_drop,
          List.drop_left]

end Offset

-- ========================================================= optional fields

/-- The fields of one byte of bits whose bit is set, in the order of the
table. -/
def chosenOf (table : List (UInt8 × κ)) (bits : UInt8) : List κ :=
  (table.filter fun e => bits &&& e.1 ≠ 0).map Prod.snd

/-- The fields of some bytes of bits. -/
def chosen : List (List (UInt8 × κ)) → List UInt8 → List κ
  | table :: tables, bits :: rest => chosenOf table bits ++ chosen tables rest
  | _, _ => []

/-- The bits of some fields. -/
def mask [DecidableEq κ] (table : List (UInt8 × κ)) (fs : List κ) : UInt8 :=
  table.foldr (fun e bits => if e.2 ∈ fs then e.1 ||| bits else bits) 0

end Record

end TradingEngine.Lib
