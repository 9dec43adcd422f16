/-
Numbers on the wire, read at an offset, and what of a buffer is read.

# Reading

A number at an offset of a buffer that is too short is made of zeros where
there are no bytes, so the readers are total, and what a program may read is
a matter of its own. The lemmas say when a reading does not depend on what
follows in the buffer.

# Extents

What is read is recorded as an `Extent`, an offset and a size. A list of them
lies within a buffer if its `reach` does.
-/
import Mathlib.Data.List.GetD

namespace TradingEngine.Lib

/-- The byte at an offset; a reader checks that it is there first. -/
def byteAt (bs : List UInt8) (i : Nat) : UInt8 := bs.getD i 0

/-- Two bytes, the most significant first. -/
def be16 (bs : List UInt8) (i : Nat) : Nat :=
  256 * (byteAt bs i).toNat + (byteAt bs (i + 1)).toNat

/-- Four bytes, the most significant first. -/
def be32 (bs : List UInt8) (i : Nat) : Nat :=
  65536 * be16 bs i + be16 bs (i + 2)

/-- Eight bytes, the most significant first. -/
def be64 (bs : List UInt8) (i : Nat) : Nat :=
  4294967296 * be32 bs i + be32 bs (i + 4)

/-- The `n` bytes from an offset on. -/
def bytesAt (bs : List UInt8) (i n : Nat) : List UInt8 :=
  (bs.drop i).take n

/-- Two bytes, the least significant first. -/
def le16 (bs : List UInt8) (i : Nat) : Nat :=
  (byteAt bs i).toNat + 256 * (byteAt bs (i + 1)).toNat

/-- Four bytes, the least significant first. -/
def le32 (bs : List UInt8) (i : Nat) : Nat :=
  le16 bs i + 65536 * le16 bs (i + 2)

/-- A number in `width` bytes, the least significant first. -/
def leBytes : Nat → Nat → List UInt8
  | 0, _ => []
  | width + 1, n => .ofNat n :: leBytes width (n / 256)

/-- A number takes as many bytes as it is given. -/
@[simp] theorem length_leBytes (width n : Nat) :
    (leBytes width n).length = width := by
  induction width generalizing n with
  | zero => rfl
  | succ width ih => rw [leBytes, List.length_cons, ih]

/-- Two bytes are a number of 16 bits. -/
theorem be16_lt (bs : List UInt8) (i : Nat) : be16 bs i < 65536 := by
  have hhigh := (byteAt bs i).toNat_lt
  have hlow := (byteAt bs (i + 1)).toNat_lt
  unfold be16
  omega

/-- A counter of 32 bits that is not at its end. -/
theorem toNat_add_one {n : UInt32} (h : n.toNat < 4294967295) :
    (n + 1).toNat = n.toNat + 1 := by
  have hadd := UInt32.toNat_add n 1
  have hone : (1 : UInt32).toNat = 1 := rfl
  rw [hone] at hadd
  omega

/-- What follows does not change a byte. -/
theorem byteAt_append {bs : List UInt8} {i : Nat} (h : i < bs.length)
    (cs : List UInt8) : byteAt (bs ++ cs) i = byteAt bs i :=
  List.getD_append bs cs 0 i h

/-- Nor a number. -/
theorem be16_append {bs : List UInt8} {i : Nat} (h : i + 1 < bs.length)
    (cs : List UInt8) : be16 (bs ++ cs) i = be16 bs i := by
  unfold be16
  rw [byteAt_append (by omega), byteAt_append h]

/-- In either order. -/
theorem le16_append {bs : List UInt8} {i : Nat} (h : i + 1 < bs.length)
    (cs : List UInt8) : le16 (bs ++ cs) i = le16 bs i := by
  unfold le16
  rw [byteAt_append (by omega), byteAt_append h]

/-- Two beginnings of one stream agree where both have the bytes. -/
theorem le16_of_append_eq {bs cs bs' cs' : List UInt8} {i : Nat}
    (hi : i + 1 < bs.length) (hi' : i + 1 < bs'.length)
    (h : bs ++ cs = bs' ++ cs') : le16 bs i = le16 bs' i := by
  rw [← le16_append hi cs, h, le16_append hi' cs']

/-- The bytes from `start` on that a read touches. -/
structure Extent where
  start : Nat
  size : Nat
  deriving DecidableEq, Repr

namespace Extent

/-- Nothing at or past the end of a buffer of `len` bytes. -/
def Within (len : Nat) (e : Extent) : Prop := e.start + e.size ≤ len

instance (len : Nat) (e : Extent) : Decidable (e.Within len) :=
  inferInstanceAs (Decidable (_ ≤ _))

/-- The same read, of a buffer that begins `n` bytes earlier. -/
def shift (n : Nat) (e : Extent) : Extent := ⟨n + e.start, e.size⟩

/-- What is in the rest of a buffer is in the buffer. -/
theorem shift_within_iff {n len : Nat} (hn : n ≤ len) (e : Extent) :
    (e.shift n).Within len ↔ e.Within (len - n) := by
  unfold shift Within
  dsimp only
  omega

/-- A longer buffer has room for the same. -/
theorem Within.mono {len len' : Nat} (h : len ≤ len') {e : Extent}
    (he : e.Within len) : e.Within len' :=
  Nat.le_trans he h

/-- Where the last of some reads ends. -/
def reach (es : List Extent) : Nat :=
  es.foldr (fun e r => max (e.start + e.size) r) 0

/-- No extent ends behind the reach. -/
theorem le_reach {es : List Extent} {e : Extent} (he : e ∈ es) :
    e.start + e.size ≤ reach es := by
  induction es with
  | nil => cases he
  | cons e' es ih =>
      rw [reach, List.foldr_cons, ← reach]
      cases he with
      | head => exact Nat.le_max_left _ _
      | tail _ he => exact Nat.le_trans (ih he) (Nat.le_max_right _ _)

/-- And one of them ends there. -/
theorem exists_reach {es : List Extent} (h : es ≠ []) :
    ∃ e ∈ es, e.start + e.size = reach es := by
  induction es with
  | nil => exact absurd rfl h
  | cons e es ih =>
      rw [reach, List.foldr_cons, ← reach]
      by_cases hle : reach es ≤ e.start + e.size
      · exact ⟨e, List.mem_cons_self, (Nat.max_eq_left hle).symm⟩
      · have hes : es ≠ [] := by
          rintro rfl
          exact hle (Nat.zero_le _)
        obtain ⟨e', he', hreach⟩ := ih hes
        exact ⟨e', List.mem_cons_of_mem e he', by omega⟩

end Extent

end TradingEngine.Lib
