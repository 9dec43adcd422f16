/-
Values in memory: how many bytes a type takes, and what they are.

A codec writes every value in the same number of bytes, and reads back what
it has written as long as the type can hold the value (`Holds`): a number
that fits its width, an array of its length. Packed structs are made from
the codecs of their members (`prod`), and then read and written under their
own names (`via`).

# Instances

Numbers with and without a sign, doubles and arrays of bytes are codecs, with
the width as parameter where they have one. Each carries the proof that it
reads back what it writes, so that a struct made of them needs none of its
own: `read_encode` holds of it, wherever in a buffer it stands.
-/
import TradingEngine.Lib.Binary64
import TradingEngine.Lib.Record

namespace TradingEngine.Lib

/-- A type whose values take `size` bytes. -/
structure Codec (α : Type*) where
  size : Nat
  Holds : α → Prop
  encode : α → List UInt8
  decode : List UInt8 → α
  length_encode (a : α) : (encode a).length = size
  decode_encode {a : α} (h : Holds a) : decode (encode a) = a

namespace Codec

variable {α β γ : Type*}

/-- The value at an offset. -/
def read (c : Codec α) (bs : List UInt8) (i : Nat) : α :=
  c.decode (bytesAt bs i c.size)

/-- A value is read where it was written. -/
theorem read_encode (c : Codec α) {a : α} (h : c.Holds a)
    (before after : List UInt8) :
    c.read (before ++ c.encode a ++ after) before.length = a := by
  unfold read bytesAt
  rw [List.append_assoc, List.drop_left, ← c.length_encode a, List.take_left]
  exact c.decode_encode h

/-- A value is read back at the beginning. -/
theorem read_zero_encode (c : Codec α) {a : α} (h : c.Holds a)
    (after : List UInt8) : c.read (c.encode a ++ after) 0 = a :=
  c.read_encode h [] after

-- ================================================================= numbers

/-- An unsigned number, the least significant byte first. -/
def nat (width : Nat) : Codec Nat where
  size := width
  Holds n := n < 256 ^ width
  encode := leBytes width
  decode := leNat
  length_encode := length_leBytes width
  decode_encode := leNat_leBytes_of_lt

/-- A signed number, in two's complement. -/
def int (width : Nat) : Codec Int where
  size := width
  Holds z := -((256 ^ width : Nat) : Int) ≤ 2 * z
    ∧ 2 * z < ((256 ^ width : Nat) : Int)
  encode z := leBytes width (z % ((256 ^ width : Nat) : Int)).toNat
  decode bs :=
    if 2 * leNat bs < 256 ^ width then (leNat bs : Int)
    else leNat bs - ((256 ^ width : Nat) : Int)
  length_encode _ := length_leBytes width _
  decode_encode {z} h := by
    have hpos : 0 < 256 ^ width := Nat.pow_pos (by decide)
    revert hpos h
    generalize hm : 256 ^ width = m
    rintro ⟨hlow, hhigh⟩ hpos
    have hmod0 := Int.emod_nonneg z (b := (m : Int)) (by omega)
    have hmodlt := Int.emod_lt_of_pos z (b := (m : Int)) (by omega)
    have hread : leNat (leBytes width (z % (m : Int)).toNat)
        = (z % (m : Int)).toNat :=
      leNat_leBytes_of_lt (by rw [hm]; omega)
    rw [hread]
    by_cases hz : 0 ≤ z
    · have heq : z % (m : Int) = z := Int.emod_eq_of_lt hz (by omega)
      rw [heq, if_pos (by omega)]
      omega
    · have heq : z % (m : Int) = z + m := by
        rw [← Int.add_emod_right]
        exact Int.emod_eq_of_lt (by omega) (by omega)
      rw [heq, if_neg (by omega)]
      omega

/-- A `double`, by its bits. -/
def double : Codec Rat where
  size := 8
  Holds := Binary64.IsDouble
  encode q := leBytes 8 (Binary64.toBits q)
  decode bs := Binary64.ofBits (leNat bs)
  length_encode _ := length_leBytes 8 _
  decode_encode {q} h := by
    have hlt : Binary64.toBits q < 256 ^ 8 := Binary64.toBits_lt h
    rw [leNat_leBytes_of_lt hlt]
    exact Binary64.ofBits_toBits h

/-- An array of bytes. -/
def array (n : Nat) : Codec (List UInt8) where
  size := n
  Holds bs := bs.length = n
  encode bs := (bs ++ List.replicate n 0).take n
  decode bs := bs
  length_encode bs := by
    rw [List.length_take, List.length_append, List.length_replicate]
    omega
  decode_encode {bs} h := by rw [← h, List.take_left]

-- ================================================================= structs

/-- Two members, without a gap. -/
def prod (c : Codec α) (d : Codec β) : Codec (α × β) where
  size := c.size + d.size
  Holds p := c.Holds p.1 ∧ d.Holds p.2
  encode p := c.encode p.1 ++ d.encode p.2
  decode bs := (c.decode (bs.take c.size), d.decode (bs.drop c.size))
  length_encode p := by
    rw [List.length_append, c.length_encode, d.length_encode]
  decode_encode {p} h := by
    have hlength := c.length_encode p.1
    rw [List.take_left' hlength, List.drop_left' hlength,
      c.decode_encode h.1, d.decode_encode h.2]

/-- A type that is written as another one. -/
def via (c : Codec β) (f : α → β) (g : β → α) : Codec α where
  size := c.size
  Holds a := c.Holds (f a) ∧ g (f a) = a
  encode a := c.encode (f a)
  decode bs := g (c.decode bs)
  length_encode a := c.length_encode (f a)
  decode_encode {a} h := by rw [c.decode_encode h.1, h.2]

end Codec

end TradingEngine.Lib
