/-
`core/MappedRing.hpp`, `core/MappedRing.cpp`: a ring of bytes that a file
backs, mapped twice in a row, so that what goes on past the end of the
first mapping goes on at its beginning.

An address is its distance from `m_address`. Both mappings are of the same
bytes: the byte at a distance below twice the capacity is the one at the
distance modulo the capacity.

A caller writes at `write_address` and then advances, and the same with
reads; each pair is one operation here.
-/
import TradingEngine.Lib.Bytes
import TradingEngine.Lib.Ring

namespace TradingEngine.Core

open Lib (Extent)

/-- `MappedRingBase`. -/
structure MappedRing where
  /-- `order`, of the constructor: a shift by more is undefined. -/
  order : Fin 64
  /-- The bytes of the file. -/
  memory : Nat → UInt8
  writeOffsetBytes : UInt64
  readOffsetBytes : UInt64

namespace MappedRing

/-- `MappedRingBase::MappedRingBase`, over what the file holds. -/
def create (order : Fin 64) (memory : Nat → UInt8) : MappedRing where
  order
  memory
  writeOffsetBytes := 0
  readOffsetBytes := 0

def capacity (ring : MappedRing) : UInt64 := 1 <<< ring.order.val.toUInt64

def size (ring : MappedRing) : UInt64 :=
  ring.writeOffsetBytes - ring.readOffsetBytes

def free (ring : MappedRing) : Int64 :=
  (ring.capacity - ring.size).toInt64

def writeAdvance (ring : MappedRing) (count : UInt64) : MappedRing :=
  { ring with writeOffsetBytes := ring.writeOffsetBytes + count }

/-- `read_advance`, less its assertion. -/
def readAdvance (ring : MappedRing) (count : UInt64) : MappedRing :=
  let ring := { ring with readOffsetBytes := ring.readOffsetBytes + count }
  if ring.readOffsetBytes ≥ ring.capacity then
    { ring with
      readOffsetBytes := ring.readOffsetBytes - ring.capacity
      writeOffsetBytes := ring.writeOffsetBytes - ring.capacity }
  else ring

/-- `assert(m_read_offset_bytes <= m_write_offset_bytes)`. -/
def ReadAdvanceAssert (ring : MappedRing) (count : UInt64) : Prop :=
  (ring.readAdvance count).readOffsetBytes
    ≤ (ring.readAdvance count).writeOffsetBytes

def clear (ring : MappedRing) : MappedRing :=
  { ring with readOffsetBytes := 0, writeOffsetBytes := 0 }

/-- What the caller copies to `write_address`. -/
def writeBytes (ring : MappedRing) (bytes : List UInt8) : MappedRing :=
  { ring with
    memory := Lib.Ring.store ring.memory ring.capacity.toNat
      ring.writeOffsetBytes.toNat bytes }

/-- What it finds at `read_address`. -/
def readBytes (ring : MappedRing) (count : UInt64) : List UInt8 :=
  Lib.Ring.load ring.memory ring.capacity.toNat ring.readOffsetBytes.toNat
    count.toNat

end MappedRing

-- ==================================================================== usage

namespace MappedRing

/-- What callers do with a ring. -/
inductive Op
  | write (bytes : List UInt8)
  | read (count : UInt64)
  | clear

/-- At most `free()` bytes are written, and at most `size()` are read. -/
def Admissible (ring : MappedRing) : Op → Prop
  | .write bytes => (bytes.length : Int) ≤ ring.free.toInt
  | .read count => count ≤ ring.size
  | .clear => True

instance (ring : MappedRing) :
    (op : Op) → Decidable (Admissible ring op)
  | .write _ => inferInstanceAs (Decidable (_ ≤ _))
  | .read _ => inferInstanceAs (Decidable (_ ≤ _))
  | .clear => .isTrue trivial

/-- The bytes that an operation touches, from `m_address` on. -/
def accesses (ring : MappedRing) : Op → List Extent
  | .write bytes => [⟨ring.writeOffsetBytes.toNat, bytes.length⟩]
  | .read count => [⟨ring.readOffsetBytes.toNat, count.toNat⟩]
  | .clear => []

end MappedRing

/-- A ring, and the bytes that went through it since it was cleared. -/
structure RingTraffic where
  ring : MappedRing
  written : List UInt8
  read : List UInt8

namespace RingTraffic

open MappedRing (Op)

def start (ring : MappedRing) : RingTraffic := ⟨ring, [], []⟩

def step (t : RingTraffic) : Op → RingTraffic
  | .write bytes =>
      { t with
        ring := (t.ring.writeBytes bytes).writeAdvance bytes.length.toUInt64
        written := t.written ++ bytes }
  | .read count =>
      { t with
        ring := t.ring.readAdvance count
        read := t.read ++ t.ring.readBytes count }
  | .clear => ⟨t.ring.clear, [], []⟩

end RingTraffic

end TradingEngine.Core
