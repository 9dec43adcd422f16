/-
A mapped ring is a queue.

The offsets are rebased when the read offset reaches the capacity, so it
stays below, and the write offset stays within a capacity of it: neither
wraps, whatever the order. `content` is what lies between them. A write
appends to it (`content_afterWrite`), since what is free is behind it in the
same window, and a read takes its beginning (`content_read`), whether or
not the offsets are rebased: places a capacity apart are the same.

# Runs

`Fifo` is the invariant: a ring in bounds whose content is what was written
and not read. An operation is admissible if it asks for no more than `size`
or `free`, which is what every caller does first, and an admissible one keeps
the invariant (`fifo_step`) and stays in the two mappings, of which the
second is the first again. The counters have 64 bits, and nowhere is a bound
on the traffic: what is rebased never gets far.
-/
import TradingEngine.Core.MappedRing
import TradingEngine.Lib.Run

namespace TradingEngine.Core

namespace MappedRing

-- =================================================================== offsets

/-- The capacity as a number: a power of two. -/
theorem toNat_capacity (ring : MappedRing) :
    ring.capacity.toNat = 2 ^ ring.order.val := by
  have horder := ring.order.isLt
  have hpow : 2 ^ ring.order.val < 2 ^ 64 :=
    Nat.pow_lt_pow_right (by decide) horder
  have hshift : ring.order.val.toUInt64.toNat = ring.order.val :=
    UInt64.toNat_ofNat_of_lt' (Nat.lt_trans horder (by decide))
  have hone : (1 : UInt64).toNat = 1 := rfl
  unfold capacity
  rw [UInt64.toNat_shiftLeft, hshift, hone, Nat.mod_eq_of_lt horder,
    Nat.one_shiftLeft, Nat.mod_eq_of_lt hpow]

/-- Twice the capacity is not more than an offset can count. -/
theorem capacity_le (ring : MappedRing) :
    0 < ring.capacity.toNat ∧ ring.capacity.toNat ≤ 2 ^ 63 := by
  have horder := ring.order.isLt
  rw [toNat_capacity]
  exact ⟨Nat.two_pow_pos _, Nat.pow_le_pow_right (by decide) (by omega)⟩

/-- The read offset is in the first mapping, and the write offset at most a
capacity ahead. -/
structure Valid (ring : MappedRing) : Prop where
  read_lt : ring.readOffsetBytes.toNat < ring.capacity.toNat
  read_le : ring.readOffsetBytes.toNat ≤ ring.writeOffsetBytes.toNat
  write_le : ring.writeOffsetBytes.toNat
    ≤ ring.readOffsetBytes.toNat + ring.capacity.toNat

/-- The size is the distance of the offsets, which do not wrap. -/
theorem Valid.toNat_size {ring : MappedRing} (h : Valid ring) :
    ring.size.toNat
      = ring.writeOffsetBytes.toNat - ring.readOffsetBytes.toNat :=
  UInt64.toNat_sub_of_le _ _ (UInt64.le_iff_toNat_le.mpr h.read_le)

/-- What is free, as a signed number, is never more than what is not in
use. -/
theorem Valid.free_le {ring : MappedRing} (h : Valid ring) :
    ring.free.toInt ≤ ring.readOffsetBytes.toNat + ring.capacity.toNat
      - ring.writeOffsetBytes.toNat := by
  have hread := h.read_le
  have hwrite := h.write_le
  have hsize := h.toNat_size
  have hfree : (ring.capacity - ring.size).toNat
      = ring.capacity.toNat - ring.size.toNat :=
    UInt64.toNat_sub_of_le _ _ (UInt64.le_iff_toNat_le.mpr (by omega))
  have hsigned : ring.free.toInt ≤ (ring.capacity - ring.size).toNat := by
    show (ring.capacity - ring.size).toBitVec.toInt ≤ _
    rw [BitVec.toInt_eq_toNat_cond, UInt64.toNat_toBitVec]
    split <;> omega
  omega

-- =================================================================== content

/-- The bytes between the offsets. -/
def content (ring : MappedRing) : List UInt8 :=
  Lib.Ring.load ring.memory ring.capacity.toNat ring.readOffsetBytes.toNat
    (ring.writeOffsetBytes.toNat - ring.readOffsetBytes.toNat)

/-- The content, by the offsets. -/
theorem content_eq {ring : MappedRing} {n : Nat}
    (hn : ring.writeOffsetBytes.toNat = ring.readOffsetBytes.toNat + n) :
    ring.content = Lib.Ring.load ring.memory ring.capacity.toNat
      ring.readOffsetBytes.toNat n := by
  unfold content
  rw [hn, Nat.add_sub_cancel_left]

/-- A write that is let through. -/
def afterWrite (ring : MappedRing) (bytes : List UInt8) : MappedRing :=
  (ring.writeBytes bytes).writeAdvance bytes.length.toUInt64

section Write

variable {ring : MappedRing} {bytes : List UInt8} (h : Valid ring)
  (hfree : (bytes.length : Int) ≤ ring.free.toInt)

include h hfree

/-- What is let through fits behind the content, in the window. -/
theorem write_fits :
    ring.writeOffsetBytes.toNat + bytes.length
      ≤ ring.readOffsetBytes.toNat + ring.capacity.toNat := by
  have hle := h.free_le
  omega

/-- The write offset does not wrap. -/
theorem toNat_writeOffset_afterWrite :
    (ring.afterWrite bytes).writeOffsetBytes.toNat
      = ring.writeOffsetBytes.toNat + bytes.length := by
  have hfits := write_fits h hfree
  have hread := h.read_lt
  have hcap := ring.capacity_le
  have hlength : bytes.length.toUInt64.toNat = bytes.length :=
    UInt64.toNat_ofNat_of_lt' (by show bytes.length < 2 ^ 64; omega)
  show (ring.writeOffsetBytes + bytes.length.toUInt64).toNat = _
  rw [UInt64.toNat_add, hlength]
  omega

/-- A write that fits keeps the offsets apart by a capacity at most. -/
theorem valid_afterWrite : Valid (ring.afterWrite bytes) := by
  have hoffset := toNat_writeOffset_afterWrite h hfree
  refine ⟨h.read_lt, ?_, ?_⟩
  · rw [hoffset]
    exact Nat.le_trans h.read_le (Nat.le_add_right _ _)
  · rw [hoffset]
    exact write_fits h hfree

/-- It is appended to the content. -/
theorem content_afterWrite :
    (ring.afterWrite bytes).content = ring.content ++ bytes := by
  have hfits := write_fits h hfree
  obtain ⟨n, hn⟩ := Nat.exists_eq_add_of_le h.read_le
  have hafter : (ring.afterWrite bytes).writeOffsetBytes.toNat
      = ring.readOffsetBytes.toNat + (n + bytes.length) := by
    rw [toNat_writeOffset_afterWrite h hfree, hn, Nat.add_assoc]
  rw [content_eq hn, content_eq hafter]
  show Lib.Ring.load (Lib.Ring.store ring.memory ring.capacity.toNat
      ring.writeOffsetBytes.toNat bytes) ring.capacity.toNat
      ring.readOffsetBytes.toNat (n + bytes.length) = _
  rw [hn]
  exact Lib.Ring.load_store_append (by omega) _ _

end Write

/-- A read keeps the capacity. -/
theorem capacity_readAdvance (ring : MappedRing) (count : UInt64) :
    (ring.readAdvance count).capacity = ring.capacity := by
  unfold readAdvance
  dsimp only
  split <;> rfl

/-- And the bytes. -/
theorem memory_readAdvance (ring : MappedRing) (count : UInt64) :
    (ring.readAdvance count).memory = ring.memory := by
  unfold readAdvance
  dsimp only
  split <;> rfl

section Read

variable {ring : MappedRing} {count : UInt64} (h : Valid ring)
  (hsize : count ≤ ring.size)

include h hsize

/-- What is read was written. -/
theorem read_fits :
    ring.readOffsetBytes.toNat + count.toNat
      ≤ ring.writeOffsetBytes.toNat := by
  have hle := UInt64.le_iff_toNat_le.mp hsize
  have hread := h.read_le
  rw [h.toNat_size] at hle
  omega

/-- A read advances the read offset, or it rebases both: by a capacity, and
by the same. -/
theorem readAdvance_offsets :
    ∃ turn, (turn = 0 ∨ turn = ring.capacity.toNat)
      ∧ (ring.readAdvance count).readOffsetBytes.toNat + turn
        = ring.readOffsetBytes.toNat + count.toNat
      ∧ (ring.readAdvance count).writeOffsetBytes.toNat + turn
        = ring.writeOffsetBytes.toNat
      ∧ (ring.readAdvance count).readOffsetBytes.toNat
        < ring.capacity.toNat := by
  have hfits := read_fits h hsize
  have hread := h.read_lt
  have hwrite := h.write_le
  have hlt := ring.writeOffsetBytes.toNat_lt
  have hsum : (ring.readOffsetBytes + count).toNat
      = ring.readOffsetBytes.toNat + count.toNat := by
    rw [UInt64.toNat_add]
    exact Nat.mod_eq_of_lt (by omega)
  unfold readAdvance
  dsimp only
  split
  case isTrue hge =>
    have hcap : ring.capacity.toNat ≤ (ring.readOffsetBytes + count).toNat :=
      UInt64.le_iff_toNat_le.mp hge
    refine ⟨ring.capacity.toNat, .inr rfl, ?_⟩
    have hr : (ring.readOffsetBytes + count - ring.capacity).toNat
        = (ring.readOffsetBytes + count).toNat - ring.capacity.toNat :=
      UInt64.toNat_sub_of_le _ _ hge
    have hw : (ring.writeOffsetBytes - ring.capacity).toNat
        = ring.writeOffsetBytes.toNat - ring.capacity.toNat :=
      UInt64.toNat_sub_of_le _ _ (UInt64.le_iff_toNat_le.mpr (by omega))
    refine ⟨?_, ?_, ?_⟩
    · show (ring.readOffsetBytes + count - ring.capacity).toNat + _ = _
      omega
    · show (ring.writeOffsetBytes - ring.capacity).toNat + _ = _
      omega
    · show (ring.readOffsetBytes + count - ring.capacity).toNat < _
      omega
  case isFalse hlt' =>
    have hcap : (ring.readOffsetBytes + count).toNat
        < ring.capacity.toNat :=
      UInt64.lt_iff_toNat_lt.mp (UInt64.not_le.mp hlt')
    exact ⟨0, .inl rfl, hsum, rfl, hcap⟩

/-- A read keeps the offsets in order, rebased or not. -/
theorem valid_readAdvance : Valid (ring.readAdvance count) := by
  obtain ⟨turn, -, hr, hw, hlt⟩ := readAdvance_offsets h hsize
  have hfits := read_fits h hsize
  have hwrite := h.write_le
  have hcap := ring.capacity_readAdvance count
  refine ⟨?_, ?_, ?_⟩
  · rw [hcap]
    exact hlt
  · omega
  · rw [hcap]
    omega

/-- A read returns the beginning of the content and leaves the rest. -/
theorem content_read :
    ring.content
      = ring.readBytes count ++ (ring.readAdvance count).content := by
  obtain ⟨turn, hturn, hr, hw, -⟩ := readAdvance_offsets h hsize
  obtain ⟨n, hn⟩ := Nat.exists_eq_add_of_le (read_fits h hsize)
  have hafter : (ring.readAdvance count).writeOffsetBytes.toNat
      = (ring.readAdvance count).readOffsetBytes.toNat + n := by omega
  rw [Nat.add_assoc] at hn
  rw [content_eq hn, content_eq hafter, Lib.Ring.load_add,
    memory_readAdvance, capacity_readAdvance, ← hr]
  unfold readBytes
  rcases hturn with rfl | rfl
  · rw [Nat.add_zero]
  · rw [Lib.Ring.load_add_cap]

end Read

end MappedRing

-- ===================================================================== a run

namespace RingTraffic

open MappedRing (Op Valid Admissible accesses ReadAdvanceAssert)

/-- A ring in bounds that holds what was written and not read, in order. -/
structure Fifo (t : RingTraffic) : Prop where
  valid : Valid t.ring
  queue : t.read ++ t.ring.content = t.written

/-- A new ring is empty. -/
theorem fifo_create (order : Fin 64) (memory : Nat → UInt8) :
    Fifo (start (MappedRing.create order memory)) :=
  ⟨⟨(MappedRing.capacity_le _).1, le_rfl, Nat.zero_le _⟩, rfl⟩

/-- The step lemma: what was written is what was read and what is in the ring. -/
theorem fifo_step {t : RingTraffic} {op : Op} (h : Fifo t)
    (hop : Admissible t.ring op) : Fifo (t.step op) := by
  cases op with
  | write bytes =>
      have hcontent := MappedRing.content_afterWrite h.valid hop
      refine ⟨MappedRing.valid_afterWrite h.valid hop, ?_⟩
      show t.read ++ (t.ring.afterWrite bytes).content = t.written ++ bytes
      rw [hcontent, ← List.append_assoc, h.queue]
  | read count =>
      have hcontent := MappedRing.content_read h.valid hop
      refine ⟨MappedRing.valid_readAdvance h.valid hop, ?_⟩
      show t.read ++ t.ring.readBytes count
        ++ (t.ring.readAdvance count).content = t.written
      rw [List.append_assoc, ← hcontent, h.queue]
  | clear =>
      exact ⟨⟨(MappedRing.capacity_le _).1, le_rfl, Nat.zero_le _⟩, rfl⟩

/-- What an operation touches is mapped. -/
theorem accesses_within {t : RingTraffic} {op : Op} (h : Fifo t)
    (hop : Admissible t.ring op) :
    ∀ e ∈ accesses t.ring op, e.Within (2 * t.ring.capacity.toNat) := by
  have hread := h.valid.read_lt
  have hwrite := h.valid.write_le
  intro e he
  cases op with
  | write bytes =>
      have hfits := MappedRing.write_fits h.valid hop
      rw [List.mem_singleton.mp he]
      show t.ring.writeOffsetBytes.toNat + bytes.length ≤ _
      omega
  | read count =>
      have hfits := MappedRing.read_fits h.valid hop
      rw [List.mem_singleton.mp he]
      show t.ring.readOffsetBytes.toNat + count.toNat ≤ _
      omega
  | clear => cases he

/-- An operation is safe: it stays in the mappings, and the assertion
holds. -/
structure Safe (t : RingTraffic) (op : Op) : Prop where
  within : ∀ e ∈ accesses t.ring op, e.Within (2 * t.ring.capacity.toNat)
  assertion : ∀ count, op = .read count → t.ring.ReadAdvanceAssert count

/-- Traffic that asks `size` and `free` first goes through. -/
theorem safe_of_admissible {t : RingTraffic} {op : Op} (h : Fifo t)
    (hop : Admissible t.ring op) : Safe t op := by
  refine ⟨accesses_within h hop, ?_⟩
  rintro count rfl
  exact UInt64.le_iff_toNat_le.mpr
    (MappedRing.valid_readAdvance h.valid hop).read_le

/-- However it is used, within what is free and what is there, a mapped
ring is a queue: the offsets stay in bounds, what was read and what is in
the ring are what was written since it was cleared, in order, and no
operation leaves the mappings. -/
theorem ring_is_fifo (order : Fin 64) (memory : Nat → UInt8)
    (ops : List Op)
    (h : Lib.Admits step (fun t op => Admissible t.ring op)
      (start (MappedRing.create order memory)) ops) :
    let t := Lib.run step (start (MappedRing.create order memory)) ops
    t.ring.readOffsetBytes < t.ring.capacity
    ∧ t.ring.readOffsetBytes ≤ t.ring.writeOffsetBytes
    ∧ t.ring.writeOffsetBytes.toNat
      ≤ t.ring.readOffsetBytes.toNat + t.ring.capacity.toNat
    ∧ t.read ++ t.ring.content = t.written
    ∧ Lib.Admits step Safe (start (MappedRing.create order memory)) ops := by
  have hfifo : Fifo (Lib.run step (start (MappedRing.create order memory))
      ops) :=
    Lib.run_invariant (fun _ _ => fifo_step) (fifo_create order memory) h
  refine ⟨UInt64.lt_iff_toNat_lt.mpr hfifo.valid.read_lt,
    UInt64.le_iff_toNat_le.mpr hfifo.valid.read_le, hfifo.valid.write_le,
    hfifo.queue, ?_⟩
  exact Lib.Admits.mono_of (fun _ _ => fifo_step)
    (fun _ _ => safe_of_admissible) (fifo_create order memory) h

/-- A ring of four bytes, around the end and cleared. -/
theorem ring_is_fifo_wrapped :
    let t := Lib.run step (start (MappedRing.create 2 fun _ => 0))
      [.write [1, 2, 3], .read 2, .write [4, 5, 6], .read 3, .write [7]]
    t.read ++ t.ring.content = t.written ∧ t.read = [1, 2, 3, 4, 5] :=
  ⟨(ring_is_fifo 2 (fun _ => 0)
    [.write [1, 2, 3], .read 2, .write [4, 5, 6], .read 3, .write [7]]
    (by decide)).2.2.2.1, by decide⟩

end RingTraffic

end TradingEngine.Core
