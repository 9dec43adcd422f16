/-
Frames of LZ4 blocks that are stored as they are, and a decoder for them.

It goes through the stages of `LZ4F_decompress`, and asks for the sizes that
it asks for. A block that is compressed is an error here, and the checksums
are taken and not looked at. It is a correct decoder, as any machine that
takes its input one by one is, and it gives the content of `storedFrame`.
-/
import Mathlib.Data.List.Basic
import TradingEngine.Core.LZ4

namespace TradingEngine.Core.LZ4

open Lib.Streaming (Transducer)

/-- `dStage`, with what of it has been read, or is left. -/
inductive FrameStage
  | header (read : List UInt8)
  | blockHeader (checksum : Bool) (read : List UInt8)
  | copyDirect (checksum : Bool) (left : Nat)
  | suffix (left : Nat)
  deriving DecidableEq

namespace FrameStage

/-- A header of seven bytes: the magic number, and a descriptor without
block checksums, content size and dictionary. -/
def afterHeader (read : List UInt8) : Option FrameStage :=
  if Lib.le32 read 0 = 0x184D2204 ∧ Lib.byteAt read 4 &&& 0xDB = 0x40 then
    some (.blockHeader (Lib.byteAt read 4 &&& 0x04 ≠ 0) [])
  else none

/-- A block of a size, or the end mark. -/
def afterBlockHeader (checksum : Bool) (size : Nat) : Option FrameStage :=
  if size = 0 then
    some (if checksum then .suffix 4 else .header [])
  else if size < 0x80000000 then none
  else if size = 0x80000000 then some (.blockHeader checksum [])
  else some (.copyDirect checksum (size - 0x80000000))

def step : FrameStage → UInt8 → Option (FrameStage × Option UInt8)
  | header read, b =>
      if read.length < 6 then some (.header (read ++ [b]), none)
      else (afterHeader (read ++ [b])).map (·, none)
  | blockHeader checksum read, b =>
      if read.length < 3 then some (.blockHeader checksum (read ++ [b]), none)
      else
        (afterBlockHeader checksum (Lib.le32 (read ++ [b]) 0)).map (·, none)
  | copyDirect checksum left, b =>
      if left ≤ 1 then some (.blockHeader checksum [], some b)
      else some (.copyDirect checksum (left - 1), some b)
  | suffix left, _ =>
      if left ≤ 1 then some (.header [], none)
      else some (.suffix (left - 1), none)

/-- `nextSrcSizeHint`: the rest of what is read, and the header after it. -/
def hint : FrameStage → Nat
  | header [] => 0
  | header read => 7 - read.length + 4
  | blockHeader _ read => 4 - read.length
  | copyDirect _ left => left + 4
  | suffix left => left

end FrameStage

/-- The decoder; a file ends with a frame. -/
def storedBlocks : Transducer FrameStage UInt8 UInt8 where
  step := FrameStage.step
  hint := FrameStage.hint
  ended := (· = .header [])

/-- A frame of one block, with a checksum of the content at its end. -/
def storedFrame (content digest : List UInt8) : List UInt8 :=
  [0x04, 0x22, 0x4D, 0x18, 0x64, 0x40, 0xA7]
    ++ (Lib.leBytes 4 (0x80000000 + content.length)
      ++ (content ++ ([0, 0, 0, 0] ++ digest)))

theorem le32_leBytes {n : Nat} (h : n < 0x100000000) :
    Lib.le32 (Lib.leBytes 4 n) 0 = n := by
  show (UInt8.ofNat n).toNat + 256 * (UInt8.ofNat (n / 256)).toNat
    + 65536 * ((UInt8.ofNat (n / 256 / 256)).toNat
      + 256 * (UInt8.ofNat (n / 256 / 256 / 256)).toNat) = n
  rw [UInt8.toNat_ofNat', UInt8.toNat_ofNat', UInt8.toNat_ofNat',
    UInt8.toNat_ofNat']
  omega

/-- The content of a block. -/
theorem outputs_copyDirect (checksum : Bool) {content : List UInt8}
    (hne : content ≠ []) (later : List UInt8) :
    storedBlocks.outputs (.copyDirect checksum content.length)
        (content ++ later)
      = (storedBlocks.outputs (.blockHeader checksum []) later).map
        (content ++ ·) := by
  induction content with
  | nil => exact absurd rfl hne
  | cons b bs ih =>
      cases bs with
      | nil => exact Transducer.outputs_gives rfl later
      | cons b' bs =>
          have hstep : storedBlocks.step
              (.copyDirect checksum (b :: b' :: bs).length) b
                = some (.copyDirect checksum (b' :: bs).length, some b) := rfl
          rw [List.cons_append, Transducer.outputs_gives hstep,
            ih (List.cons_ne_nil _ _), Option.map_map]
          rfl

/-- The four bytes of a block header. -/
theorem outputs_blockHeader {checksum : Bool} {b₀ b₁ b₂ b₃ : UInt8}
    {stage : FrameStage} (h : FrameStage.afterBlockHeader checksum
      (Lib.le32 [b₀, b₁, b₂, b₃] 0) = some stage) (later : List UInt8) :
    storedBlocks.outputs (.blockHeader checksum [])
        (b₀ :: b₁ :: b₂ :: b₃ :: later)
      = storedBlocks.outputs stage later := by
  have hread (read : List UInt8) (b : UInt8) (h : read.length < 3) :
      storedBlocks.step (.blockHeader checksum read) b
        = some (.blockHeader checksum (read ++ [b]), none) := if_pos h
  have hlast : storedBlocks.step (.blockHeader checksum [b₀, b₁, b₂]) b₃
      = some (stage, none) := congrArg (Option.map (·, none)) h
  calc storedBlocks.outputs (.blockHeader checksum [])
          (b₀ :: b₁ :: b₂ :: b₃ :: later)
      = storedBlocks.outputs (.blockHeader checksum [b₀])
          (b₁ :: b₂ :: b₃ :: later) :=
        Transducer.outputs_silent (hread [] b₀ (show 0 < 3 by decide)) _
    _ = storedBlocks.outputs (.blockHeader checksum [b₀, b₁])
          (b₂ :: b₃ :: later) :=
        Transducer.outputs_silent (hread [b₀] b₁ (show 1 < 3 by decide)) _
    _ = storedBlocks.outputs (.blockHeader checksum [b₀, b₁, b₂])
          (b₃ :: later) :=
        Transducer.outputs_silent (hread [b₀, b₁] b₂ (show 2 < 3 by decide)) _
    _ = storedBlocks.outputs stage later :=
        Transducer.outputs_silent hlast later

/-- A block header, and the block. -/
theorem outputs_block (checksum : Bool) {content : List UInt8}
    (hsize : content.length < 0x80000000) (later : List UInt8) :
    storedBlocks.outputs (.blockHeader checksum [])
        (Lib.leBytes 4 (0x80000000 + content.length) ++ (content ++ later))
      = (storedBlocks.outputs (.blockHeader checksum []) later).map
        (content ++ ·) := by
  have hvalue := le32_leBytes
    (show 0x80000000 + content.length < 0x100000000 by omega)
  cases content with
  | nil =>
      have hsame : (storedBlocks.outputs (.blockHeader checksum []) later).map
          ([] ++ ·) = storedBlocks.outputs (.blockHeader checksum []) later :=
        congrFun Option.map_id _
      rw [hsame]
      exact outputs_blockHeader (congrArg _ hvalue) later
  | cons b bs =>
      have hafter : FrameStage.afterBlockHeader checksum
          (0x80000000 + (b :: bs).length)
            = some (.copyDirect checksum (b :: bs).length) := by
        unfold FrameStage.afterBlockHeader
        rw [List.length_cons, if_neg (by omega), if_neg (by omega),
          if_neg (by omega), Nat.add_sub_cancel_left]
      rw [← outputs_copyDirect checksum (List.cons_ne_nil b bs)]
      exact outputs_blockHeader ((congrArg _ hvalue).trans hafter) _

/-- Bytes of a frame header that are not the last. -/
theorem outputs_header {read bytes : List UInt8}
    (h : read.length + bytes.length ≤ 6) (later : List UInt8) :
    storedBlocks.outputs (.header read) (bytes ++ later)
      = storedBlocks.outputs (.header (read ++ bytes)) later := by
  induction bytes generalizing read with
  | nil => rw [List.append_nil, List.nil_append]
  | cons b bs ih =>
      rw [List.length_cons] at h
      have hstep : storedBlocks.step (.header read) b
          = some (.header (read ++ [b]), none) := if_pos (by omega)
      rw [List.cons_append, Transducer.outputs_silent hstep,
        ih (by rw [List.length_append, List.length_singleton]; omega),
        List.append_assoc, List.singleton_append]

/-- The decoder reads the content of a frame. -/
theorem outputs_storedFrame {content digest : List UInt8}
    (hsize : content.length < 0x80000000) (hdigest : digest.length = 4) :
    storedBlocks.outputs (.header []) (storedFrame content digest)
      = some content := by
  have hlast : storedBlocks.step
      (.header [0x04, 0x22, 0x4D, 0x18, 0x64, 0x40]) 0xA7
        = some (.blockHeader true [], none) := by
    decide
  have hheader : storedBlocks.outputs (.header []) (storedFrame content digest)
      = storedBlocks.outputs (.blockHeader true [])
        (Lib.leBytes 4 (0x80000000 + content.length)
          ++ (content ++ ([0, 0, 0, 0] ++ digest))) := by
    have hbytes : ([] : List UInt8).length
        + [0x04, 0x22, 0x4D, 0x18, 0x64, (0x40 : UInt8)].length ≤ 6 := by
      decide
    exact (outputs_header hbytes (0xA7 :: _)).trans
      (Transducer.outputs_silent hlast _)
  have hend : storedBlocks.outputs (.blockHeader true [])
      ([0, 0, 0, 0] ++ digest) = some [] := by
    obtain ⟨b₀, b₁, b₂, b₃, rfl⟩ := List.length_eq_four.mp hdigest
    have hmark : FrameStage.afterBlockHeader true (Lib.le32 [0, 0, 0, 0] 0)
        = some (.suffix 4) := by
      decide
    exact outputs_blockHeader hmark [b₀, b₁, b₂, b₃]
  rw [hheader, outputs_block true hsize, hend]
  exact congrArg some (List.append_nil content)

end TradingEngine.Core.LZ4
