/-
Reading an LZ4 file to its end.

Reads up to the first that returns zero reproduce the content, and never
feed a byte again that was taken, exactly if each of them is clean
(`reproduces_iff`).

# Reads

The read itself is treated in the module before: one call returns what the
decoder gives until it gives nothing or the buffer is full, and it is clean
if nothing of that is held back. Here the calls are put one behind the other.
What was returned and what is left to the decoder are the content at all
times, and the first read that returns zero ends it. A read that is not clean
feeds bytes again that the decoder has taken already.
-/
import TradingEngine.Core.LZ4Frame
import TradingEngine.Core.Proofs.LZ4Read

namespace TradingEngine.Core.LZ4.FileReader

open Lib.Streaming (Correct Decoder Transducer)

variable {σ : Type}

-- ============================================================ what should be

section Runs

variable (decode : Decoder σ UInt8 UInt8) (file : List UInt8)

/-- Reads up to the first that returns zero. -/
def Complete (r : FileReader σ) : List Nat → Prop
  | [] => False
  | maxlen :: rest =>
      if (r.read decode file maxlen).ret = 0 then rest = []
      else Complete (r.read decode file maxlen).reader rest

/-- Each read is clean. -/
def CleanRun (content : List UInt8) (r : FileReader σ) : List Nat → Prop
  | [] => True
  | maxlen :: rest =>
      CleanRead file content r.calls (r.callsOf decode file maxlen)
      ∧ CleanRun content (r.read decode file maxlen).reader rest

instance decidableComplete (r : FileReader σ) :
    (reads : List Nat) → Decidable (Complete decode file r reads)
  | [] => .isFalse id
  | maxlen :: rest =>
      if h : (r.read decode file maxlen).ret = 0 then
        decidable_of_iff (rest = []) (by rw [Complete, if_pos h])
      else
        have := decidableComplete (r.read decode file maxlen).reader rest
        decidable_of_iff
          (Complete decode file (r.read decode file maxlen).reader rest)
          (by rw [Complete, if_neg h])

instance decidableCleanRun (content : List UInt8) (r : FileReader σ) :
    (reads : List Nat) → Decidable (CleanRun decode file content r reads)
  | [] => .isTrue trivial
  | maxlen :: rest =>
      have := decidableCleanRun content (r.read decode file maxlen).reader rest
      inferInstanceAs (Decidable (CleanRead file content r.calls
          (r.callsOf decode file maxlen)
        ∧ CleanRun decode file content (r.read decode file maxlen).reader
          rest))

/-- The reads return the content, and take each byte of the file once. -/
structure Reproduces (content : List UInt8) (r : FileReader σ)
    (reads : List Nat) : Prop where
  content : (r.readAll decode file reads).1 = content
  noRefeed : NoRefeed (r.readAll decode file reads).2.calls

end Runs

-- ============================================================ read after read

section Fed

variable (decode : Decoder σ UInt8 UInt8) (file : List UInt8)

theorem readAll_calls (r : FileReader σ) (reads : List Nat) :
    r.calls <+: (r.readAll decode file reads).2.calls := by
  induction reads generalizing r with
  | nil => exact List.prefix_rfl
  | cons maxlen rest ih =>
      exact (read_calls decode file r maxlen).trans (ih _)

/-- At the end nothing is read any more. -/
theorem readAll_end {r : FileReader σ} (h : file.length ≤ r.compressedOffset)
    (reads : List Nat) : r.readAll decode file reads = ([], r) := by
  induction reads with
  | nil => rfl
  | cons maxlen rest ih =>
      have hread : r.read decode file maxlen = ⟨0, [], r⟩ := if_pos h
      rw [readAll, hread, ih]
      rfl

/-- Reads from a stuck reader feed a byte again that was taken. -/
theorem Stuck.refeeds_readAll {r : FileReader σ} (h : Stuck file r)
    {reads : List Nat} (hpos : ∀ maxlen ∈ reads, 0 < maxlen)
    (hcomplete : Complete decode file r reads) :
    ¬NoRefeed (r.readAll decode file reads).2.calls := by
  cases reads with
  | nil => exact hcomplete.elim
  | cons maxlen rest =>
      intro hall
      obtain ⟨more, hmore⟩ := readAll_calls decode file
        (r.read decode file maxlen).reader rest
      have hfed := hall.sublist (hmore ▸ List.sublist_append_left _ more)
      exact h.refeeds decode file (hpos maxlen List.mem_cons_self) hfed

end Fed

-- ===================================================================== a file

section File

variable {decode : Decoder σ UInt8 UInt8}
  {Reads : σ → List UInt8 → List UInt8 → Prop}
  (hcorrect : Correct decode Reads) {file content returned : List UInt8}

include hcorrect

/-- From a good reader, clean reads bring the rest of the content, and
others do not. -/
theorem Good.reproduces_rest_iff {r : FileReader σ} {reads : List Nat}
    (h : Good Reads file content r returned)
    (hend : r.compressedOffset = file.length → returned = content)
    (hpos : ∀ maxlen ∈ reads, 0 < maxlen)
    (hcomplete : Complete decode file r reads) :
    (returned ++ (r.readAll decode file reads).1 = content
      ∧ NoRefeed (r.readAll decode file reads).2.calls)
    ↔ CleanRun decode file content r reads := by
  induction reads generalizing r returned with
  | nil => exact hcomplete.elim
  | cons maxlen rest ih =>
      have hrest := fun n hn => hpos n (List.mem_cons_of_mem _ hn)
      rw [readAll, CleanRun]
      rw [Complete] at hcomplete
      cases read_cases hcorrect h (hpos maxlen List.mem_cons_self) hend with
      | ended hret hbytes hfed hclean =>
          rw [if_pos hret] at hcomplete
          subst hcomplete
          rw [hbytes, hclean]
          constructor
          · intro hall
            exact ⟨(List.append_nil _).symm.trans hall.1, trivial⟩
          · intro hall
            exact ⟨(List.append_nil _).trans hall.1, hfed⟩
      | went hret _ hgood hclean =>
          rw [if_neg hret] at hcomplete
          rw [hclean]
          by_cases hlast : (r.read decode file maxlen).reader.compressedOffset
              = file.length →
            returned ++ (r.read decode file maxlen).bytes = content
          · rw [← List.append_assoc]
            have hnext := ih hgood hlast hrest hcomplete
            exact hnext.trans ⟨fun hclean => ⟨hlast, hclean⟩, And.right⟩
          · -- the end of the file, before the end of the content
            rw [Classical.not_imp] at hlast
            have hnothing := readAll_end decode file
              (Nat.le_of_eq hlast.1.symm) rest
            rw [hnothing, List.append_nil]
            exact ⟨fun hall => absurd hall.1 hlast.2,
              fun hclean => absurd (hclean.1 hlast.1) hlast.2⟩
      | stuck hret hstuck hclean =>
          rw [if_neg hret] at hcomplete
          have hrefeeds := hstuck.refeeds_readAll decode file hrest hcomplete
          exact ⟨fun hall => absurd hall.2 hrefeeds,
            fun hall => absurd hall.1 hclean⟩

/-- Clean reads come to an end. -/
theorem Good.exists_complete {r : FileReader σ} {reads : List Nat}
    (h : Good Reads file content r returned)
    (hend : r.compressedOffset = file.length → returned = content)
    (hpos : ∀ maxlen ∈ reads, 0 < maxlen)
    (hclean : CleanRun decode file content r reads)
    (hmany : content.length < returned.length + reads.length) :
    ∃ k, Complete decode file r (reads.take k) := by
  induction reads generalizing r returned with
  | nil =>
      obtain ⟨todo, hcontent, -⟩ := h.rest
      rw [hcontent, List.length_append] at hmany
      exact absurd hmany (by rw [List.length_nil]; omega)
  | cons maxlen rest ih =>
      cases read_cases hcorrect h (hpos maxlen List.mem_cons_self) hend with
      | ended hret _ _ _ =>
          refine ⟨1, ?_⟩
          rw [List.take_succ_cons, List.take_zero, Complete, if_pos hret]
      | went hret hbytes hgood hiff =>
          have hlength := List.length_pos_iff.mpr hbytes
          obtain ⟨k, hk⟩ := ih hgood (hiff.mp hclean.1)
            (fun n hn => hpos n (List.mem_cons_of_mem _ hn)) hclean.2 (by
              rw [List.length_append]
              rw [List.length_cons] at hmany
              omega)
          refine ⟨k + 1, ?_⟩
          rw [List.take_succ_cons, Complete, if_neg hret]
          exact hk
      | stuck _ _ hnot => exact absurd hclean.1 hnot

end File

/-- A file that opens is at its beginning. -/
theorem good_of_open {Reads : σ → List UInt8 → List UInt8 → Prop}
    {init : σ} {file content : List UInt8} {r : FileReader σ}
    (hvalid : Reads init file content) (hopen : openFile init file = .ok r) :
    Good Reads file content r [] ∧ r.compressedOffset < file.length := by
  unfold openFile at hopen
  split at hopen
  case isTrue => cases hopen
  case isFalse hne =>
    split at hopen
    case isTrue => cases hopen
    case isFalse =>
      injection hopen with hr
      subst hr
      have hgood : Good Reads file content ⟨init, 0, 0, some 0, []⟩ [] :=
        { offset_le := Nat.zero_le _
          succeeds := Option.some_ne_none 0
          rest := ⟨content, rfl, hvalid⟩
          taken_le := List.forall_mem_nil _
          noRefeed := .nil
          gave := rfl }
      exact ⟨hgood, Nat.pos_of_ne_zero hne⟩

/-- Reads up to the first that returns zero return the content, and take
each byte of the file once, exactly if they are clean; and clean reads come
to the one that returns zero. -/
theorem reproduces_iff {decode : Decoder σ UInt8 UInt8}
    {Reads : σ → List UInt8 → List UInt8 → Prop}
    (hcorrect : Correct decode Reads) {init : σ} {file content : List UInt8}
    (hvalid : Reads init file content) {r : FileReader σ}
    (hopen : openFile init file = .ok r) {reads : List Nat}
    (hpos : ∀ maxlen ∈ reads, 0 < maxlen) :
    (Complete decode file r reads →
      (Reproduces decode file content r reads
        ↔ CleanRun decode file content r reads))
    ∧ (CleanRun decode file content r reads →
      content.length < reads.length →
      ∃ k, Complete decode file r (reads.take k)) := by
  obtain ⟨hgood, hlt⟩ := good_of_open hvalid hopen
  have hend : r.compressedOffset = file.length → [] = content :=
    fun hall => absurd hall (Nat.ne_of_lt hlt)
  constructor
  · intro hcomplete
    rw [← hgood.reproduces_rest_iff hcorrect hend hpos hcomplete]
    exact ⟨fun hall => ⟨hall.content, hall.noRefeed⟩,
      fun hall => ⟨hall.1, hall.2⟩⟩
  · intro hclean hmany
    exact hgood.exists_complete hcorrect hend hpos hclean
      (by rw [List.length_nil]; omega)

/-- "abc" in a frame, with its checksum. -/
def abcFile : List UInt8 :=
  storedFrame [0x61, 0x62, 0x63] [0xFF, 0x53, 0xD1, 0x32]

theorem outputs_abcFile : storedBlocks.outputs (.header []) abcFile
    = some [0x61, 0x62, 0x63] :=
  outputs_storedFrame (by decide) rfl

/-- The reader of it, just opened. -/
def abcReader : FileReader FrameStage := ⟨.header [], 0, 0, some 0, []⟩

theorem openFile_abcFile : openFile (.header []) abcFile = .ok abcReader := rfl

/-- With room for eight bytes, the first read takes all of the file. -/
theorem reproduces_abc :
    Complete storedBlocks.decode abcFile abcReader [8, 8]
    ∧ Reproduces storedBlocks.decode abcFile [0x61, 0x62, 0x63] abcReader
      [8, 8] := by
  have hcomplete : Complete storedBlocks.decode abcFile abcReader [8, 8] := by
    decide
  have hclean : CleanRun storedBlocks.decode abcFile [0x61, 0x62, 0x63]
      abcReader [8, 8] := by
    decide
  have hiff := reproduces_iff Transducer.correct_decode outputs_abcFile
    openFile_abcFile (show ∀ maxlen ∈ [8, 8], 0 < maxlen by decide)
  exact ⟨hcomplete, (hiff.1 hcomplete).mpr hclean⟩

/-- With room for two, the second read ends with the checksum taken, and the
third feeds it again. -/
theorem abc_checksum_fed_again :
    ¬∀ (σ : Type) (decode : Decoder σ UInt8 UInt8)
      (Reads : σ → List UInt8 → List UInt8 → Prop), Correct decode Reads →
      ∀ (init : σ) (file content : List UInt8), Reads init file content →
      ∀ r : FileReader σ, openFile init file = .ok r →
      ∀ reads : List Nat, (∀ maxlen ∈ reads, 0 < maxlen) →
        Complete decode file r reads →
        Reproduces decode file content r reads := by
  intro hall
  have hcomplete : Complete storedBlocks.decode abcFile abcReader
      [2, 2, 2] := by
    decide
  have hcalls : (abcReader.readAll storedBlocks.decode abcFile
      [2, 2, 2]).2.calls
        = [⟨0, 22, 13, [0x61, 0x62]⟩, ⟨13, 5, 5, [0x63]⟩, ⟨18, 4, 4, []⟩,
          ⟨18, 4, 4, []⟩] := by
    decide
  have hall' := hall FrameStage storedBlocks.decode
    (fun d src out => storedBlocks.outputs d src = some out)
    Transducer.correct_decode (.header []) abcFile [0x61, 0x62, 0x63]
    outputs_abcFile abcReader openFile_abcFile [2, 2, 2] (by decide)
  have hfed := (hall' hcomplete).noRefeed
  rw [hcalls] at hfed
  have hlast : NoRefeed [⟨18, 4, 4, []⟩, ⟨18, 4, 4, []⟩] := hfed.tail.tail
  exact List.rel_of_pairwise_cons hlast List.mem_cons_self 18
    ⟨Nat.le_refl _, by decide⟩ ⟨Nat.le_refl _, by decide⟩

end TradingEngine.Core.LZ4.FileReader
