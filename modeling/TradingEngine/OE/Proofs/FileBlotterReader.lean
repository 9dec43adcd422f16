/-
How far a replay of an order log reads.

Whatever the bytes, the cursor moves by at least a header a turn and every
call of `decode` is further on than the last, so the loop ends. What keeps
the reads inside is weaker: `decode` checks that the length the header
claims is there, and then reads as much as the struct of the type takes
(`decode_complete`). The two agree in what the log's writer writes, so
that a log torn off anywhere is read safely (`bodiesFit_of_sized`); a
record that claims less than its struct, near enough to the end, is not.

# The loop

The cursor is an offset in the file, and `more` compares what is left with a
header. A turn reads the header, checks the length that it claims, and moves
on by what it claims, so the offsets of the complete records are a function
of the bytes (`recordOffsets`). `Replayed` is proved by induction on what is
left of the file: it ends, it goes forward, and its reads are within the file
exactly if those records have their structs.
-/
import TradingEngine.OE.FileBlotterReader

namespace TradingEngine.OE

open Lib

variable {sz : Sizes}

-- ================================================================ records

/-- A header, and the bytes it claims. -/
def Complete (sz : Sizes) (buf : List UInt8) : Prop :=
  sz.header + recordLength buf ≤ buf.length

instance (sz : Sizes) (buf : List UInt8) : Decidable (Complete sz buf) :=
  inferInstanceAs (Decidable (_ ≤ _))

/-- What the struct of the record at the front takes. -/
def structSize (sz : Sizes) (buf : List UInt8) : Nat :=
  (sz.body (recordType buf)).getD 0

/-- Where the complete records begin, from `off` on, by the lengths they
claim. -/
def recordOffsets (sz : Sizes) (log : List UInt8) : Nat → Nat → List Nat
  | 0, _ => []
  | turns + 1, off =>
      if Complete sz (log.drop off) then
        off :: recordOffsets sz log turns
          (off + (sz.header + recordLength (log.drop off)))
      else []

/-- Every complete record has its whole struct before the end of the
log. -/
def BodiesFit (sz : Sizes) (log : List UInt8) : Prop :=
  ∀ off ∈ recordOffsets sz log log.length 0,
    off + sz.header + structSize sz (log.drop off) ≤ log.length

instance (sz : Sizes) (log : List UInt8) : Decidable (BodiesFit sz log) :=
  inferInstanceAs (Decidable (∀ _ ∈ _, _ ≤ _))

theorem header_pos (sz : Sizes) : 0 < sz.header := by
  unfold Sizes.header
  omega

theorem Complete.lt_length {log : List UInt8} {off : Nat}
    (h : Complete sz (log.drop off)) : off < log.length := by
  have hpos := header_pos sz
  unfold Complete at h
  rw [List.length_drop] at h
  omega

/-- As written, a record claims at least its struct, and then completeness
is all there is to it. -/
theorem bodiesFit_of_sized {log : List UInt8}
    (h : ∀ off ∈ recordOffsets sz log log.length 0,
      structSize sz (log.drop off) ≤ recordLength (log.drop off)) :
    BodiesFit sz log := by
  have hcomplete : ∀ turns off, ∀ o ∈ recordOffsets sz log turns off,
      Complete sz (log.drop o) := by
    intro turns
    induction turns with
    | zero => exact fun _ _ ho => absurd ho List.not_mem_nil
    | succ turns ih =>
        intro off o ho
        unfold recordOffsets at ho
        split at ho
        case isTrue hfirst =>
          cases ho with
          | head => exact hfirst
          | tail _ ho => exact ih _ o ho
        case isFalse => exact absurd ho List.not_mem_nil
  intro off hoff
  have hsized := h off hoff
  have hrecord := hcomplete _ _ off hoff
  have hlt := hrecord.lt_length
  unfold Complete at hrecord
  rw [List.length_drop] at hrecord
  omega

-- ================================================================= decode

/-- An incomplete record stops the reader, which has read at most its
header. -/
theorem decode_incomplete {buf : List UInt8} (h : ¬ Complete sz buf) :
    ¬ (decode sz buf).ret > 0
      ∧ ∀ e ∈ (decode sz buf).reads, e.Within buf.length := by
  unfold Complete at h
  unfold decode
  split
  case isTrue => exact ⟨by decide, fun _ he => absurd he List.not_mem_nil⟩
  case isFalse hheader =>
    rw [if_pos (by omega)]
    refine ⟨(by decide : ¬ noMsgSize > 0), fun e he => ?_⟩
    rw [List.mem_singleton.mp he]
    show 0 + sz.header ≤ buf.length
    omega

/-- A complete one moves it on by what the record claims; its reads go as
far as the struct. -/
theorem decode_complete {buf : List UInt8} (h : Complete sz buf) :
    (decode sz buf).ret = (sz.header + recordLength buf : Nat)
      ∧ ((∀ e ∈ (decode sz buf).reads, e.Within buf.length)
        ↔ sz.header + structSize sz buf ≤ buf.length) := by
  unfold Complete at h
  unfold decode structSize
  rw [if_neg (by omega), if_neg (by omega)]
  refine ⟨by push_cast; rfl, ?_⟩
  cases hbody : sz.body (recordType buf) with
  | none => simp [Extent.Within]
  | some n =>
      simp [Extent.Within]
      omega

-- =============================================================== the loop

/-- Every read of the calls is of the log. -/
def ReadsWithin (len : Nat) (cs : List DecodeCall) : Prop :=
  ∀ c ∈ cs, ∀ e ∈ c.reads, e.Within len

instance (len : Nat) (cs : List DecodeCall) :
    Decidable (ReadsWithin len cs) :=
  inferInstanceAs (Decidable (∀ _ ∈ cs, ∀ _ ∈ _, Extent.Within len _))

/-- Each call is further on than those before it. -/
def Advances (cs : List DecodeCall) : Prop :=
  cs.Pairwise fun c c' => c.offset < c'.offset

instance (cs : List DecodeCall) : Decidable (Advances cs) :=
  inferInstanceAs (Decidable (cs.Pairwise _))

namespace FileBlotterReader

/-- A reader at the end stays there and reads nothing. -/
theorem replay_atEnd {r : FileBlotterReader} (h : r.atEnd = true)
    (turns : Nat) : r.replay sz turns = (r, []) := by
  cases turns with
  | zero => rfl
  | succ turns => exact if_pos h

/-- A turn within the log is a call of `decode`, and then the rest. -/
theorem replay_succ (log : List UInt8) {off : Nat} (hoff : off < log.length)
    (turns : Nat) :
    let d := decode sz (log.drop off)
    let r : FileBlotterReader :=
      ⟨log, if d.ret > 0 then some (off + d.ret.toNat) else none⟩
    replay sz (turns + 1) ⟨log, some off⟩
      = ((r.replay sz turns).1,
        ⟨off, d.reads.map (·.shift off)⟩ :: (r.replay sz turns).2) := by
  intro d r
  have hend : (⟨log, some off⟩ : FileBlotterReader).atEnd = false :=
    decide_eq_false (show ¬ off ≥ log.length by omega)
  have hnext : (⟨log, some off⟩ : FileBlotterReader).next sz
      = (r, [⟨off, d.reads.map (·.shift off)⟩]) := if_pos hoff
  show (if (⟨log, some off⟩ : FileBlotterReader).atEnd then _ else _) = _
  rw [hend, hnext]
  rfl

/-- The reads of a call, as reads of the log. -/
theorem reads_shift_iff {log : List UInt8} {off : Nat}
    (hoff : off < log.length) (reads : List Extent) :
    (∀ e ∈ reads.map (·.shift off), e.Within log.length)
      ↔ ∀ e ∈ reads, e.Within (log.drop off).length := by
  rw [List.forall_mem_map, List.length_drop]
  exact forall₂_congr fun e _ => e.shift_within_iff (Nat.le_of_lt hoff)

/-- What the loop does from an offset: it comes to an end, goes forward,
and reads within the log exactly if the records from there have their
structs. -/
structure Replayed (sz : Sizes) (log : List UInt8) (off turns : Nat)
    (out : FileBlotterReader × List DecodeCall) : Prop where
  atEnd : out.1.atEnd = true
  from_offset : ∀ c ∈ out.2, off ≤ c.offset
  advances : Advances out.2
  within_iff : ReadsWithin log.length out.2
    ↔ ∀ o ∈ recordOffsets sz log turns off,
        o + sz.header + structSize sz (log.drop o) ≤ log.length

/-- Nothing to read from here. -/
theorem replayed_nil {log : List UInt8} {off turns : Nat}
    {r : FileBlotterReader} (hend : r.atEnd = true)
    (hnone : recordOffsets sz log turns off = []) :
    Replayed sz log off turns (r, []) := by
  refine ⟨hend, fun _ hc => absurd hc List.not_mem_nil, .nil, ?_⟩
  rw [hnone]
  exact ⟨fun _ _ ho => absurd ho List.not_mem_nil,
    fun _ _ hc => absurd hc List.not_mem_nil⟩

theorem replayed (log : List UInt8) (turns off : Nat)
    (hturns : log.length ≤ off + turns) :
    Replayed sz log off turns (replay sz turns ⟨log, some off⟩) := by
  induction turns generalizing off with
  | zero =>
      exact replayed_nil (decide_eq_true (show off ≥ log.length by omega))
        rfl
  | succ turns ih =>
      by_cases hoff : off < log.length
      · rw [replay_succ log hoff turns]
        have hshift := reads_shift_iff hoff (decode sz (log.drop off)).reads
        by_cases hcomplete : Complete sz (log.drop off)
        · obtain ⟨hret, hreads⟩ := decode_complete hcomplete
          have hpos := header_pos sz
          rw [hret, if_pos (by omega), Int.toNat_natCast]
          have hrest := ih
            (off + (sz.header + recordLength (log.drop off))) (by omega)
          have hoffsets : recordOffsets sz log (turns + 1) off
              = off :: recordOffsets sz log turns
                (off + (sz.header + recordLength (log.drop off))) :=
            if_pos hcomplete
          refine ⟨hrest.atEnd, ?_, ?_, ?_⟩
          · intro c hc
            cases hc with
            | head => exact Nat.le_refl off
            | tail _ hc =>
                have hlater := hrest.from_offset c hc
                omega
          · refine List.pairwise_cons.mpr ⟨fun c hc => ?_, hrest.advances⟩
            have hlater := hrest.from_offset c hc
            show off < c.offset
            omega
          · unfold ReadsWithin
            rw [hoffsets, List.forall_mem_cons, List.forall_mem_cons,
              hshift, hreads]
            refine and_congr ?_ hrest.within_iff
            rw [List.length_drop]
            omega
        · -- the last call: whatever it found, the pointer is null
          obtain ⟨hret, hreads⟩ := decode_incomplete hcomplete
          have hoffsets : recordOffsets sz log (turns + 1) off = [] :=
            if_neg hcomplete
          rw [if_neg hret, replay_atEnd rfl]
          refine ⟨rfl, ?_, List.pairwise_singleton _ _, ?_⟩
          · intro c hc
            rw [List.mem_singleton.mp hc]
          · rw [hoffsets]
            refine ⟨fun _ _ ho => absurd ho List.not_mem_nil, ?_⟩
            intro _ c hc
            rw [List.mem_singleton.mp hc]
            exact hshift.mpr hreads
      · have hend : (⟨log, some off⟩ : FileBlotterReader).atEnd = true :=
          decide_eq_true (show off ≥ log.length by omega)
        rw [replay_atEnd hend]
        refine replayed_nil hend (if_neg fun hcomplete => ?_)
        exact hoff hcomplete.lt_length

end FileBlotterReader

-- ================================================================== result

/-- Whatever the bytes of an order log, the replay ends, and calls `decode`
further on each time; and it reads nothing past the end exactly if every
complete record has its whole struct before it. -/
theorem order_log_read_iff (sz : Sizes) (log : List UInt8) :
    let out := (FileBlotterReader.create log).replay sz log.length
    (out.1.atEnd = true ∧ Advances out.2 ∧ ReadsWithin log.length out.2)
      ↔ BodiesFit sz log := by
  intro out
  have hout : FileBlotterReader.Replayed sz log 0 log.length out :=
    FileBlotterReader.replayed log log.length 0 (by omega)
  constructor
  · intro hall
    exact hout.within_iff.mp hall.2.2
  · intro hfit
    exact ⟨hout.atEnd, hout.advances, hout.within_iff.mpr hfit⟩

/-- An order log of one record, `ORDER_DESTROY` with no bytes claimed after
its header: the identifier is read past the end. -/
theorem short_record_read_past_end :
    let log : List UInt8 := [0, 0, 18, 0] ++ List.replicate 16 0
    let out := (FileBlotterReader.create log).replay .usual log.length
    out.2.map (fun c => (c.offset, c.reads)) = [(0, [⟨0, 20⟩, ⟨20, 14⟩])]
      ∧ log.length = 20
      ∧ ¬ ReadsWithin log.length out.2 := by
  decide +kernel

end TradingEngine.OE
