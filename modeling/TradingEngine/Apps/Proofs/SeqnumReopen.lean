/-
Reopening a sequence log.

The header's name is the first bytes of the feed's name in a field of
spaces. The check takes the zero bytes out of the field, which has none,
and leaves the spaces in: a name shorter than the field is never the one
that was stored. Names that fill the field are told apart by their stored
beginning, as they should.

# Exactly when

The constructor of the writer looks at a file that is there already and goes
on behind its end if the header is its own. So reopening is a matter of the
header alone (`openWriter_log`), whatever was recorded since. `Headed` says
that nothing that is recorded touches it: the run lemma of the log carries it
along with the events.
-/
import TradingEngine.Apps.Proofs.SeqnumCap

namespace TradingEngine.Apps.SeqnumCap

open TradingEngine.Core (AsyncMappedFile)

-- ==================================================================== header

theorem MIC.index_inj {mic mic' : MIC} (h : mic.index = mic'.index) :
    mic = mic' := by
  cases mic <;> cases mic' <;> first | rfl | exact absurd h (by decide)

/-- The header of a log is there. -/
def Headed (mic : MIC) (name : List UInt8) (log : SeqnumLog) : Prop :=
  ∀ i < fileHeaderSize,
    log.file.data i = (headerOf mic name).bytes.getD i 0

/-- `write` returned the event's length. -/
def Wrote (log : SeqnumLog) (e : Event) : Prop :=
  0 ≤ (log.file.write e.bytes).1

instance (log : SeqnumLog) (e : Event) : Decidable (Wrote log e) :=
  inferInstanceAs (Decidable (_ ≤ _))

/-- An event that was written fits. -/
theorem fits_of_wrote {log : SeqnumLog} (h : Good log) {e : Event}
    (hwrote : Wrote log e) : Fits log e := by
  obtain ⟨-, -, hrest⟩ := h.step_cases e
  by_contra hfits
  rw [if_neg hfits] at hrest
  have hsame : (log.step e).written = log.written ++ [e] :=
    if_neg (Int.not_lt.mpr hwrote)
  exact absurd (hrest.1.symm.trans hsame) (by simp)

/-- Events go behind the header. -/
theorem headed_step {mic : MIC} {name : List UInt8} {log : SeqnumLog}
    (h : Good log) (hheaded : Headed mic name log) {e : Event}
    (hfits : Fits log e) : Headed mic name (log.step e) := by
  obtain ⟨-, -, hrest⟩ := h.step_cases e
  rw [if_pos hfits] at hrest
  have hle := h.laid.le
  intro i hi
  rw [hrest.2, ← hheaded i hi]
  unfold AsyncMappedFile.copy
  exact if_neg (by omega)

/-- A log as its writer left it: the header, and the events behind it. -/
theorem run_good {mic : MIC} {name : List UInt8} {log : SeqnumLog}
    {es : List Event} (h : Good log) (hheaded : Headed mic name log)
    (hwritten : Lib.Admits SeqnumLog.step Wrote log es) :
    Good (Lib.run SeqnumLog.step log es)
      ∧ Headed mic name (Lib.run SeqnumLog.step log es) :=
  Lib.run_invariant
    (I := fun log => Good log ∧ Headed mic name log)
    (fun _ _ hlog hwrote =>
      ⟨hlog.1.step (fits_of_wrote hlog.1 hwrote),
        headed_step hlog.1 hlog.2 (fits_of_wrote hlog.1 hwrote)⟩)
    ⟨h, hheaded⟩ hwritten

-- ================================================================ the check

theorem length_feedName (mic : MIC) (name : List UInt8) :
    (headerOf mic name).feedName.length = feedNameSize := by
  have hname : (conformingName name).length ≤ feedNameSize :=
    List.length_take_le _ _
  unfold headerOf
  rw [List.length_append, List.length_replicate]
  omega

/-- The bytes of the header, from the market on. -/
theorem getD_headerOf (mic : MIC) (name : List UInt8) :
    (headerOf mic name).bytes.getD 8 0 = mic.index
      ∧ ∀ i, (headerOf mic name).bytes.getD (9 + i) 0
        = (headerOf mic name).feedName.getD i 0 := by
  refine ⟨rfl, fun i => ?_⟩
  have hbytes : (headerOf mic name).bytes
      = (Lib.leBytes 4 magicNumber.toNat ++ Lib.leBytes 4 versionNumber.toNat
        ++ [mic.index]) ++ (headerOf mic name).feedName := rfl
  have hlength : (Lib.leBytes 4 magicNumber.toNat
      ++ Lib.leBytes 4 versionNumber.toNat ++ [mic.index]).length = 9 := rfl
  rw [hbytes, List.getD_append_right _ _ _ _ (by omega), hlength,
    Nat.add_sub_cancel_left]

/-- What the check reads is what was written. -/
theorem readHeader_eq {mic : MIC} {name : List UInt8} {log : SeqnumLog}
    (h : Headed mic name log) :
    readHeader log.file = (mic.index, (headerOf mic name).feedName) := by
  have hlength := length_feedName mic name
  obtain ⟨hmic, hname⟩ := getD_headerOf mic name
  have hbyte : log.file.data 8 = mic.index :=
    (h 8 (by decide)).trans hmic
  have hfield : (List.range feedNameSize).map (fun i => log.file.data (9 + i))
      = (headerOf mic name).feedName := by
    refine List.ext_getElem (by simp [hlength]) fun i hi hi' => ?_
    rw [List.length_map, List.length_range] at hi
    unfold feedNameSize at hi
    rw [List.getElem_map, List.getElem_range, h (9 + i)
      (by unfold fileHeaderSize; omega), hname, List.getD_eq_getElem]
  exact Prod.ext hbyte hfield

/-- A log with its header is reopened exactly for its own market and the
name as the field has it, and is not touched. -/
theorem openWriter_log {mic : MIC} {name : List UInt8} {log : SeqnumLog}
    (hgood : Good log) (h : Headed mic name log) (mic' : MIC)
    (name' : List UInt8) :
    ((openWriter mic' name' log.file).1 = .ok ()
      ↔ mic' = mic ∧ conformingName name'
        = (headerOf mic name).feedName.filter fun b => b ≠ 0)
    ∧ (openWriter mic' name' log.file).2 = log.file := by
  have hle := hgood.laid.le
  unfold fileHeaderSize at hle
  have hnonzero : log.file.counter ≠ 0 := by
    intro hzero
    rw [hzero] at hle
    exact absurd hle (by decide)
  unfold openWriter
  rw [if_neg hnonzero, if_neg (by unfold fileHeaderSize; omega),
    readHeader_eq h]
  dsimp only
  split
  case isTrue hdiffers =>
    refine ⟨iff_of_false (by rintro ⟨⟩) ?_, rfl⟩
    rintro ⟨rfl, hname⟩
    exact hdiffers.elim (absurd rfl) (absurd hname)
  case isFalse hsame =>
    obtain ⟨hmic, hname⟩ := not_or.mp hsame
    exact ⟨iff_of_true rfl ⟨(MIC.index_inj (not_not.mp hmic)).symm,
      not_not.mp hname⟩, rfl⟩

/-- The field without zero bytes is the name exactly if the name fills
it. -/
theorem filter_feedName (mic : MIC) {name : List UInt8}
    (hname : ∀ b ∈ name, b ≠ 0) :
    ((headerOf mic name).feedName.filter fun b => b ≠ 0)
      = conformingName name
        ++ List.replicate (feedNameSize - name.length) 32 := by
  have hprefix : (conformingName name).length
      = min feedNameSize name.length := List.length_take
  have hpad : feedNameSize - (conformingName name).length
      = feedNameSize - name.length := by omega
  unfold headerOf
  dsimp only
  rw [hpad, List.filter_eq_self.mpr]
  intro b hb
  rw [decide_eq_true_iff]
  obtain hb | hb := List.mem_append.mp hb
  · exact hname b (List.mem_of_mem_take hb)
  · rw [List.eq_of_mem_replicate hb]
    decide

-- ================================================================= reopening

/-- A log is reopened by its owner, and by those whose name has the same
stored beginning, exactly if the name fills its field. -/
theorem reopen_iff (mic : MIC) (name : List UInt8)
    (file file' : AsyncMappedFile) (es : List Event)
    (hname : ∀ b ∈ name, b ≠ 0) (hempty : file.counter = 0)
    (hopen : openWriter mic name file = (.ok (), file'))
    (hwritten : Lib.Admits SeqnumLog.step Wrote ⟨file', []⟩ es) :
    (∀ (mic' : MIC) (name' : List UInt8),
      ((openWriter mic' name'
          (Lib.run SeqnumLog.step ⟨file', []⟩ es).file).1 = .ok ()
        ↔ mic' = mic ∧ conformingName name' = conformingName name)
      ∧ (openWriter mic' name'
          (Lib.run SeqnumLog.step ⟨file', []⟩ es).file).2
        = (Lib.run SeqnumLog.step ⟨file', []⟩ es).file)
    ↔ feedNameSize ≤ name.length := by
  obtain ⟨hcounter, hroom, -, hheader⟩ := openWriter_empty hempty hopen
  have hle : file'.counter ≤ file'.capacity :=
    UInt64.le_iff_toNat_le.mpr (by omega)
  have hstart : Good ⟨file', []⟩ := ⟨hle, hcounter.symm⟩
  obtain ⟨hgood, hheaded⟩ := run_good hstart hheader hwritten
  have hcheck := openWriter_log hgood hheaded
  rw [filter_feedName mic hname] at hcheck
  constructor
  · intro hall
    have hsame := ((hcheck mic name).1.mp
      ((hall mic name).1.mpr ⟨rfl, rfl⟩)).2
    have hlength := congrArg List.length hsame
    rw [List.length_append, List.length_replicate] at hlength
    omega
  · intro hfills mic' name'
    have hpad : feedNameSize - name.length = 0 := by omega
    have hlog := hcheck mic' name'
    rw [hpad, List.replicate_zero, List.append_nil] at hlog
    exact hlog

/-- A feed whose name has fifteen letters, with an event. -/
theorem reopen_fifteen_letters :
    (openWriter .xnas [65, 66, 67, 68, 69, 70, 71, 72, 73, 74, 75, 76, 77,
        78, 79]
      (Lib.run SeqnumLog.step
        ⟨(openWriter .xnas [65, 66, 67, 68, 69, 70, 71, 72, 73, 74, 75, 76,
            77, 78, 79] (AsyncMappedFile.openWritable (fun _ => 0) 0)).2, []⟩
        [.onSeqnum ⟨1, 2⟩ 7 0]).file).1 = .ok () :=
  ((reopen_iff .xnas [65, 66, 67, 68, 69, 70, 71, 72, 73, 74, 75, 76, 77, 78,
      79] (AsyncMappedFile.openWritable (fun _ => 0) 0) _
    [.onSeqnum ⟨1, 2⟩ 7 0] (by simp) rfl rfl
    ⟨by decide, True.intro⟩).mpr (by decide) .xnas _).1.mpr ⟨rfl, rfl⟩

/-- The log of a feed named ITCH is refused to its owner. -/
theorem owner_is_refused :
    ¬ ∀ (mic : MIC) (name : List UInt8) (file file' : AsyncMappedFile),
      (∀ b ∈ name, b ≠ 0) → name.getLast? ≠ some 32 → file.counter = 0 →
      openWriter mic name file = (.ok (), file') →
      (openWriter mic name file').1 = .ok () := by
  intro h
  have hok := h .xnas [73, 84, 67, 72]
    (AsyncMappedFile.openWritable (fun _ => 0) 0) _ (by simp) (by decide)
    rfl rfl
  exact absurd hok (by decide)

end TradingEngine.Apps.SeqnumCap
