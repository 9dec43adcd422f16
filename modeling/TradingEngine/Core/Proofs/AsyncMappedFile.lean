/-
Several threads that append to one file.

Every fetch-and-add gets its own region, and the regions follow each other
(`Tracked.tiles`), whether or not the write succeeds. So the counter is
what was written exactly if everything that was reserved was written: a
write that is refused leaves its region behind, counted and empty.
`sound_iff_fits` puts it for one state, `appends_sound_iff` for a run.

# The invariant

A call has two steps, in any order with those of other threads: it reserves,
and it copies and returns. `Tracked` has what was reserved as tiles of the
file from its first byte on, one for each call. A call that returned has
succeeded if its tile ends in the mapping, and then its bytes are there,
since no other call writes to its tile. This holds however many do not fit,
so in a state of the run it can be read off which of the two the file is:
sound, or with a tile that was counted and never filled.
-/
import TradingEngine.Core.AsyncMappedFile
import TradingEngine.Lib.Run
import Mathlib.Data.List.Pairwise

namespace TradingEngine.Core

namespace AsyncMappedFile

/-- The bound is checked in signed numbers, and the offset stays where they
agree with unsigned ones. -/
theorem hasRoom_iff (file : AsyncMappedFile) {off : UInt64}
    (hoff : off ≤ file.capacity) (len : Nat) :
    file.hasRoom off len = true
      ↔ off.toNat + len < file.capacity.toNat := by
  have hcap := file.capacity_lt
  have hle := UInt64.le_iff_toNat_le.mp hoff
  have hsigned (n : UInt64) (hn : n.toNat < 9223372036854775808) :
      n.toInt64.toInt = n.toNat := by
    show n.toBitVec.toInt = _
    rw [BitVec.toInt_eq_toNat_of_lt (by rw [UInt64.toNat_toBitVec]; omega),
      UInt64.toNat_toBitVec]
  unfold hasRoom
  rw [decide_eq_true_iff, hsigned off (by omega), hsigned _ hcap]
  omega

-- ========================================================== one at a time

section Write

variable {file : AsyncMappedFile} {buf : List UInt8}
  (hpos : 0 < buf.length) (hlt : buf.length < 2147483648)
  (hcounter : file.counter ≤ file.capacity)

include hlt hcounter

/-- The counter has room for any reservation from inside the mapping. -/
theorem toNat_counter_fetchAndAdd :
    (file.fetchAndAdd buf.length.toUInt64).2.counter.toNat
      = file.counter.toNat + buf.length := by
  have hcap := file.capacity_lt
  have hle := UInt64.le_iff_toNat_le.mp hcounter
  have hlength : buf.length.toUInt64.toNat = buf.length :=
    UInt64.toNat_ofNat_of_lt' (Nat.lt_trans hlt (by decide))
  show (file.counter + buf.length.toUInt64).toNat = _
  rw [UInt64.toNat_add, hlength]
  exact Nat.mod_eq_of_lt (by omega)

include hpos

/-- A write copies to where the counter was, if that ends before the end of
the mapping; the counter moves in any case. -/
theorem write_eq :
    (file.write buf).2.counter.toNat = file.counter.toNat + buf.length
      ∧ (file.write buf).2.capacity = file.capacity
      ∧ if file.counter.toNat + buf.length < file.capacity.toNat then
          (file.write buf).1 = buf.length
            ∧ (file.write buf).2.data = (file.copy file.counter buf).data
        else
          (file.write buf).1 = enomem
            ∧ (file.write buf).2.data = file.data := by
  have hnext := toNat_counter_fetchAndAdd hlt hcounter
  have hroom : (file.fetchAndAdd buf.length.toUInt64).2.hasRoom file.counter
      buf.length = true
      ↔ file.counter.toNat + buf.length < file.capacity.toNat :=
    hasRoom_iff (file.fetchAndAdd buf.length.toUInt64).2 hcounter buf.length
  have hwrite : file.write buf
      = (file.fetchAndAdd buf.length.toUInt64).2.complete file.counter buf :=
    if_neg (Nat.pos_iff_ne_zero.mp hpos)
  rw [hwrite]
  unfold complete
  by_cases hfits : file.counter.toNat + buf.length < file.capacity.toNat
  · rw [if_pos hfits, if_pos (hroom.mpr hfits)]
    exact ⟨hnext, rfl, rfl, rfl⟩
  · rw [if_neg hfits, if_neg fun h => hfits (hroom.mp h)]
    exact ⟨hnext, rfl, rfl, rfl⟩

end Write

end AsyncMappedFile

namespace SharedFile

variable {ι : Type}

-- ============================================================ what should be

/-- What a call reserved. -/
def region (c : WriteCall ι) : Lib.Extent :=
  ⟨c.off.toNat, c.buf.bytes.length⟩

/-- The call returned its length. -/
def Succeeded (c : WriteCall ι) : Prop :=
  c.ret = some (c.buf.bytes.length : Int)

instance (c : WriteCall ι) : Decidable (Succeeded c) :=
  inferInstanceAs (Decidable (_ = _))

/-- The calls that returned their length. -/
def successes (s : SharedFile ι) : List (WriteCall ι) :=
  s.calls.filter fun c => Succeeded c

/-- The bytes of a call are where it put them. -/
def Holds (s : SharedFile ι) (c : WriteCall ι) : Prop :=
  ∀ i < c.buf.bytes.length,
    s.file.data (c.off.toNat + i) = c.buf.bytes.getD i 0

/-- A file as its readers take it: the writes that succeeded are apart, in
the mapping, and there; the counter is in the mapping, and what it counts
once nothing is in progress is what they wrote, without a hole. -/
structure Sound [DecidableEq ι] (first : Nat) (s : SharedFile ι) :
    Prop where
  apart : (s.successes.map region).Pairwise Lib.Extent.Apart
  inside : ∀ c ∈ s.successes, first ≤ c.off.toNat
    ∧ (region c).Within s.file.capacity.toNat
  holds : ∀ c ∈ s.successes, s.Holds c
  counter_le : s.file.counter ≤ s.file.capacity
  total : s.settle.file.counter.toNat
    = first + (s.settle.successes.map fun c => c.buf.bytes.length).sum
  noHole : ∀ i, first ≤ i → i < s.settle.file.counter.toNat →
    ∃ c ∈ s.settle.successes, (region c).Covers i

/-- What a thread reserves ends before the end of the mapping. -/
def Fits [DecidableEq ι] (s : SharedFile ι) : Op ι → Prop
  | .reserve writer buf =>
      s.busy writer = true
        ∨ s.file.counter.toNat + buf.bytes.length < s.file.capacity.toNat
  | .finish _ => True

-- ================================================================= tracking

/-- What a call reserved ends before the end of the mapping. -/
def Fit (s : SharedFile ι) (c : WriteCall ι) : Prop :=
  c.off.toNat + c.buf.bytes.length < s.file.capacity.toNat

/-- Only the regions matter, and where the mapping ends. -/
theorem forall_fit_iff (s : SharedFile ι) :
    (∀ c ∈ s.calls, s.Fit c)
      ↔ ∀ e ∈ s.calls.map region, e.start + e.size
        < s.file.capacity.toNat := by
  constructor
  · intro h e he
    obtain ⟨c, hc, rfl⟩ := List.mem_map.mp he
    exact h c hc
  · exact fun h c hc => h _ (List.mem_map_of_mem hc)

/-- What holds as long as the counter is in the mapping: regions follow
each other, a thread is in one call, and a call that returned succeeded
exactly if its region fits, with its bytes there. -/
structure Tracked (first : Nat) (s : SharedFile ι) : Prop where
  tiles : Lib.Extent.Tiles first (s.calls.map region) s.file.counter.toNat
  counter_le : s.file.counter.toNat ≤ s.file.capacity.toNat
  single : ∀ c ∈ s.calls, ∀ c' ∈ s.calls, c.ret = none → c'.ret = none →
    c.writer = c'.writer → c = c'
  outcome : ∀ c ∈ s.calls, c.ret ≠ none → (Succeeded c ↔ s.Fit c)
  holds : ∀ c ∈ s.calls, Succeeded c → s.Holds c

section Tracked

variable {first : Nat} {s : SharedFile ι} (h : Tracked first s)

include h

/-- Where a call reserved. -/
theorem Tracked.bounds {c : WriteCall ι} (hc : c ∈ s.calls) :
    first ≤ c.off.toNat
      ∧ c.off.toNat + c.buf.bytes.length ≤ s.file.counter.toNat :=
  h.tiles.bounds (List.mem_map.mpr ⟨c, hc, rfl⟩)

/-- Two calls do not share a byte. -/
theorem Tracked.apart {c c' : WriteCall ι} (hc : c ∈ s.calls)
    (hc' : c' ∈ s.calls) (hne : c ≠ c') :
    (region c).Apart (region c') := by
  have hpairwise := List.pairwise_map.mp h.tiles.pairwise
  have hsymm : Std.Symm fun c c' : WriteCall ι =>
      (region c).Apart (region c') :=
    ⟨fun _ _ => Lib.Extent.Apart.symm⟩
  exact hpairwise.forall hc hc' hne

/-- A call that gets out of `write` succeeds exactly if it fits. -/
theorem Tracked.complete_eq {c : WriteCall ι} (hc : c ∈ s.calls) :
    s.file.complete c.off c.buf.bytes
      = if c.off.toNat + c.buf.bytes.length < s.file.capacity.toNat then
          ((c.buf.bytes.length : Int), s.file.copy c.off c.buf.bytes)
        else (enomem, s.file) := by
  have hbounds := h.bounds hc
  have hle := h.counter_le
  have hoff : c.off ≤ s.file.capacity :=
    UInt64.le_iff_toNat_le.mpr (by omega)
  unfold AsyncMappedFile.complete
  by_cases hfit : c.off.toNat + c.buf.bytes.length < s.file.capacity.toNat
  · rw [if_pos ((s.file.hasRoom_iff hoff _).mpr hfit), if_pos hfit]
  · rw [if_neg fun hroom => hfit ((s.file.hasRoom_iff hoff _).mp hroom),
      if_neg hfit]

/-- A copy puts its bytes there, and no other call's away. -/
theorem Tracked.holds_copy {c : WriteCall ι} (hc : c ∈ s.calls) :
    (∀ i < c.buf.bytes.length,
      (s.file.copy c.off c.buf.bytes).data (c.off.toNat + i)
        = c.buf.bytes.getD i 0)
    ∧ ∀ c' ∈ s.calls, c ≠ c' → ∀ i < c'.buf.bytes.length,
      (s.file.copy c.off c.buf.bytes).data (c'.off.toNat + i)
        = s.file.data (c'.off.toNat + i) := by
  constructor
  · intro i hi
    unfold AsyncMappedFile.copy
    dsimp only
    rw [if_pos (by omega), Nat.add_sub_cancel_left]
  · intro c' hc' hne i hi
    have hapart := h.apart hc hc' hne
    unfold Lib.Extent.Apart region at hapart
    dsimp only at hapart
    unfold AsyncMappedFile.copy
    dsimp only
    rw [if_neg (by omega)]

end Tracked

/-- The counter does not wrap below the end of the mapping. -/
theorem toNat_counter_reserve (s : SharedFile ι) (w : ι) (buf : Chunk)
    (hle : s.file.counter.toNat + buf.bytes.length
      ≤ 18446744073709551615) :
    (s.reserve w buf).file.counter.toNat
      = s.file.counter.toNat + buf.bytes.length := by
  have hlt := buf.length_lt
  have hlength : buf.bytes.length.toUInt64.toNat = buf.bytes.length :=
    UInt64.toNat_ofNat_of_lt' (Nat.lt_trans hlt (by decide))
  show (s.file.counter + buf.bytes.length.toUInt64).toNat = _
  rw [UInt64.toNat_add, hlength]
  exact Nat.mod_eq_of_lt (by omega)

variable [DecidableEq ι]

-- ==================================================================== a step

/-- A thread that is in no call has nothing to finish; else its call gets
its result. -/
theorem finish_cases (s : SharedFile ι) (w : ι) :
    (∀ c ∈ s.calls, ¬IsIn w c) ∧ s.finish w = s
      ∨ ∃ c ∈ s.calls, IsIn w c ∧ s.finish w
        = ⟨(s.file.complete c.off c.buf.bytes).2, s.calls.map fun c' =>
            if IsIn w c' then
              { c' with
                ret := some (s.file.complete c.off c.buf.bytes).1 }
            else c'⟩ := by
  unfold finish
  cases hfind : s.calls.find? fun c => IsIn w c with
  | none =>
      refine .inl ⟨fun c hc hin => ?_, rfl⟩
      exact List.find?_eq_none.mp hfind c hc (decide_eq_true hin)
  | some c =>
      have hin : decide (IsIn w c) = true :=
        List.find?_some (p := fun c => decide (IsIn w c)) hfind
      exact .inr ⟨c, List.mem_of_find?_eq_some hfind, of_decide_eq_true hin,
        rfl⟩

/-- The counter and the mapping stay, copied to or not. -/
theorem complete_file (file : AsyncMappedFile) (off : UInt64)
    (buf : List UInt8) :
    (file.complete off buf).2.counter = file.counter
      ∧ (file.complete off buf).2.capacity = file.capacity := by
  unfold AsyncMappedFile.complete
  split <;> exact ⟨rfl, rfl⟩

/-- A write that finishes has taken its place long before. -/
theorem counter_finish (s : SharedFile ι) (w : ι) :
    (s.finish w).file.counter = s.file.counter := by
  obtain ⟨-, h⟩ | ⟨c, -, -, h⟩ := s.finish_cases w
  · rw [h]
  · rw [h]
    exact (complete_file s.file c.off c.buf.bytes).1

/-- The file does not grow. -/
theorem capacity_finish (s : SharedFile ι) (w : ι) :
    (s.finish w).file.capacity = s.file.capacity := by
  obtain ⟨-, h⟩ | ⟨c, -, -, h⟩ := s.finish_cases w
  · rw [h]
  · rw [h]
    exact (complete_file s.file c.off c.buf.bytes).2

/-- A call keeps its region. -/
theorem regions_finish (s : SharedFile ι) (w : ι) :
    (s.finish w).calls.map region = s.calls.map region := by
  obtain ⟨-, h⟩ | ⟨c, -, -, h⟩ := s.finish_cases w
  · rw [h]
  · rw [h, List.map_map]
    refine List.map_congr_left fun c' _ => ?_
    rw [Function.comp_apply]
    split <;> rfl

/-- What is still in progress was so before, in another thread. -/
theorem inProgress_finish {s : SharedFile ι} {w : ι} {c : WriteCall ι}
    (hc : c ∈ (s.finish w).calls) (hret : c.ret = none) :
    c ∈ s.calls ∧ c.writer ≠ w := by
  obtain ⟨hnone, h⟩ | ⟨c₀, -, -, h⟩ := s.finish_cases w
  · rw [h] at hc
    exact ⟨hc, fun hw => hnone c hc ⟨hw, hret⟩⟩
  · rw [h] at hc
    obtain ⟨c', hc', rfl⟩ := List.mem_map.mp hc
    split at hret
    · cases hret
    case isFalse hin =>
      rw [if_neg hin]
      exact ⟨hc', fun hw => hin ⟨hw, hret⟩⟩

/-- A call that no other thread comes between is `write`. -/
theorem finish_reserve {s : SharedFile ι} {w : ι}
    (hbusy : s.busy w = false) (buf : Chunk) :
    ((s.reserve w buf).finish w).file = (s.file.write buf.bytes).2 := by
  have hwrite : s.file.write buf.bytes
      = (s.reserve w buf).file.complete s.file.counter buf.bytes :=
    if_neg (Nat.pos_iff_ne_zero.mp buf.length_pos)
  obtain ⟨hnone, -⟩ | ⟨c, hc, hin, h⟩ := (s.reserve w buf).finish_cases w
  · exact absurd ⟨rfl, rfl⟩ (hnone ⟨w, s.file.counter, buf, none⟩
      (List.mem_append_right _ List.mem_cons_self))
  · rw [h, hwrite]
    obtain hc | hc := List.mem_append.mp hc
    · exact absurd (decide_eq_true hin) (List.any_eq_false.mp hbusy c hc)
    · rw [List.mem_singleton.mp hc]
      rfl

section Finish

variable {first : Nat} {s : SharedFile ι} (h : Tracked first s)

include h

/-- A call after a thread finished: it is the one that the thread was in,
with its own result, or it is as it was. -/
theorem Tracked.mem_finish {w : ι} {c' : WriteCall ι}
    (hc' : c' ∈ (s.finish w).calls) :
    (∃ c ∈ s.calls, c.ret = none
      ∧ c' = { c with ret := some (s.file.complete c.off c.buf.bytes).1 }
      ∧ (s.finish w).file = (s.file.complete c.off c.buf.bytes).2)
    ∨ c' ∈ s.calls ∧ ((s.finish w).file = s.file
      ∨ ∃ c ∈ s.calls, c.ret = none ∧ c ≠ c'
        ∧ (s.finish w).file = (s.file.complete c.off c.buf.bytes).2) := by
  obtain ⟨-, heq⟩ | ⟨c, hc, hin, heq⟩ := s.finish_cases w
  · rw [heq] at hc' ⊢
    exact .inr ⟨hc', .inl rfl⟩
  · rw [heq] at hc' ⊢
    obtain ⟨c₀, hc₀, rfl⟩ := List.mem_map.mp hc'
    by_cases hin₀ : IsIn w c₀
    · have hsame : c₀ = c :=
        h.single c₀ hc₀ c hc hin₀.2 hin.2 (hin₀.1.trans hin.1.symm)
      rw [if_pos hin₀, hsame]
      exact .inl ⟨c, hc, hin.2, rfl, rfl⟩
    · rw [if_neg hin₀]
      refine .inr ⟨hc₀, .inr ⟨c, hc, hin.2, ?_, rfl⟩⟩
      rintro rfl
      exact hin₀ hin

/-- A call has succeeded if its place was in the file. -/
theorem Tracked.outcome_finish {w : ι} {c' : WriteCall ι}
    (hc' : c' ∈ (s.finish w).calls) (hret : c'.ret ≠ none) :
    Succeeded c' ↔ (s.finish w).Fit c' := by
  unfold Fit
  rw [capacity_finish]
  obtain ⟨c, hc, -, rfl, -⟩ | ⟨hc', -⟩ := h.mem_finish hc'
  · rw [h.complete_eq hc]
    unfold Succeeded
    split
    case isTrue hfit => exact iff_of_true rfl hfit
    case isFalse hfit =>
      refine iff_of_false (fun heq => ?_) hfit
      have hlength : enomem = (c.buf.bytes.length : Int) :=
        Option.some.inj heq
      unfold enomem at hlength
      omega
  · exact h.outcome c' hc' hret

/-- And its bytes are where it took its place. -/
theorem Tracked.holds_finish {w : ι} {c' : WriteCall ι}
    (hc' : c' ∈ (s.finish w).calls) (hsucceeded : Succeeded c') :
    (s.finish w).Holds c' := by
  unfold Holds
  obtain ⟨c, hc, -, rfl, hfile⟩ | ⟨hc', hfile⟩ := h.mem_finish hc'
  · rw [hfile, h.complete_eq hc]
    rw [h.complete_eq hc] at hsucceeded
    split at hsucceeded
    case isTrue hfit =>
      rw [if_pos hfit]
      exact (h.holds_copy hc).1
    case isFalse hfit =>
      have hlength : enomem = (c.buf.bytes.length : Int) :=
        Option.some.inj hsucceeded
      unfold enomem at hlength
      omega
  · obtain hsame | ⟨c, hc, -, hne, hfile⟩ := hfile
    · rw [hsame]
      exact h.holds c' hc' hsucceeded
    · intro i hi
      refine Eq.trans ?_ (h.holds c' hc' hsucceeded i hi)
      rw [hfile, h.complete_eq hc]
      split
      · exact (h.holds_copy hc).2 c' hc' hne i hi
      · rfl

/-- The invariant over one call that finishes. -/
theorem Tracked.finish (w : ι) : Tracked first (s.finish w) where
  tiles := by
    rw [regions_finish, counter_finish]
    exact h.tiles
  counter_le := by
    rw [counter_finish, capacity_finish]
    exact h.counter_le
  single := fun c hc c' hc' hret hret' =>
    h.single c (inProgress_finish hc hret).1 c'
      (inProgress_finish hc' hret').1 hret hret'
  outcome := fun _ hc' => h.outcome_finish hc'
  holds := fun _ hc' => h.holds_finish hc'

/-- A thread that is not in a call reserves up to the end of the mapping at
most. -/
theorem Tracked.reserve {w : ι} {buf : Chunk} (hbusy : s.busy w = false)
    (hle : s.file.counter.toNat + buf.bytes.length
      ≤ s.file.capacity.toNat) :
    (s.reserve w buf).file.counter.toNat
        = s.file.counter.toNat + buf.bytes.length
      ∧ Tracked first (s.reserve w buf) := by
  have hcounter : (s.reserve w buf).file.counter.toNat
      = s.file.counter.toNat + buf.bytes.length :=
    toNat_counter_reserve s w buf
      (Nat.le_trans hle (Nat.le_of_lt_succ s.file.capacity.toNat_lt))
  have hidle : ∀ c ∈ s.calls, c.ret = none → c.writer ≠ w := by
    intro c hc hret hw
    have hany := List.any_eq_false.mp hbusy c hc
    exact hany (decide_eq_true ⟨hw, hret⟩)
  have hold : ∀ c ∈ (s.reserve w buf).calls, c ∈ s.calls
      ∨ c = ⟨w, s.file.counter, buf, none⟩ := by
    intro c hc
    exact (List.mem_append.mp hc).imp_right List.mem_singleton.mp
  refine ⟨hcounter, ?_, ?_, ?_, ?_, ?_⟩
  · rw [hcounter]
    show Lib.Extent.Tiles first ((s.calls ++ [_]).map region) _
    rw [List.map_append]
    exact h.tiles.snoc _
  · rw [hcounter]
    exact hle
  · intro c hc c' hc' hret hret' hw
    obtain hc | rfl := hold c hc
    · obtain hc' | rfl := hold c' hc'
      · exact h.single c hc c' hc' hret hret' hw
      · exact absurd hw (hidle c hc hret)
    · obtain hc' | rfl := hold c' hc'
      · exact absurd hw.symm (hidle c' hc' hret')
      · rfl
  · intro c hc hret
    obtain hc | rfl := hold c hc
    · exact h.outcome c hc hret
    · exact absurd rfl hret
  · intro c hc hsucceeded
    obtain hc | rfl := hold c hc
    · exact h.holds c hc hsucceeded
    · cases hsucceeded

end Finish

-- ================================================================ settled

/-- Finishing keeps what is tracked, the counter and the mapping, and leaves
no thread of the list in a call. -/
theorem Tracked.foldl_finish {first : Nat} {s : SharedFile ι}
    (h : Tracked first s) (ws : List ι) :
    Tracked first (ws.foldl SharedFile.finish s)
      ∧ (ws.foldl SharedFile.finish s).file.capacity = s.file.capacity
      ∧ (ws.foldl SharedFile.finish s).calls.map region
        = s.calls.map region
      ∧ ∀ c ∈ (ws.foldl SharedFile.finish s).calls, c.ret = none →
        c ∈ s.calls ∧ c.writer ∉ ws := by
  induction ws generalizing s with
  | nil => exact ⟨h, rfl, rfl, fun c hc _ => ⟨hc, List.not_mem_nil⟩⟩
  | cons w ws ih =>
      obtain ⟨htracked, hcapacity, hregions, hin⟩ := ih (h.finish w)
      refine ⟨htracked, hcapacity.trans (capacity_finish s w),
        hregions.trans (regions_finish s w), fun c hc hret => ?_⟩
      obtain ⟨hmem, hnot⟩ := hin c hc hret
      obtain ⟨hold, hw⟩ := inProgress_finish hmem hret
      exact ⟨hold, List.not_mem_cons_of_ne_of_not_mem hw hnot⟩

section Settle

variable {first : Nat} {s : SharedFile ι} (h : Tracked first s)

include h

/-- Over all of them. -/
theorem Tracked.settle : Tracked first s.settle := (h.foldl_finish _).1

/-- The file is as long as before. -/
theorem Tracked.capacity_settle : s.settle.file.capacity = s.file.capacity :=
  (h.foldl_finish _).2.1

/-- And the places are the same. -/
theorem Tracked.regions_settle :
    s.settle.calls.map region = s.calls.map region :=
  (h.foldl_finish _).2.2.1

/-- Nothing is in progress then. -/
theorem Tracked.returned_settle {c : WriteCall ι}
    (hc : c ∈ s.settle.calls) : c.ret ≠ none := by
  intro hret
  obtain ⟨hmem, hnot⟩ := (h.foldl_finish _).2.2.2 c hc hret
  exact hnot (List.mem_map.mpr ⟨c, hmem, rfl⟩)

/-- Whether calls fit can be read off either way. -/
theorem Tracked.forall_fit_settle :
    (∀ c ∈ s.settle.calls, s.settle.Fit c) ↔ ∀ c ∈ s.calls, s.Fit c := by
  rw [forall_fit_iff, forall_fit_iff, h.regions_settle, h.capacity_settle]

/-- Once all have returned, the successes add up to what was reserved
exactly if every call fits. -/
theorem Tracked.total_settle_iff :
    s.settle.file.counter.toNat
        = first + (s.settle.successes.map
          fun c => c.buf.bytes.length).sum
      ↔ ∀ c ∈ s.calls, s.Fit c := by
  have hsum := h.settle.tiles.sum
  rw [List.map_map] at hsum
  have hpos : ∀ c ∈ s.settle.calls, 0 < c.buf.bytes.length :=
    fun c _ => c.buf.length_pos
  have hall := Lib.sum_filter_eq_iff (fun c : WriteCall ι => Succeeded c)
    (fun c => c.buf.bytes.length) hpos
  have hsuccess : (∀ c ∈ s.settle.calls, decide (Succeeded c) = true)
      ↔ ∀ c ∈ s.settle.calls, s.settle.Fit c := by
    refine forall₂_congr fun c hc => ?_
    rw [decide_eq_true_iff]
    exact h.settle.outcome c hc (h.returned_settle hc)
  rw [← h.forall_fit_settle, ← hsuccess, ← hall, hsum, Nat.add_right_inj,
    eq_comm]
  exact Iff.rfl

end Settle

-- ==================================================================== sound

/-- While the counter is in the mapping, the file is sound exactly if every
call fits. -/
theorem sound_iff_fits {first : Nat} {s : SharedFile ι}
    (h : Tracked first s) :
    Sound first s ↔ ∀ c ∈ s.calls, s.Fit c := by
  constructor
  · intro hsound
    exact h.total_settle_iff.mp hsound.total
  · intro hfits
    have hsuccess {c : WriteCall ι} (hc : c ∈ s.successes) :
        c ∈ s.calls ∧ Succeeded c := by
      have hmem := List.mem_filter.mp hc
      exact ⟨hmem.1, of_decide_eq_true hmem.2⟩
    refine ⟨?_, ?_, ?_, ?_, h.total_settle_iff.mpr hfits, ?_⟩
    · exact h.tiles.pairwise.sublist
        (List.filter_sublist.map region)
    · intro c hc
      exact ⟨(h.bounds (hsuccess hc).1).1,
        Nat.le_of_lt (hfits c (hsuccess hc).1)⟩
    · intro c hc
      exact h.holds c (hsuccess hc).1 (hsuccess hc).2
    · exact UInt64.le_iff_toNat_le.mpr h.counter_le
    · intro i hfirst hlast
      obtain ⟨e, he, hcovers⟩ :=
        h.settle.tiles.exists_covers hfirst hlast
      obtain ⟨c, hc, rfl⟩ := List.mem_map.mp he
      have hfit := h.forall_fit_settle.mpr hfits c hc
      have hsucceeded :=
        (h.settle.outcome c hc (h.returned_settle hc)).mpr hfit
      exact ⟨c, List.mem_filter.mpr ⟨hc, decide_eq_true hsucceeded⟩,
        hcovers⟩

/-- Every call so far fits. -/
structure Good (first : Nat) (s : SharedFile ι) : Prop where
  tracked : Tracked first s
  fits : ∀ c ∈ s.calls, s.Fit c

/-- Finishing keeps the invariant. -/
theorem Good.finish {first : Nat} {s : SharedFile ι} (h : Good first s)
    (w : ι) : Good first (s.finish w) := by
  refine ⟨h.tracked.finish w, ?_⟩
  rw [forall_fit_iff, regions_finish, capacity_finish]
  exact s.forall_fit_iff.mp h.fits

/-- A reservation up to the end of the mapping at most. -/
theorem Good.reserve {first : Nat} {s : SharedFile ι} (h : Good first s)
    {w : ι} {buf : Chunk} (hbusy : s.busy w = false)
    (hfits : s.file.counter.toNat + buf.bytes.length
      < s.file.capacity.toNat) : Good first (s.reserve w buf) := by
  refine ⟨(h.tracked.reserve hbusy (Nat.le_of_lt hfits)).2, fun c hc => ?_⟩
  obtain hc | hc := List.mem_append.mp hc
  · exact h.fits c hc
  · rw [List.mem_singleton.mp hc]
    exact hfits

/-- The step lemma: a call that takes a place, or one that finishes. -/
theorem good_step {first : Nat} {s : SharedFile ι} {op : Op ι}
    (h : Good first s) (hop : s.Fits op) : Good first (s.step op) := by
  cases op with
  | finish w => exact h.finish w
  | reserve w buf =>
      show Good first (if s.busy w then s else s.reserve w buf)
      split
      case isTrue => exact h
      case isFalse hbusy =>
        exact h.reserve (Bool.eq_false_iff.mpr hbusy)
          (hop.resolve_left hbusy)

/-- A step leaves the file sound exactly if what it reserves fits. -/
theorem sound_step_iff {first : Nat} {s : SharedFile ι} (h : Good first s)
    (op : Op ι) : Sound first (s.step op) ↔ s.Fits op := by
  constructor
  · intro hsound
    cases op with
    | finish w => exact True.intro
    | reserve w buf =>
        by_cases hbusy : s.busy w = true
        · exact .inl hbusy
        · have hstep : s.step (.reserve w buf) = s.reserve w buf :=
            if_neg hbusy
          rw [hstep] at hsound
          have hcap := s.file.capacity_lt
          have hlen := buf.length_lt
          have hcounter := h.tracked.counter_le
          have hnext := toNat_counter_reserve s w buf (by omega)
          have hle : s.file.counter.toNat + buf.bytes.length
              ≤ s.file.capacity.toNat := by
            rw [← hnext]
            exact UInt64.le_iff_toNat_le.mp hsound.counter_le
          obtain ⟨-, htracked⟩ :=
            h.tracked.reserve (Bool.eq_false_iff.mpr hbusy) hle
          exact .inr ((sound_iff_fits htracked).mp hsound _
            (List.mem_append_right _ List.mem_cons_self))
  · intro hop
    have hgood := good_step h hop
    exact (sound_iff_fits hgood.tracked).mpr hgood.fits

omit [DecidableEq ι] in
/-- A file whose counter is within it. -/
theorem good_start {file : AsyncMappedFile}
    (h : file.counter ≤ file.capacity) :
    Good file.counter.toNat (start file : SharedFile ι) where
  tracked :=
    { tiles := rfl
      counter_le := UInt64.le_iff_toNat_le.mp h
      single := List.forall_mem_nil _
      outcome := List.forall_mem_nil _
      holds := List.forall_mem_nil _ }
  fits := List.forall_mem_nil _

/-- In whatever order the threads take their steps, the file is sound all
the way exactly if the counter starts in the mapping and everything that is
reserved ends before its end. -/
theorem appends_sound_iff (file : AsyncMappedFile) (ops : List (Op ι)) :
    (Sound file.counter.toNat (start file : SharedFile ι)
      ∧ Lib.Admits step (fun s op => Sound file.counter.toNat (s.step op))
        (start file) ops)
    ↔ file.counter ≤ file.capacity
      ∧ Lib.Admits step Fits (start file) ops := by
  constructor
  · rintro ⟨hstart, hops⟩
    have hle : file.counter ≤ file.capacity := hstart.counter_le
    exact ⟨hle, (Lib.admits_iff_of_step (I := Good file.counter.toNat)
      (p := fun _ _ => True) (fun s op h _ => sound_step_iff h op)
      (fun s op h _ hop => good_step h hop) (good_start hle)
      (Lib.Admits.trivial _ ops)).mp hops⟩
  · rintro ⟨hle, hops⟩
    have hgood := good_start (ι := ι) hle
    exact ⟨(sound_iff_fits hgood.tracked).mpr hgood.fits,
      (Lib.admits_iff_of_step (I := Good file.counter.toNat)
        (p := fun _ _ => True) (fun s op h _ => sound_step_iff h op)
        (fun s op h _ hop => good_step h hop) hgood
        (Lib.Admits.trivial _ ops)).mpr hops⟩

/-- A write of sixteen bytes, with eight bytes left: it is refused, and
counted. -/
theorem refused_write_moves_counter :
    ¬ ∀ (file : AsyncMappedFile) (ops : List (Op Nat)),
      file.counter ≤ file.capacity →
      Sound file.counter.toNat (Lib.run step (start file) ops) := by
  intro h
  have hsound := h
    (AsyncMappedFile.openWritable (fun _ => 0)
      (AsyncMappedFile.maxLogfileSize - 8))
    [.reserve 0 ⟨List.replicate 16 65, by decide, by decide⟩, .finish 0]
    (by decide)
  exact absurd hsound.counter_le (by decide)

end SharedFile

end TradingEngine.Core
