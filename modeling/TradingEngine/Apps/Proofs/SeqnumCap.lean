/-
Reading a sequence log back, whatever is in the file.

The steps are taken by a length that the file gives, and the end is known
by its address alone. What goes wrong: a length of zero stays where it is
for ever; a header that is cut off, or a length that goes past the end, is
visited all the same, and only then skipped; and a file of nothing but its
header has a beginning that is not its end, since the end of no bytes is a
null pointer.

# What a file has

The length that the reader goes by is the counter in the file next to it.
Nothing compares it with the size of the file itself, so an event can be
within the counter and behind the bytes of the file: it is there only if
both have it (`present`).

So a file is safe to iterate exactly if its counter has no room for a
header, or has bytes after it that records fill, and the file has them
(`safe_iff`).
-/
import TradingEngine.Apps.SeqnumCap
import TradingEngine.Core.Proofs.AsyncMappedFile

namespace TradingEngine.Apps.SeqnumCap

open TradingEngine.Core (AsyncMappedFile)

-- ============================================================ what should be

/-- The bytes of a file that there are: within its counter, and within its
own size. -/
def present (file : AsyncMappedFile) : Nat :=
  min file.counter.toNat file.capacity.toNat

/-- An event whose header and declared length are in the file, after the
file's own header. -/
structure InFile (file : AsyncMappedFile) (p : Nat) : Prop where
  after : fileHeaderSize ≤ p
  header : p + eventHeaderSize ≤ present file
  declared : p + lengthAt file.data p ≤ present file

/-- The loop ends, and visits nothing but events in the file. -/
structure Safe (file : AsyncMappedFile) : Prop where
  ends : ∃ turns, (SeqnumReader.make file).ends turns
    (SeqnumReader.make file).begin = true
  inFile : ∀ turns, ∀ p ∈ (SeqnumReader.make file).visits turns
    (SeqnumReader.make file).begin, InFile file p

/-- Records fill the file from an address to its counter: each is longer
than nothing, ends in the file, and has room for a header. -/
inductive Filled (file : AsyncMappedFile) : Nat → Prop
  | done : Filled file file.counter.toNat
  | event {p : Nat} (header : p + eventHeaderSize ≤ present file)
      (moves : 0 < lengthAt file.data p)
      (declared : p + lengthAt file.data p ≤ present file)
      (rest : Filled file (p + lengthAt file.data p)) : Filled file p

-- =================================================================== turns

/-- An iterator over a file with bytes after its header. -/
def cursor (file : AsyncMappedFile) (p : Nat) : ConstIterator :=
  ⟨some p, some file.counter.toNat, file.counter.toNat - fileHeaderSize⟩

/-- Where `operator++` goes from an address. -/
def nextAt (file : AsyncMappedFile) (p : Nat) : Nat :=
  if lengthAt file.data p + p ≤ file.counter.toNat then
    p + lengthAt file.data p
  else file.counter.toNat

/-- Of a file no more is there than the counter says. -/
theorem present_le (file : AsyncMappedFile) :
    present file ≤ file.counter.toNat :=
  Nat.min_le_left _ _

/-- A record in the file is stepped over. -/
theorem nextAt_of_le {file : AsyncMappedFile} {p : Nat}
    (h : p + lengthAt file.data p ≤ file.counter.toNat) :
    nextAt file p = p + lengthAt file.data p :=
  if_pos (by omega)

section Turns

variable {file : AsyncMappedFile}

/-- A file without its header has no events. -/
theorem more_begin_of_lt (h : file.counter.toNat < fileHeaderSize) :
    (SeqnumReader.make file).more (SeqnumReader.make file).begin
      = false := by
  have hmake : SeqnumReader.make file = ⟨file.data, none, 0⟩ :=
    if_neg (Nat.not_le.mpr h)
  rw [hmake]
  rfl

/-- The beginning of a file of nothing but its header is not its end. -/
theorem more_begin_of_eq (h : file.counter.toNat = fileHeaderSize) :
    (SeqnumReader.make file).begin.buf = some fileHeaderSize
      ∧ (SeqnumReader.make file).more (SeqnumReader.make file).begin
        = true := by
  have hmake : SeqnumReader.make file
      = ⟨file.data, some fileHeaderSize, 0⟩ := by
    unfold SeqnumReader.make AsyncMappedFile.asReadonlyBuffer
    dsimp only
    rw [h, if_pos le_rfl, Nat.sub_self]
  rw [hmake]
  exact ⟨rfl, rfl⟩

section Whole

variable (h : fileHeaderSize < file.counter.toNat)

include h

/-- A reader of a file with its header. -/
theorem make_whole : SeqnumReader.make file
    = ⟨file.data, some fileHeaderSize,
      file.counter.toNat - fileHeaderSize⟩ :=
  if_pos (Nat.le_of_lt h)

/-- It begins behind the header. -/
theorem begin_whole :
    (SeqnumReader.make file).begin = cursor file fileHeaderSize := by
  have hlen : file.counter.toNat - fileHeaderSize ≠ 0 := by omega
  have hend : fileHeaderSize + (file.counter.toNat - fileHeaderSize)
      = file.counter.toNat := by omega
  rw [make_whole h]
  unfold SeqnumReader.begin ConstIterator.make cursor
  dsimp only
  rw [if_pos hlen, Option.map_some, hend]

/-- It goes on until the counter. -/
theorem more_cursor (p : Nat) :
    (SeqnumReader.make file).more (cursor file p) = true
      ↔ p ≠ file.counter.toNat := by
  have hend : (SeqnumReader.make file).finish.buf
      = some file.counter.toNat := by
    have hlen : file.counter.toNat - fileHeaderSize > 0 := by omega
    have hsum : fileHeaderSize + (file.counter.toNat - fileHeaderSize)
        = file.counter.toNat := by omega
    rw [make_whole h]
    unfold SeqnumReader.finish
    dsimp only
    rw [if_pos hlen, Option.map_some, hsum]
    rfl
  unfold SeqnumReader.more
  rw [decide_eq_true_iff, hend]
  exact not_congr (Option.some_inj)

/-- From an event to the one behind it. -/
theorem next_cursor (p : Nat) :
    (SeqnumReader.make file).next (cursor file p)
      = cursor file (nextAt file p) := by
  rw [make_whole h]
  unfold SeqnumReader.next cursor nextAt
  dsimp only
  split <;> rfl

/-- Without a turn, only at the end. -/
theorem ends_zero (p : Nat) :
    (SeqnumReader.make file).ends 0 (cursor file p) = true
      ↔ p = file.counter.toNat := by
  unfold SeqnumReader.ends
  rw [Bool.not_eq_true', ← Bool.not_eq_true, more_cursor h, Decidable.not_not]

/-- Or one turn later. -/
theorem ends_succ (turns p : Nat) :
    (SeqnumReader.make file).ends (turns + 1) (cursor file p) = true
      ↔ p = file.counter.toNat
        ∨ (SeqnumReader.make file).ends turns
          (cursor file (nextAt file p)) = true := by
  rw [SeqnumReader.ends, Bool.or_eq_true, next_cursor h, Bool.not_eq_true',
    ← Bool.not_eq_true, more_cursor h, Decidable.not_not]

/-- An event is visited, and then those behind it. -/
theorem visits_succ (turns p : Nat) :
    (SeqnumReader.make file).visits (turns + 1) (cursor file p)
      = if p = file.counter.toNat then []
        else p :: (SeqnumReader.make file).visits turns
          (cursor file (nextAt file p)) := by
  rw [SeqnumReader.visits]
  by_cases hp : p = file.counter.toNat
  · rw [if_pos hp, if_neg fun hmore => (more_cursor h p).mp hmore hp]
  · rw [if_neg hp, if_pos ((more_cursor h p).mpr hp), next_cursor h]
    rfl

-- ================================================================ safe files

/-- A loop that ends and stays in the file has records before it. -/
theorem filled_of_ends {turns p : Nat}
    (hends : (SeqnumReader.make file).ends turns (cursor file p) = true)
    (hin : ∀ q ∈ (SeqnumReader.make file).visits turns (cursor file p),
      InFile file q) : Filled file p := by
  induction turns generalizing p with
  | zero =>
      rw [(ends_zero h p).mp hends]
      exact .done
  | succ turns ih =>
      rw [visits_succ h] at hin
      obtain hp | hends := (ends_succ h turns p).mp hends
      · rw [hp]
        exact .done
      · by_cases hp : p = file.counter.toNat
        · rw [hp]
          exact .done
        · rw [if_neg hp] at hin
          have hevent := hin p List.mem_cons_self
          have hle := Nat.le_trans hevent.declared (present_le file)
          rw [nextAt_of_le hle] at hends hin
          have hrest := ih hends fun q hq =>
            hin q (List.mem_cons_of_mem p hq)
          by_cases hmoves : 0 < lengthAt file.data p
          · exact .event hevent.header hmoves hevent.declared hrest
          · -- a record of no length is where it began
            rwa [Nat.eq_zero_of_not_pos hmoves] at hrest

/-- Over records the loop ends and stays in the file. -/
theorem safe_of_filled {p : Nat} (hp : fileHeaderSize ≤ p)
    (hfilled : Filled file p) :
    (∃ turns, (SeqnumReader.make file).ends turns (cursor file p) = true)
    ∧ ∀ turns, ∀ q ∈ (SeqnumReader.make file).visits turns
      (cursor file p), InFile file q := by
  induction hfilled with
  | done =>
      refine ⟨⟨0, (ends_zero h _).mpr rfl⟩, fun turns q hq => ?_⟩
      cases turns with
      | zero => cases hq
      | succ turns =>
          rw [visits_succ h, if_pos rfl] at hq
          cases hq
  | @event p header moves declared rest ih =>
      obtain ⟨⟨turns, hends⟩, hin⟩ := ih (by omega)
      rw [← nextAt_of_le (Nat.le_trans declared (present_le file))]
        at hends hin
      refine ⟨⟨turns + 1, (ends_succ h turns p).mpr (.inr hends)⟩,
        fun turns q hq => ?_⟩
      cases turns with
      | zero => cases hq
      | succ turns =>
          rw [visits_succ h] at hq
          split at hq
          · cases hq
          · cases hq with
            | head => exact ⟨hp, header, declared⟩
            | tail _ hq => exact hin turns q hq

end Whole

end Turns

/-- The loop is safe exactly over a file whose counter has no header, and
over one whose bytes after it are records, at least one, all of them
there. -/
theorem safe_iff (file : AsyncMappedFile) :
    Safe file ↔ file.counter.toNat < fileHeaderSize
      ∨ fileHeaderSize < file.counter.toNat
        ∧ Filled file fileHeaderSize := by
  rcases Nat.lt_trichotomy file.counter.toNat fileHeaderSize with h | h | h
  · have hover := more_begin_of_lt h
    refine iff_of_true ⟨⟨0, ?_⟩, fun turns p hp => ?_⟩ (.inl h)
    · rw [SeqnumReader.ends, hover]
      rfl
    · cases turns with
      | zero => cases hp
      | succ turns =>
          rw [SeqnumReader.visits, hover] at hp
          cases hp
  · obtain ⟨hbuf, hmore⟩ := more_begin_of_eq h
    refine iff_of_false (fun hsafe => ?_) (by omega)
    have hfirst : fileHeaderSize ∈ (SeqnumReader.make file).visits 1
        (SeqnumReader.make file).begin := by
      rw [SeqnumReader.visits, if_pos hmore, hbuf]
      exact List.mem_cons_self
    have hheader := (hsafe.inFile 1 _ hfirst).header
    have hle := present_le file
    unfold eventHeaderSize at hheader
    omega
  · have hbegin := begin_whole h
    constructor
    · rintro ⟨⟨turns, hends⟩, hin⟩
      rw [hbegin] at hends hin
      exact .inr ⟨h, filled_of_ends h hends (hin turns)⟩
    · rintro (hlt | ⟨-, hfilled⟩)
      · omega
      · obtain ⟨hends, hin⟩ := safe_of_filled h le_rfl hfilled
        rw [← hbegin] at hends hin
        exact ⟨hends, hin⟩

-- ==================================================================== events

namespace Event

/-- An event is as long as its kind says. -/
theorem length_bytes (e : Event) : e.bytes.length = e.size.toNat := by
  cases e <;> rfl

/-- An event is longer than its header, and shorter than a log. -/
theorem size_bounds (e : Event) :
    eventHeaderSize ≤ e.size.toNat ∧ e.size.toNat < 256 := by
  cases e <;> simp [size, eventHeaderSize]

/-- The bytes of its length. -/
theorem bytes_length_field (e : Event) :
    (e.bytes.getD 17 0).toNat = e.size.toNat ∧ e.bytes.getD 18 0 = 0
      ∧ e.bytes.getD 19 0 = 0 ∧ e.bytes.getD 20 0 = 0 := by
  cases e <;> exact ⟨rfl, rfl, rfl, rfl⟩

end Event

/-- The bytes of an event are at an address. -/
def Placed (data : Nat → UInt8) (p : Nat) (e : Event) : Prop :=
  ∀ i < e.bytes.length, data (p + i) = e.bytes.getD i 0

/-- There the reader finds its length. -/
theorem Placed.lengthAt {data : Nat → UInt8} {p : Nat} {e : Event}
    (h : Placed data p e) : lengthAt data p = e.size.toNat := by
  have hlength := e.length_bytes
  have hsize := e.size_bounds.1
  unfold eventHeaderSize at hsize
  obtain ⟨h17, h18, h19, h20⟩ := e.bytes_length_field
  have hzero : (0 : UInt8).toNat = 0 := rfl
  unfold SeqnumCap.lengthAt
  rw [h 17 (by omega), h 18 (by omega), h 19 (by omega), h 20 (by omega),
    h17, h18, h19, h20, hzero]
  omega

/-- The events lie one after another, from an address to another. -/
def Laid (data : Nat → UInt8) : Nat → List Event → Nat → Prop
  | p, [], q => p = q
  | p, e :: es, q =>
      Placed data p e ∧ Laid data (p + e.size.toNat) es q

/-- Events lie behind where they begin. -/
theorem Laid.le {data : Nat → UInt8} {p q : Nat} {es : List Event}
    (h : Laid data p es q) : p ≤ q := by
  induction es generalizing p with
  | nil => exact Nat.le_of_eq h
  | cons e es ih => exact Nat.le_trans (Nat.le_add_right _ _) (ih h.2)

/-- From an event the reader goes on behind it. -/
theorem Laid.nextAt_eq {file : AsyncMappedFile} {p q : Nat} {e : Event}
    {es : List Event} (h : Laid file.data p (e :: es) q)
    (hq : q ≤ file.counter.toNat) : nextAt file p = p + e.size.toNat := by
  have hlength := h.1.lengthAt
  have hle := h.2.le
  rw [nextAt_of_le (by omega), hlength]

/-- What is changed behind them does not matter. -/
theorem Laid.congr {data data' : Nat → UInt8} {p q : Nat} {es : List Event}
    (h : Laid data p es q) (hdata : ∀ i < q, data' i = data i) :
    Laid data' p es q := by
  induction es generalizing p with
  | nil => exact h
  | cons e es ih =>
      have hle := h.2.le
      refine ⟨fun i hi => ?_, ih h.2⟩
      rw [e.length_bytes] at hi
      rw [hdata (p + i) (by omega)]
      exact h.1 i (by rwa [e.length_bytes])

/-- One more event behind them. -/
theorem Laid.snoc {data : Nat → UInt8} {p q : Nat} {es : List Event}
    (h : Laid data p es q) {e : Event} (he : Placed data q e) :
    Laid data p (es ++ [e]) (q + e.size.toNat) := by
  induction es generalizing p with
  | nil =>
      have heq : p = q := h
      rw [heq]
      exact ⟨he, rfl⟩
  | cons e' es ih => exact ⟨h.1, ih h.2⟩

-- ================================================================= read back

/-- The loop ends, and visits these events, in their order. -/
def Exact (file : AsyncMappedFile) (es : List Event) : Prop :=
  ∃ turns, (SeqnumReader.make file).ends turns
      (SeqnumReader.make file).begin = true
    ∧ List.Forall₂ (Placed file.data)
      ((SeqnumReader.make file).visits turns
        (SeqnumReader.make file).begin) es

section ReadBack

variable {file : AsyncMappedFile} (h : fileHeaderSize < file.counter.toNat)

include h

/-- Events up to the end of the file are visited. -/
theorem exact_of_laid {p : Nat} {es : List Event}
    (hlaid : Laid file.data p es file.counter.toNat) :
    (SeqnumReader.make file).ends es.length (cursor file p) = true
    ∧ List.Forall₂ (Placed file.data)
      ((SeqnumReader.make file).visits es.length (cursor file p)) es := by
  induction es generalizing p with
  | nil => exact ⟨(ends_zero h p).mpr hlaid, .nil⟩
  | cons e es ih =>
      have hsize := e.size_bounds.1
      unfold eventHeaderSize at hsize
      have hle := hlaid.2.le
      have hnext := hlaid.nextAt_eq le_rfl
      obtain ⟨hends, hvisits⟩ := ih hlaid.2
      rw [← hnext] at hends hvisits
      rw [List.length_cons, ends_succ h, visits_succ h, if_neg (by omega)]
      exact ⟨.inr hends, .cons hlaid.1 hvisits⟩

/-- With anything behind them, more is visited than the events. -/
theorem length_visits_of_laid {p q turns : Nat} {es : List Event}
    (hlaid : Laid file.data p es q) (hq : q < file.counter.toNat)
    (hends : (SeqnumReader.make file).ends turns (cursor file p) = true) :
    es.length < ((SeqnumReader.make file).visits turns
      (cursor file p)).length := by
  have hp : p ≠ file.counter.toNat := by
    have hle := hlaid.le
    omega
  induction es generalizing p turns with
  | nil =>
      cases turns with
      | zero => exact absurd ((ends_zero h p).mp hends) hp
      | succ turns =>
          rw [visits_succ h, if_neg hp]
          exact Nat.succ_pos _
  | cons e es ih =>
      cases turns with
      | zero => exact absurd ((ends_zero h p).mp hends) hp
      | succ turns =>
          have hle := hlaid.2.le
          have hnext := hlaid.nextAt_eq (by omega)
          have hrest := ((ends_succ h turns p).mp hends).resolve_left hp
          rw [visits_succ h, if_neg hp, List.length_cons, List.length_cons]
          rw [hnext] at hrest ⊢
          exact Nat.succ_lt_succ (ih hlaid.2 hrest (by omega))

end ReadBack

-- =================================================================== written

/-- An event finds room: what it reserves ends before the mapping does. -/
def Fits (log : SeqnumLog) (e : Event) : Prop :=
  log.file.counter.toNat + e.size.toNat < log.file.capacity.toNat

instance (log : SeqnumLog) (e : Event) : Decidable (Fits log e) :=
  inferInstanceAs (Decidable (_ < _))

/-- A log that the events of lie behind the header, up to the counter. -/
structure Good (log : SeqnumLog) : Prop where
  counter_le : log.file.counter ≤ log.file.capacity
  laid : Laid log.file.data fileHeaderSize log.written
    log.file.counter.toNat

section Written

variable {log : SeqnumLog} (h : Good log) (e : Event)

include h

/-- An event that fits is written behind the others; any event moves the
counter. -/
theorem Good.step_cases :
    (log.step e).file.counter.toNat
        = log.file.counter.toNat + e.size.toNat
      ∧ (log.step e).file.capacity = log.file.capacity
      ∧ if Fits log e then
          (log.step e).written = log.written ++ [e]
            ∧ (log.step e).file.data
              = (log.file.copy log.file.counter e.bytes).data
        else
          (log.step e).written = log.written
            ∧ (log.step e).file.data = log.file.data := by
  have hlength := e.length_bytes
  have hsize := e.size_bounds
  unfold eventHeaderSize at hsize
  have hpos : 0 < e.bytes.length := by omega
  have hlt : e.bytes.length < 2147483648 := by omega
  obtain ⟨hcounter, hcapacity, hrest⟩ :=
    AsyncMappedFile.write_eq hpos hlt h.counter_le
  rw [hlength] at hcounter hrest
  refine ⟨hcounter, hcapacity, ?_⟩
  by_cases hfits : Fits log e
  · rw [if_pos hfits]
    rw [if_pos (show log.file.counter.toNat + e.size.toNat
      < log.file.capacity.toNat from hfits)] at hrest
    refine ⟨if_neg ?_, hrest.2⟩
    rw [hrest.1]
    omega
  · rw [if_neg hfits]
    rw [if_neg (show ¬log.file.counter.toNat + e.size.toNat
      < log.file.capacity.toNat from hfits)] at hrest
    refine ⟨if_pos ?_, hrest.2⟩
    rw [hrest.1]
    decide

variable {e}

/-- The step lemma: an event that fits is recorded behind the others. -/
theorem Good.step (hfits : Fits log e) : Good (log.step e) := by
  obtain ⟨hcounter, hcapacity, hrest⟩ := h.step_cases e
  rw [if_pos hfits] at hrest
  obtain ⟨hwritten, hdata⟩ := hrest
  refine ⟨?_, ?_⟩
  · rw [UInt64.le_iff_toNat_le, hcounter, hcapacity]
    exact Nat.le_of_lt hfits
  · rw [hwritten, hcounter, hdata]
    have hcopy (i : Nat) (hi : i < log.file.counter.toNat) :
        (log.file.copy log.file.counter e.bytes).data i
          = log.file.data i := by
      unfold AsyncMappedFile.copy
      exact if_neg (by omega)
    refine (h.laid.congr hcopy).snoc fun i hi => ?_
    unfold AsyncMappedFile.copy
    dsimp only
    rw [if_pos (by omega), Nat.add_sub_cancel_left]

/-- After an event exactly what was written is read back, if and only if
the event was. -/
theorem Good.exact_step_iff :
    Exact (log.step e).file (log.step e).written ↔ Fits log e := by
  obtain ⟨hcounter, -, hrest⟩ := h.step_cases e
  have hlaid := h.laid.le
  have hsize := e.size_bounds.1
  have hwhole : fileHeaderSize < (log.step e).file.counter.toNat := by
    unfold eventHeaderSize at hsize
    omega
  unfold Exact
  rw [begin_whole hwhole]
  constructor
  · rintro ⟨turns, hends, hvisits⟩
    by_contra hfits
    rw [if_neg hfits] at hrest
    have hlaid : Laid (log.step e).file.data fileHeaderSize log.written
        log.file.counter.toNat := by
      rw [hrest.2]
      exact h.laid
    have hhole : log.file.counter.toNat
        < (log.step e).file.counter.toNat := by
      unfold eventHeaderSize at hsize
      omega
    have hmore := length_visits_of_laid hwhole hlaid hhole hends
    rw [hvisits.length_eq, hrest.1] at hmore
    exact Nat.lt_irrefl _ hmore
  · intro hfits
    exact ⟨_, exact_of_laid hwhole (h.step hfits).laid⟩

end Written

/-- Nothing but a header: its first turn is not its last. -/
theorem not_exact_of_header {file : AsyncMappedFile}
    (h : file.counter.toNat = fileHeaderSize) : ¬Exact file [] := by
  rintro ⟨turns, hends, hvisits⟩
  obtain ⟨hbuf, hmore⟩ := more_begin_of_eq h
  cases turns with
  | zero =>
      rw [SeqnumReader.ends, hmore] at hends
      cases hends
  | succ turns =>
      rw [SeqnumReader.visits, if_pos hmore, hbuf] at hvisits
      cases hvisits

/-- The header is the struct. -/
theorem length_headerOf (mic : MIC) (name : List UInt8) :
    (headerOf mic name).bytes.length = fileHeaderSize := by
  have hname : (conformingName name).length ≤ feedNameSize :=
    List.length_take_le _ _
  unfold FileHeader.bytes headerOf
  simp only [List.length_append, Lib.length_leBytes, List.length_singleton,
    List.length_replicate]
  unfold feedNameSize at hname ⊢
  unfold fileHeaderSize
  omega

/-- A file that a writer has made of an empty one. -/
theorem openWriter_empty {mic : MIC} {name : List UInt8}
    {file file' : AsyncMappedFile} (hempty : file.counter = 0)
    (hopen : openWriter mic name file = (.ok (), file')) :
    file'.counter.toNat = fileHeaderSize
      ∧ fileHeaderSize < file'.capacity.toNat
      ∧ file'.capacity = file.capacity
      ∧ ∀ i < fileHeaderSize, file'.data i
        = (headerOf mic name).bytes.getD i 0 := by
  have hlength := length_headerOf mic name
  unfold fileHeaderSize at hlength ⊢
  have hzero : file.counter.toNat = 0 := by rw [hempty]; rfl
  have hle : file.counter ≤ file.capacity := by
    rw [UInt64.le_iff_toNat_le, hzero]
    exact Nat.zero_le _
  have hpos : 0 < (headerOf mic name).bytes.length := by omega
  have hlt : (headerOf mic name).bytes.length < 2147483648 := by omega
  obtain ⟨hcounter, hcapacity, hrest⟩ :=
    AsyncMappedFile.write_eq hpos hlt hle
  rw [hlength, hzero, Nat.zero_add] at hcounter hrest
  unfold openWriter at hopen
  rw [if_pos hempty] at hopen
  dsimp only at hopen
  split at hopen
  · cases hopen
  · split at hrest
    case isTrue hroom =>
      rw [if_neg (by rw [hrest.1]; decide)] at hopen
      obtain rfl := (Prod.mk.inj hopen).2
      refine ⟨hcounter, by rwa [hcapacity], hcapacity, fun i hi => ?_⟩
      rw [hrest.2]
      unfold AsyncMappedFile.copy
      dsimp only
      rw [if_pos (by omega), hzero, Nat.sub_zero]
    case isFalse hroom =>
      rw [if_pos (by rw [hrest.1]; decide)] at hopen
      cases (Prod.mk.inj hopen).1

-- ==================================================================== files

/-- Iterating is safe over exactly the files of `safe_iff`. Of a file that
was written, exactly what was written is read back after each event as long
as each finds room, and not before the first. -/
theorem iteration_iff (file : AsyncMappedFile) :
    (Safe file ↔ file.counter.toNat < fileHeaderSize
      ∨ fileHeaderSize < file.counter.toNat ∧ Filled file fileHeaderSize)
    ∧ ∀ (mic : MIC) (name : List UInt8) (file' : AsyncMappedFile),
      file.counter = 0 → openWriter mic name file = (.ok (), file') →
      ¬Exact file' [] ∧ ∀ es : List Event,
        Lib.Admits SeqnumLog.step
            (fun log e => Exact (log.step e).file (log.step e).written)
            ⟨file', []⟩ es
          ↔ Lib.Admits SeqnumLog.step Fits ⟨file', []⟩ es := by
  refine ⟨safe_iff file, fun mic name file' hempty hopen => ?_⟩
  obtain ⟨hcounter, hroom, -, -⟩ := openWriter_empty hempty hopen
  refine ⟨not_exact_of_header hcounter, fun es => ?_⟩
  have hle : file'.counter ≤ file'.capacity :=
    UInt64.le_iff_toNat_le.mpr (by omega)
  have hgood : Good ⟨file', []⟩ := ⟨hle, hcounter.symm⟩
  exact Lib.admits_iff_of_step (I := Good) (p := fun _ _ => True)
    (fun log e h _ => h.exact_step_iff) (fun log e h _ => h.step) hgood
    (Lib.Admits.trivial _ es)

/-- A log of two events, in a terabyte. -/
theorem iteration_two_events :
    Lib.Admits SeqnumLog.step
      (fun log e => Exact (log.step e).file (log.step e).written)
      ⟨(openWriter .xnas [73, 84, 67, 72]
        (AsyncMappedFile.openWritable (fun _ => 0) 0)).2, []⟩
      [.onSeqnum ⟨1, 2⟩ 7 0, .onTimeout ⟨3, 4⟩ true 1 ⟨1, 2⟩] :=
  (((iteration_iff (AsyncMappedFile.openWritable (fun _ => 0) 0)).2 .xnas
    [73, 84, 67, 72] _ rfl rfl).2 _).mpr
    ⟨by decide, by decide, True.intro⟩

/-- A file that a writer has opened, without an event yet: its iteration
visits what is behind it. -/
theorem fresh_file_not_safe : ¬ ∀ file : AsyncMappedFile, Safe file := by
  intro h
  have hsafe := (safe_iff _).mp (h (openWriter .xnas [73, 84, 67, 72]
    (AsyncMappedFile.openWritable (fun _ => 0) 0)).2)
  have hcounter : (openWriter .xnas [73, 84, 67, 72]
      (AsyncMappedFile.openWritable (fun _ => 0) 0)).2.counter.toNat
      = fileHeaderSize := by decide
  omega

end TradingEngine.Apps.SeqnumCap
