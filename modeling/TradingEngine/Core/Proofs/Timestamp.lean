/-
Sums and differences of timestamps are those of the nanoseconds, in both
spellings, up to the carry of `operator+=`.

Each operator has one lemma, which says what it does to the fields of
normalized timestamps; what a pair of operators gives together is read off
these. A sum with a carry comes out of `operator+=` unnormalized, or two
seconds early.

# Normalized

All is stated for times whose nanoseconds make no second, which are what
clocks and files give. Comparisons of those are comparisons of the
nanoseconds. A difference borrows a second where it has to in both of its
spellings; a sum carries one in `operator+` and does not in `operator+=`, and
the condition is that there is none to carry. `time_t` has 64 bits, so a sum
of times far from the epoch may wrap, which the condition excludes as well.
-/
import TradingEngine.Core.Timestamp

namespace TradingEngine.OE.Timestamp

variable {t u : Timestamp}

-- ================================================================= operators

/-- The nanoseconds make no whole second together. -/
def CarryFree (t u : Timestamp) : Prop := t.nsec + u.nsec < 1000000000

/-- `time_t` holds the seconds of the sum. -/
def SumFits (t u : Timestamp) : Prop :=
  t.sec + u.sec + (t.nsec + u.nsec) / 1000000000 < 9223372036854775808

instance (t u : Timestamp) : Decidable (t.CarryFree u) :=
  inferInstanceAs (Decidable (_ < _))

instance (t u : Timestamp) : Decidable (t.SumFits u) :=
  inferInstanceAs (Decidable (_ < _))

/-- `operator+` carries in the constructor. -/
theorem add_eq (ht : t.SubSecond) (hu : u.SubSecond) :
    t.add u = ⟨signed (t.sec + u.sec + (t.nsec + u.nsec) / 1000000000),
      (t.nsec + u.nsec) % 1000000000⟩ := by
  obtain ⟨htn, htl⟩ := ht
  obtain ⟨hun, hul⟩ := hu
  have hnsec : signed (t.nsec + u.nsec) = t.nsec + u.nsec :=
    signed_eq (by omega) (by omega)
  have hsec : signed (signed (t.sec + u.sec)
      + (t.nsec + u.nsec) / 1000000000)
      = signed (t.sec + u.sec + (t.nsec + u.nsec) / 1000000000) := by
    unfold signed
    omega
  have hlt : ¬ (t.nsec + u.nsec) % 1000000000 > 1000000000 := by omega
  unfold add
  dsimp only
  rw [hnsec, make_of_nonneg (by omega) (by omega), hsec]
  exact if_neg hlt

/-- `operator+=` below a second. -/
theorem addAssign_of_carryFree (ht : t.Normalized) (hu : u.Normalized)
    (h : t.CarryFree u) :
    t.addAssign u = ⟨signed (t.sec + u.sec), t.nsec + u.nsec⟩ := by
  have htn := ht.nsec_nonneg
  have hun := hu.nsec_nonneg
  unfold CarryFree at h
  have hnsec : signed (t.nsec + u.nsec) = t.nsec + u.nsec :=
    signed_eq (by omega) (by omega)
  have hle : ¬ t.nsec + u.nsec > 1000000000 := by omega
  unfold addAssign
  dsimp only
  rw [hnsec]
  exact if_neg hle

/-- From a second on, `operator+=` is not `operator+`. -/
theorem addAssign_ne_add (ht : t.Normalized) (hu : u.Normalized)
    (h : ¬ t.CarryFree u) : t.addAssign u ≠ t.add u := by
  obtain ⟨hts, htf, htn, htl⟩ := ht
  obtain ⟨hus, huf, hun, hul⟩ := hu
  unfold CarryFree at h
  have hnsec : signed (t.nsec + u.nsec) = t.nsec + u.nsec :=
    signed_eq (by omega) (by omega)
  rw [add_eq ⟨htn, htl⟩ ⟨hun, hul⟩]
  unfold addAssign
  dsimp only
  rw [hnsec]
  intro heq
  split at heq
  case isTrue hgt =>
    have hsec := congrArg Timestamp.sec heq
    unfold signed at hsec
    dsimp only at hsec
    omega
  case isFalse hle =>
    have hn := congrArg Timestamp.nsec heq
    dsimp only at hn
    omega

/-- `time_t` holds the difference of the seconds, and one less. -/
def DifferenceFits (t u : Timestamp) : Prop :=
  -9223372036854775808 < t.sec - u.sec
    ∧ t.sec - u.sec < 9223372036854775808

/-- The difference of two times fits 64 bits if the times are normalized. -/
theorem Normalized.differenceFits (ht : t.Normalized) (hu : u.Normalized) :
    t.DifferenceFits u := by
  obtain ⟨hts, htf, -, -⟩ := ht
  obtain ⟨hus, huf, -, -⟩ := hu
  unfold DifferenceFits
  omega

/-- Both differences borrow a second when they have to. -/
theorem sub_eq (ht : t.SubSecond) (hu : u.SubSecond)
    (hfits : t.DifferenceFits u) :
    t.sub u = t.subAssign u ∧ t.subAssign u
      = if t.nsec < u.nsec then
          ⟨t.sec - u.sec - 1, t.nsec + 1000000000 - u.nsec⟩
        else ⟨t.sec - u.sec, t.nsec - u.nsec⟩ := by
  obtain ⟨htn, htl⟩ := ht
  obtain ⟨hun, hul⟩ := hu
  unfold DifferenceFits at hfits
  have hsec : signed (t.sec - u.sec) = t.sec - u.sec :=
    signed_eq (by omega) (by omega)
  have hborrow : signed (t.sec - u.sec - 1) = t.sec - u.sec - 1 :=
    signed_eq (by omega) (by omega)
  have hmake : make (t.sec - u.sec) 0 = ⟨t.sec - u.sec, 0⟩ := by
    rw [make_of_nonneg (by omega) (by omega)]
    simp [hsec]
  unfold sub subAssign
  dsimp only
  rw [hsec, hmake, hborrow]
  constructor
  · rfl
  · by_cases hlt : t.nsec < u.nsec
    · have hup : signed (t.nsec + 1000000000) = t.nsec + 1000000000 :=
        signed_eq (by omega) (by omega)
      have hdown : signed (t.nsec + 1000000000 - u.nsec)
          = t.nsec + 1000000000 - u.nsec :=
        signed_eq (by omega) (by omega)
      rw [if_pos hlt, if_pos hlt, hup, hdown]
    · have hdown : signed (t.nsec - u.nsec) = t.nsec - u.nsec :=
        signed_eq (by omega) (by omega)
      rw [if_neg hlt, if_neg hlt, hdown]

/-- The seconds of a difference are the whole ones in it. -/
theorem sub_sec (ht : t.SubSecond) (hu : u.SubSecond)
    (hfits : t.DifferenceFits u) :
    (t.sub u).sec = (t.nanos - u.nanos) / 1000000000 := by
  obtain ⟨hsame, heq⟩ := sub_eq ht hu hfits
  obtain ⟨htn, htl⟩ := ht
  obtain ⟨hun, hul⟩ := hu
  rw [hsame, heq]
  unfold nanos
  split
  case isTrue => dsimp only; omega
  case isFalse => dsimp only; omega

-- ===================================================================== order

section Order

variable (ht : t.SubSecond) (hu : u.SubSecond)

include ht hu

/-- The order of the fields is the order of the nanoseconds. -/
theorem lt_iff_nanos : t.lt u = true ↔ t.nanos < u.nanos := by
  obtain ⟨htn, htl⟩ := ht
  obtain ⟨hun, hul⟩ := hu
  rw [lt_iff]
  unfold nanos
  omega

/-- Different times have different nanoseconds. -/
theorem eq_iff_nanos : t.eq u = true ↔ t.nanos = u.nanos := by
  obtain ⟨htn, htl⟩ := ht
  obtain ⟨hun, hul⟩ := hu
  rw [eq_iff]
  constructor
  · intro h
    rw [h]
  · intro h
    unfold nanos at h
    obtain ⟨ts, tn⟩ := t
    obtain ⟨us, un⟩ := u
    dsimp only at *
    congr 1
    · omega
    · omega

/-- `operator<=`, as nanoseconds. -/
theorem le_iff_nanos : t.le u = true ↔ t.nanos ≤ u.nanos := by
  rw [le_eq, Bool.or_eq_true, eq_iff_nanos ht hu, lt_iff_nanos ht hu]
  omega

/-- `operator>`. -/
theorem gt_iff_nanos : t.gt u = true ↔ u.nanos < t.nanos := by
  unfold gt
  rw [Bool.not_eq_true', ← Bool.not_eq_true, le_iff_nanos ht hu]
  omega

/-- `operator>=`. -/
theorem ge_iff_nanos : t.ge u = true ↔ u.nanos ≤ t.nanos := by
  unfold ge
  rw [Bool.not_eq_true', ← Bool.not_eq_true, lt_iff_nanos ht hu]
  omega

/-- `operator!=`. -/
theorem ne_iff_nanos : t.ne u = true ↔ t.nanos ≠ u.nanos := by
  unfold ne
  rw [Bool.not_eq_true', ← Bool.not_eq_true, eq_iff_nanos ht hu]

/-- A timestamp is known by its nanoseconds. -/
theorem ext_nanos (h : t.nanos = u.nanos) : t = u :=
  eq_iff.mp ((eq_iff_nanos ht hu).mpr h)

end Order

/-- Each comparison is that of the nanoseconds. -/
structure OrderAgrees (t u : Timestamp) : Prop where
  eq : t.eq u = true ↔ t.nanos = u.nanos
  ne : t.ne u = true ↔ t.nanos ≠ u.nanos
  lt : t.lt u = true ↔ t.nanos < u.nanos
  le : t.le u = true ↔ t.nanos ≤ u.nanos
  gt : t.gt u = true ↔ u.nanos < t.nanos
  ge : t.ge u = true ↔ u.nanos ≤ t.nanos

/-- All the comparisons of normalized times are those of their nanoseconds. -/
theorem orderAgrees (ht : t.Normalized) (hu : u.Normalized) :
    OrderAgrees t u where
  eq := eq_iff_nanos ht.subSecond hu.subSecond
  ne := ne_iff_nanos ht.subSecond hu.subSecond
  lt := lt_iff_nanos ht.subSecond hu.subSecond
  le := le_iff_nanos ht.subSecond hu.subSecond
  gt := gt_iff_nanos ht.subSecond hu.subSecond
  ge := ge_iff_nanos ht.subSecond hu.subSecond

-- ==================================================================== sums

/-- Both sums are the sum of the times. -/
structure SumAgrees (t u : Timestamp) : Prop where
  same : t.addAssign u = t.add u
  normalized : (t.add u).Normalized
  nanos : (t.add u).nanos = t.nanos + u.nanos

/-- Both differences are the difference of the times. -/
structure DifferenceAgrees (t u : Timestamp) : Prop where
  same : t.subAssign u = t.sub u
  normalized : (t.sub u).Normalized
  nanos : (t.sub u).nanos = t.nanos - u.nanos

/-- A sum that fits is the sum of the times. -/
theorem add_normalized (ht : t.Normalized) (hu : u.Normalized)
    (hfits : t.SumFits u) :
    (t.add u).Normalized ∧ (t.add u).nanos = t.nanos + u.nanos := by
  obtain ⟨hts, htf, htn, htl⟩ := ht
  obtain ⟨hus, huf, hun, hul⟩ := hu
  unfold SumFits at hfits
  rw [add_eq ⟨htn, htl⟩ ⟨hun, hul⟩,
    signed_eq (by omega) hfits]
  refine ⟨⟨?_, hfits, ?_, ?_⟩, ?_⟩
  · dsimp only
    omega
  · dsimp only
    omega
  · dsimp only
    omega
  · unfold nanos
    dsimp only
    omega

/-- One that does not wraps to before the epoch. -/
theorem add_sec_neg (ht : t.Normalized) (hu : u.Normalized)
    (h : ¬ t.SumFits u) : (t.add u).sec < 0 := by
  obtain ⟨hts, htf, htn, htl⟩ := ht
  obtain ⟨hus, huf, hun, hul⟩ := hu
  unfold SumFits at h
  rw [add_eq ⟨htn, htl⟩ ⟨hun, hul⟩]
  unfold signed
  dsimp only
  omega

/-- `operator+=` agrees with `operator+` up to a carry. -/
theorem addAssign_eq_add_iff (ht : t.Normalized) (hu : u.Normalized) :
    t.addAssign u = t.add u ↔ t.CarryFree u := by
  constructor
  · intro h
    apply Classical.byContradiction
    intro hcarry
    exact addAssign_ne_add ht hu hcarry h
  · intro h
    have htn := ht.nsec_nonneg
    have hun := hu.nsec_nonneg
    have hfree := h
    unfold CarryFree at hfree
    have hdiv : (t.nsec + u.nsec) / 1000000000 = 0 := by omega
    have hmod : (t.nsec + u.nsec) % 1000000000 = t.nsec + u.nsec := by
      omega
    rw [addAssign_of_carryFree ht hu h, add_eq ht.subSecond hu.subSecond,
      hdiv, hmod,
      Int.add_zero]

/-- A sum is right exactly if it carries nothing and fits. -/
theorem sumAgrees_iff (ht : t.Normalized) (hu : u.Normalized) :
    SumAgrees t u ↔ t.CarryFree u ∧ t.SumFits u := by
  constructor
  · intro h
    refine ⟨(addAssign_eq_add_iff ht hu).mp h.same, ?_⟩
    apply Classical.byContradiction
    intro hfits
    have hneg := add_sec_neg ht hu hfits
    have hpos := h.normalized.sec_nonneg
    omega
  · intro h
    have hadd := add_normalized ht hu h.2
    exact ⟨(addAssign_eq_add_iff ht hu).mpr h.1, hadd.1, hadd.2⟩

/-- A difference that is not negative is the difference of the times. -/
theorem subAssign_normalized (ht : t.Normalized) (hu : u.Normalized)
    (hle : u.nanos ≤ t.nanos) :
    (t.subAssign u).Normalized
      ∧ (t.subAssign u).nanos = t.nanos - u.nanos := by
  have heq :=
    (sub_eq ht.subSecond hu.subSecond (ht.differenceFits hu)).2
  obtain ⟨hts, htf, htn, htl⟩ := ht
  obtain ⟨hus, huf, hun, hul⟩ := hu
  unfold nanos at hle
  rw [heq]
  split
  case isTrue hlt =>
    refine ⟨⟨?_, ?_, ?_, ?_⟩, ?_⟩
    all_goals simp only [nanos]
    all_goals omega
  case isFalse hlt =>
    refine ⟨⟨?_, ?_, ?_, ?_⟩, ?_⟩
    all_goals simp only [nanos]
    all_goals omega

/-- A difference is right whenever it is not negative. -/
theorem differenceAgrees (ht : t.Normalized) (hu : u.Normalized)
    (h : t.ge u = true) : DifferenceAgrees t u := by
  have hsame :=
    (sub_eq ht.subSecond hu.subSecond (ht.differenceFits hu)).1
  have hle := (ge_iff_nanos ht.subSecond hu.subSecond).mp h
  obtain ⟨hnorm, hnanos⟩ := subAssign_normalized ht hu hle
  exact ⟨hsame.symm, hsame ▸ hnorm, hsame ▸ hnanos⟩

/-- What was added can be taken off. -/
theorem add_sub_cancel (ht : t.Normalized) (hu : u.Normalized)
    (hfits : t.SumFits u) : (t.add u).sub u = t := by
  obtain ⟨hnorm, hnanos⟩ := add_normalized ht hu hfits
  have hge : (t.add u).ge u = true := by
    apply (ge_iff_nanos hnorm.subSecond hu.subSecond).mpr
    have hpos : 0 ≤ t.nanos := by
      have hs := ht.sec_nonneg
      have hn := ht.nsec_nonneg
      unfold nanos
      omega
    omega
  have hsub := differenceAgrees hnorm hu hge
  apply ext_nanos hsub.normalized.subSecond ht.subSecond
  rw [hsub.nanos, hnanos]
  omega

-- ============================================================== arithmetic

/-- What the operators are to be for `t` and `u`, and for a third time that
may be later than `t`. -/
structure ArithmeticAgrees (t t' u : Timestamp) : Prop where
  sum : SumAgrees t u
  difference : t.ge u = true → DifferenceAgrees t u
  undone : (t.add u).sub u = t
  order : OrderAgrees t u
  monotone : t.lt t' = true → (t.add u).lt (t'.add u) = true

/-- Adding keeps the order exactly while the later sum fits. -/
theorem add_lt_add_iff {t' : Timestamp} (ht : t.Normalized)
    (ht' : t'.Normalized) (hu : u.Normalized) (hfits : t.SumFits u)
    (h : t.lt t' = true) :
    (t.add u).lt (t'.add u) = true ↔ t'.SumFits u := by
  obtain ⟨hnorm, hnanos⟩ := add_normalized ht hu hfits
  constructor
  · intro hlt
    apply Classical.byContradiction
    intro hwraps
    have hneg := add_sec_neg ht' hu hwraps
    have hpos := hnorm.sec_nonneg
    rw [lt_iff] at hlt
    omega
  · intro hfits'
    obtain ⟨hnorm', hnanos'⟩ := add_normalized ht' hu hfits'
    have hlt := (lt_iff_nanos ht.subSecond ht'.subSecond).mp h
    apply (lt_iff_nanos hnorm.subSecond hnorm'.subSecond).mpr
    omega

/-- The operators are those of the nanoseconds exactly where no second is
carried and the sums fit. -/
theorem arithmeticAgrees_iff {t t' u : Timestamp} (ht : t.Normalized)
    (ht' : t'.Normalized) (hu : u.Normalized) :
    ArithmeticAgrees t t' u
      ↔ t.CarryFree u ∧ t.SumFits u ∧ (t.lt t' = true → t'.SumFits u) := by
  constructor
  · intro h
    obtain ⟨hfree, hfits⟩ := (sumAgrees_iff ht hu).mp h.sum
    refine ⟨hfree, hfits, fun hlt => ?_⟩
    exact (add_lt_add_iff ht ht' hu hfits hlt).mp (h.monotone hlt)
  · intro ⟨hfree, hfits, hlater⟩
    exact
      { sum := (sumAgrees_iff ht hu).mpr ⟨hfree, hfits⟩
        difference := differenceAgrees ht hu
        undone := add_sub_cancel ht hu hfits
        order := orderAgrees ht hu
        monotone := fun hlt =>
          (add_lt_add_iff ht ht' hu hfits hlt).mpr (hlater hlt) }

theorem arithmeticAgrees_iff_quarters :
    ArithmeticAgrees ⟨1, 250000000⟩ ⟨2, 0⟩ ⟨3, 250000000⟩
      ↔ CarryFree ⟨1, 250000000⟩ ⟨3, 250000000⟩
        ∧ SumFits ⟨1, 250000000⟩ ⟨3, 250000000⟩
        ∧ (lt ⟨1, 250000000⟩ ⟨2, 0⟩ = true
          → SumFits ⟨2, 0⟩ ⟨3, 250000000⟩) :=
  arithmeticAgrees_iff (by decide) (by decide) (by decide)

/-- Six tenths of a second and six tenths are a second and two tenths less
two. -/
theorem arithmetic_disagrees :
    ¬ ∀ t t' u : Timestamp, t.Normalized → t'.Normalized → u.Normalized →
      ArithmeticAgrees t t' u := by
  intro h
  have hsum := (h ⟨0, 600000000⟩ ⟨0, 600000000⟩ ⟨0, 600000000⟩ (by decide)
    (by decide) (by decide)).sum.same
  revert hsum
  decide

end TradingEngine.OE.Timestamp
