/-
Live locate updates: what `update_locates_live` does to the pool of an
instrument, for every value the pass over the universe can hand it.

Between two configured sizes the difference fits and the update is right
(`raisesPool_of_configured`). The unset value is the minimum of the type
and an operand like any other, so as soon as one of the two is unset the
difference leaves the range: a first configuration is ignored, and for a
symbol that is no longer in the file the difference comes out positive.
The one exception is a pool of size zero, from which the minimum can be
subtracted (`live_update_iff`).

# Machine integers

The sizes are 64-bit integers, and the unset value is the least of them. A
difference with it is out of range for all but one other operand, so the
model has the wrapped difference and whether it overflowed, and the result
asks that it did not. The condition is on the two sizes alone: what remains
of the pool at that time is moved by the same difference as its size.
-/
import TradingEngine.OE.LocateUpdates

namespace TradingEngine.OE

-- ========================================================= what is promised

/-- A configured locate size. -/
def ConfiguredSize (z : Int) : Prop := 0 ≤ z ∧ z < 9223372036854775808

instance (z : Int) : Decidable (ConfiguredSize z) := by
  unfold ConfiguredSize
  infer_instance

/-- The locate size and remaining count of an instrument: both unset, or
no more remaining than there are. -/
structure PoolSet (ei : EquityInstrument) (pos : Position) : Prop where
  unset : ¬ConfiguredSize ei.locateSize →
    ei.locateSize = locatesRemainingSentinel
      ∧ pos.locatesRemaining = locatesRemainingSentinel
  bounds : ConfiguredSize ei.locateSize →
    0 ≤ pos.locatesRemaining ∧ pos.locatesRemaining ≤ ei.locateSize

/-- What `update_locates_live(n, true)` is for: no overflow; an increase
of a configured size raises size and remaining by the difference; a first
size is available in full; anything else changes nothing. -/
def RaisesPool (ei : EquityInstrument) (pos : Position) (n : Int) : Prop :=
  let r := ei.updateLocatesLive pos n true
  r.overflows = false
    ∧ if ConfiguredSize ei.locateSize ∧ ConfiguredSize n
          ∧ ei.locateSize < n then
        r.instrument = { ei with locateSize := n }
          ∧ r.position = { pos with
            locatesRemaining :=
              pos.locatesRemaining + (n - ei.locateSize) }
      else if ei.locateSize = locatesRemainingSentinel
          ∧ n ≠ locatesRemainingSentinel then
        r.position = { pos with locatesRemaining := n }
      else r.instrument = ei ∧ r.position = pos

-- =============================================================== the update

variable {ei : EquityInstrument} {pos : Position} {n : Int}

/-- Whatever is done, only the remaining count of a position can move. -/
theorem updateLocatesLive_frame (ei : EquityInstrument) (pos : Position)
    (n : Int) (onlyIfIncreasing : Bool) :
    ∃ remaining, (ei.updateLocatesLive pos n onlyIfIncreasing).position
      = { pos with locatesRemaining := remaining } := by
  unfold EquityInstrument.updateLocatesLive
  split
  · exact ⟨pos.locatesRemaining, rfl⟩
  · dsimp only
    split
    · exact ⟨_, rfl⟩
    · exact ⟨pos.locatesRemaining, rfl⟩

/-- A difference that is not acted on leaves everything. -/
theorem updateLocatesLive_idle
    (h : EquityInstrument.locateDiffActs (i64 (n - ei.locateSize)) true
      = false) :
    ei.updateLocatesLive pos n true
      = ⟨ei, pos, decide (n ≠ ei.locateSize
          ∧ ¬FitsI64 (n - ei.locateSize))⟩ := by
  unfold EquityInstrument.updateLocatesLive
  split
  case isTrue heq => simp [heq]
  case isFalse hne =>
    dsimp only
    rw [if_neg (by rw [h]; decide)]
    simp [hne]

/-- One that is, moves the size to `n` and the remaining count by it. -/
theorem updateLocatesLive_acts
    (h : EquityInstrument.locateDiffActs (i64 (n - ei.locateSize)) true
      = true) :
    ei.updateLocatesLive pos n true
      = ⟨{ ei with locateSize := n },
          { pos with
            locatesRemaining :=
              i64 (pos.locatesRemaining + i64 (n - ei.locateSize)) },
          decide (¬(FitsI64 (n - ei.locateSize)
            ∧ FitsI64 (pos.locatesRemaining
              + i64 (n - ei.locateSize))))⟩ := by
  have hne : n ≠ ei.locateSize := by
    rintro rfl
    rw [sub_self] at h
    cases h
  unfold EquityInstrument.updateLocatesLive
  rw [if_neg hne]
  dsimp only
  rw [if_pos h]

theorem locateDiffActs_iff (d : Int) :
    EquityInstrument.locateDiffActs d true = true ↔ 0 < d := by
  unfold EquityInstrument.locateDiffActs
  simp only [Bool.true_and, Bool.not_eq_true', Bool.or_eq_false_iff,
    beq_eq_false_iff_ne, decide_eq_false_iff_not]
  omega

/-- An overflowing difference alone breaks the promise. -/
theorem overflows_of_diff (hne : n ≠ ei.locateSize)
    (h : ¬FitsI64 (n - ei.locateSize)) :
    (ei.updateLocatesLive pos n true).overflows = true := by
  cases hacts : EquityInstrument.locateDiffActs
      (i64 (n - ei.locateSize)) true with
  | false =>
      rw [updateLocatesLive_idle hacts]
      exact decide_eq_true ⟨hne, h⟩
  | true =>
      rw [updateLocatesLive_acts hacts]
      exact decide_eq_true fun hfits => h hfits.1

theorem raisesPool_of_same (h : n = ei.locateSize) :
    RaisesPool ei pos n := by
  have hup : ei.updateLocatesLive pos n true = ⟨ei, pos, false⟩ := by
    unfold EquityInstrument.updateLocatesLive
    rw [if_pos h]
  unfold RaisesPool
  dsimp only
  rw [hup, if_neg (by omega), if_neg fun hset => hset.2 (h.trans hset.1)]
  exact ⟨rfl, rfl, rfl⟩

/-- Between two configured sizes everything fits. -/
theorem raisesPool_of_configured (hpool : PoolSet ei pos)
    (hL : ConfiguredSize ei.locateSize) (hn : ConfiguredSize n) :
    RaisesPool ei pos n := by
  obtain ⟨hlow, hhigh⟩ := hpool.bounds hL
  unfold ConfiguredSize at hL hn
  have hfits : FitsI64 (n - ei.locateSize) := by
    unfold FitsI64
    omega
  have hdiff : i64 (n - ei.locateSize) = n - ei.locateSize :=
    i64_of_fits hfits
  have hset : ei.locateSize ≠ locatesRemainingSentinel := by
    unfold locatesRemainingSentinel
    omega
  unfold RaisesPool
  dsimp only
  by_cases hup : ei.locateSize < n
  · have hsum : FitsI64 (pos.locatesRemaining + (n - ei.locateSize)) := by
      unfold FitsI64
      omega
    have hacts : EquityInstrument.locateDiffActs
        (i64 (n - ei.locateSize)) true = true := by
      rw [locateDiffActs_iff, hdiff]
      omega
    rw [updateLocatesLive_acts hacts, hdiff, i64_of_fits hsum,
      if_pos ⟨hL, hn, hup⟩]
    exact ⟨decide_eq_false fun hno => hno ⟨hfits, hsum⟩, rfl, rfl⟩
  · have hidle : EquityInstrument.locateDiffActs
        (i64 (n - ei.locateSize)) true = false := by
      rw [Bool.eq_false_iff, ne_eq, locateDiffActs_iff, hdiff]
      omega
    rw [updateLocatesLive_idle hidle, if_neg fun h => hup h.2.2,
      if_neg fun h => hset h.1]
    exact ⟨decide_eq_false fun h => h.2 hfits, rfl, rfl⟩

/-- From zero the minimum of the type is a difference that fits. -/
theorem raisesPool_of_zero (hL : ei.locateSize = 0) :
    RaisesPool ei pos locatesRemainingSentinel := by
  have hfits : FitsI64 (locatesRemainingSentinel - ei.locateSize) := by
    rw [hL]
    decide
  have hidle : EquityInstrument.locateDiffActs
      (i64 (locatesRemainingSentinel - ei.locateSize)) true = false := by
    rw [hL]
    decide
  unfold RaisesPool
  dsimp only
  rw [updateLocatesLive_idle hidle,
    if_neg fun h => absurd h.2.1 (by decide),
    if_neg fun h => h.2 rfl]
  exact ⟨decide_eq_false fun h => h.2 hfits, rfl, rfl⟩

-- ================================================================== result

/-- For every state of the pool and every value the pass can hand over, a
live update does what it should exactly if both sizes are configured, or
neither is, or the size is zero and the symbol missing. -/
theorem live_update_iff (hpool : PoolSet ei pos)
    (hn : ConfiguredSize n ∨ n = locatesRemainingSentinel) :
    RaisesPool ei pos n
      ↔ ((ConfiguredSize ei.locateSize ↔ ConfiguredSize n)
          ∨ ei.locateSize = 0 ∧ n = locatesRemainingSentinel) := by
  have hbroken : ∀ {P : Prop}, n ≠ ei.locateSize →
      ¬FitsI64 (n - ei.locateSize) → (RaisesPool ei pos n → P) := by
    intro P hne hover hraises
    have hno := hraises.1
    rw [overflows_of_diff hne hover] at hno
    cases hno
  have hunset : ¬ConfiguredSize locatesRemainingSentinel := by decide
  by_cases hL : ConfiguredSize ei.locateSize
  · rcases hn with hn | hn
    · exact iff_of_true (raisesPool_of_configured hpool hL hn)
        (.inl (iff_of_true hL hn))
    · subst hn
      by_cases hzero : ei.locateSize = 0
      · exact iff_of_true (raisesPool_of_zero hzero) (.inr ⟨hzero, rfl⟩)
      · unfold ConfiguredSize at hL
        refine ⟨hbroken ?_ ?_, ?_⟩
        · unfold locatesRemainingSentinel
          omega
        · unfold FitsI64 locatesRemainingSentinel
          omega
        · rintro (hsame | ⟨hz, -⟩)
          · exact absurd (hsame.mp hL) hunset
          · exact absurd hz hzero
  · obtain ⟨hset, -⟩ := hpool.unset hL
    rcases hn with hn | hn
    · unfold ConfiguredSize at hn
      refine ⟨hbroken ?_ ?_, ?_⟩
      · rw [hset]
        unfold locatesRemainingSentinel
        omega
      · rw [hset]
        unfold FitsI64 locatesRemainingSentinel
        omega
      · rintro (hsame | ⟨hz, -⟩)
        · exact absurd (hsame.mpr hn) hL
        · rw [hset] at hz
          exact absurd hz (by decide)
    · subst hn
      exact iff_of_true (raisesPool_of_same hset.symm)
        (.inl (iff_of_false hL hunset))

/-- Two hundred more, a hundred of the thousand in use. -/
theorem live_update_iff_demo :
    let c : OrderManagerConf Unit Unit := .plain fun _ =>
      .dayLimit () .buy 1 1
    let pos := { c.position () with
      locatesRemaining := 900
      locatesUsed := 100 }
    RaisesPool (c.instrument ()) pos 1200 := by
  intro c pos
  have hpool : PoolSet (c.instrument ()) pos :=
    ⟨fun h => absurd (by decide) h, fun _ => by decide⟩
  exact (live_update_iff hpool (.inl (by decide))).mpr (.inl (by decide))

/-- The symbol goes missing, and the difference wraps: nine hundred
remaining locates become more than nine quintillion. -/
theorem missing_symbol_raises_pool :
    ¬ ∀ (ei : EquityInstrument) (pos : Position) (n : Int),
      PoolSet ei pos →
      ConfiguredSize n ∨ n = locatesRemainingSentinel →
      RaisesPool ei pos n := by
  intro h
  let c : OrderManagerConf Unit Unit := .plain fun _ =>
    .dayLimit () .buy 1 1
  let pos := { c.position () with
    locatesRemaining := 900
    locatesUsed := 100 }
  have hpool : PoolSet (c.instrument ()) pos :=
    ⟨fun h => absurd (by decide) h, fun _ => by decide⟩
  have hraised : ((c.instrument ()).updateLocatesLive pos
      locatesRemainingSentinel true).position.locatesRemaining
      = 9223372036854775708 := by decide
  have hno := (h (c.instrument ()) pos locatesRemainingSentinel hpool
    (.inr rfl)).2
  rw [if_neg (by decide), if_neg (by decide)] at hno
  rw [hno.2] at hraised
  exact absurd hraised (by decide)

end TradingEngine.OE
