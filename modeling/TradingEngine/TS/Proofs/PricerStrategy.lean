/-
The interval spread as the mean it should be.

`History` is what was said: the quotes, and when the interval began. What
the accumulator holds is found at the time of the newest quote
(`Tracks.numerator`); from there it goes on by the quote's own spread. It
counts from the last quote before the interval, with that quote's spread
taken back up to where the interval begins: `carried` is what is left of
that if quotes came in for times before the reset that they follow.

A query divides by the seconds since the beginning, of which there may be
none: `samples < 0`, which is there for that, is the state before any quote.

# The invariant

`Tracks` sees the statistics from the last quote: its time is the time up to
which seconds have been counted, and its spread is what goes on. A quote adds
the seconds since then at the old spread, a reset puts the count back and
notes its own second. Both keep `Tracks` as long as no call is for a second
before the last quote, and a query compares what is accumulated with the
total of the history (`Tracks.getIntervalSpread_iff`).
-/
import TradingEngine.TS.PricerStrategy
import TradingEngine.Lib.InForce
import TradingEngine.Lib.Run
import Mathlib.Tactic.LinearCombination

namespace TradingEngine.TS.PricerStrategy

open Lib (Sample)
open MD (FullL2Quote)
open OE (Timestamp)

-- ================================================================= history

/-- The quotes, newest first, those since the interval began apart, and the
second at which it did. `origin` is the last quote before. -/
structure History where
  since : List (Sample Int)
  origin : Sample Int
  earlier : List (Sample Int)
  start : Int

namespace History

/-- All quotes. -/
def quotes (h : History) : List (Sample Int) :=
  h.since ++ h.origin :: h.earlier

/-- The last quote. -/
def last (h : History) : Sample Int := h.since.headD h.origin

/-- The first quote begins the first interval. -/
def first (t : Timestamp) (evt : FullL2Quote) : History where
  since := []
  origin := ⟨t.sec, StockStats.spreadFixed evt⟩
  earlier := []
  start := t.sec

def step (h : History) : StockStats.Call → History
  | .update t evt =>
      { h with since := ⟨t.sec, StockStats.spreadFixed evt⟩ :: h.since }
  | .reset t =>
      match h.since with
      | [] => { h with start := t.sec }
      | u :: us =>
          { since := []
            origin := u
            earlier := us ++ h.origin :: h.earlier
            start := t.sec }

/-- No call is for a second before the last quote's. -/
def Timely (h : History) : StockStats.Call → Prop
  | .update t _ => h.last.time ≤ t.sec
  | .reset t => h.last.time ≤ t.sec

instance (h : History) : (c : StockStats.Call) → Decidable (h.Timely c)
  | .update _ _ => inferInstanceAs (Decidable (_ ≤ _))
  | .reset _ => inferInstanceAs (Decidable (_ ≤ _))

/-- The mean, over the whole seconds from the beginning to a time, of the
spread in force at each; the last spread if there is no whole second. -/
def mean (h : History) (t : Int) : Rat :=
  if t = h.start then (h.last.value : Rat) / 10000
  else ((Sample.total h.quotes h.start t : Int) : Rat)
    / ((t - h.start : Int) : Rat) / 10000

/-- A quote of this interval is the last one, and still from before it. -/
def Late (h : History) : Prop := h.since ≠ [] ∧ h.last.time < h.start

/-- What the quotes of the interval say of the seconds before it, other than
the last quote before it does. -/
def carried (h : History) : Int :=
  Sample.total h.quotes h.origin.time h.start
    - (h.start - h.origin.time) * h.origin.value

/-- No quote of the interval is from before it. -/
def InOrder (h : History) : Prop := ∀ u ∈ h.since, h.start ≤ u.time

instance (h : History) : Decidable h.InOrder :=
  inferInstanceAs (Decidable (∀ u ∈ h.since, h.start ≤ u.time))

end History

-- ================================================================= tracking

/-- What the statistics hold of a history, seen from its last quote. -/
structure Tracks (s : StockStats) (h : History) : Prop where
  have_any : s.haveAnyIntervalEvent = true
  origin_le : h.origin.time ≤ h.start
  origin_le_last : h.origin.time ≤ h.last.time
  time : s.lastIntervalEvent.timestamp.sec
    = if h.since = [] then h.start else h.last.time
  value : StockStats.spreadFixed s.lastIntervalEvent.quote = h.last.value
  samples : s.numIntervalSamples
    = s.lastIntervalEvent.timestamp.sec - h.start
  flag : s.haveIntervalEvent = false →
    s.spreadIntervalNumerator = 0 ∧ s.numIntervalSamples = 0
  numerator : s.spreadIntervalNumerator
      + h.last.value * (h.last.time - s.lastIntervalEvent.timestamp.sec)
    = Sample.total h.quotes h.origin.time h.last.time
      - (h.start - h.origin.time) * h.origin.value

/-- The spread is computed in ten-thousandths and divided once. -/
theorem spread_eq (q : FullL2Quote) :
    StockStats.spread q = (StockStats.spreadFixed q : Rat) / 10000 := by
  unfold StockStats.spread StockStats.spreadFixed
  push_cast
  ring

/-- The last quote is the newest. -/
theorem History.quotes_eq (h : History) :
    ∃ us, h.quotes = h.last :: us := by
  unfold History.quotes History.last
  cases h.since with
  | nil => exact ⟨h.earlier, rfl⟩
  | cons u us => exact ⟨us ++ h.origin :: h.earlier, rfl⟩

/-- Where the last quote is from before the interval, it has been in force
all along. -/
theorem History.mean_of_late {h : History} (hlate : h.Late) {t : Int}
    (ht : h.start ≤ t) :
    h.mean t = (h.last.value : Rat) / 10000 := by
  obtain ⟨us, hquotes⟩ := h.quotes_eq
  unfold History.mean
  split
  case isTrue => rfl
  case isFalse hne =>
    have hpos : ((t - h.start : Int) : Rat) ≠ 0 := by
      rw [Int.cast_ne_zero]
      omega
    have htotal : Sample.total h.quotes h.start t
        = (t - h.start) * h.last.value := by
      rw [hquotes]
      exact Sample.total_const (le_of_lt hlate.2) ht us
    rw [htotal, Int.cast_mul, mul_div_cancel_left₀ _ hpos]

/-- A reset begins after the last quote, and keeps them all. -/
theorem History.step_reset (h : History) (t : Timestamp) :
    (h.step (.reset t)).since = [] ∧ (h.step (.reset t)).origin = h.last
      ∧ (h.step (.reset t)).quotes = h.quotes
      ∧ (h.step (.reset t)).start = t.sec := by
  unfold History.step History.quotes History.last
  cases h.since with
  | nil => exact ⟨rfl, rfl, rfl, rfl⟩
  | cons u us => exact ⟨rfl, rfl, rfl, rfl⟩

/-- The first quote fills the statistics. -/
theorem tracks_first (t : Timestamp) (evt : FullL2Quote) :
    Tracks (StockStats.create.updateIntervalSpread t evt)
      (History.first t evt) where
  have_any := rfl
  origin_le := le_rfl
  origin_le_last := le_rfl
  time := rfl
  value := rfl
  samples := (sub_self t.sec).symm
  flag := fun _ => ⟨rfl, rfl⟩
  numerator := by
    show (0 : Int) + _ * (t.sec - t.sec) = Sample.total _ t.sec t.sec
      - (t.sec - t.sec) * _
    rw [Sample.total_self]
    ring

section Tracks

variable {s : StockStats} {h : History} (htracks : Tracks s h)

include htracks

/-- At any time after the last quote. -/
theorem Tracks.numerator_at {t : Int} (ht : h.last.time ≤ t) :
    s.spreadIntervalNumerator
        + h.last.value * (t - s.lastIntervalEvent.timestamp.sec)
      = Sample.total h.quotes h.origin.time t
        - (h.start - h.origin.time) * h.origin.value := by
  obtain ⟨us, hquotes⟩ := h.quotes_eq
  have hnow := htracks.numerator
  have hbehind : Sample.total h.quotes h.last.time t
      = (t - h.last.time) * h.last.value := by
    rw [hquotes]
    exact Sample.total_const le_rfl ht us
  rw [Sample.total_add h.quotes htracks.origin_le_last ht, hbehind]
  linear_combination hnow

/-- An update, whatever the flag: when it is not set there is nothing to
put back to zero. -/
theorem Tracks.update_eq (t : Timestamp) (evt : FullL2Quote) :
    s.updateIntervalSpread t evt
      = { spreadIntervalNumerator := s.spreadIntervalNumerator
            + h.last.value
              * (t.sec - s.lastIntervalEvent.timestamp.sec)
          numIntervalSamples := t.sec - h.start
          lastIntervalEvent := ⟨t, evt⟩
          haveAnyIntervalEvent := true
          haveIntervalEvent := true } := by
  have hsamples : s.numIntervalSamples
      + (t.sec - s.lastIntervalEvent.timestamp.sec) = t.sec - h.start := by
    rw [htracks.samples]
    ring
  unfold StockStats.updateIntervalSpread
  dsimp only
  rw [htracks.have_any, htracks.value, hsamples, if_neg (by decide)]
  cases hflag : s.haveIntervalEvent with
  | true => rfl
  | false =>
      obtain ⟨hnum, hcount⟩ := htracks.flag hflag
      rw [if_pos (by decide)]
      split
      case isTrue hsame =>
        rw [hcount, zero_add] at hsamples
        rw [← hsamples, ← hsame, hnum, mul_zero, add_zero]
      case isFalse => rfl

/-- A quote adds the seconds since the last one at the spread of that one. -/
theorem Tracks.update {t : Timestamp} {evt : FullL2Quote}
    (ht : h.last.time ≤ t.sec) :
    Tracks (s.updateIntervalSpread t evt) (h.step (.update t evt)) := by
  have hnum := htracks.numerator_at ht
  rw [htracks.update_eq]
  exact
    { have_any := rfl
      origin_le := htracks.origin_le
      origin_le_last := htracks.origin_le_last.trans ht
      time := rfl
      value := rfl
      samples := rfl
      flag := by rintro ⟨⟩
      numerator := by
        show s.spreadIntervalNumerator + h.last.value * _
            + _ * (t.sec - t.sec)
          = Sample.total (⟨t.sec, _⟩ :: h.quotes) h.origin.time t.sec
            - (h.start - h.origin.time) * h.origin.value
        rw [Sample.total_cons le_rfl, ← hnum]
        ring }

/-- A reset drops what was counted, and takes the quote along. -/
theorem Tracks.reset_eq (t : Timestamp) :
    s.resetIntervalSpread t
      = { s with
          haveIntervalEvent := false
          spreadIntervalNumerator := 0
          numIntervalSamples := 0
          lastIntervalEvent :=
            { s.lastIntervalEvent with timestamp := t } } := by
  unfold StockStats.resetIntervalSpread
  dsimp only
  rw [htracks.have_any, if_neg (by decide)]
  split
  case isTrue => rfl
  case isFalse hsame =>
    rw [← not_not.mp hsame]

/-- A reset begins at its own second with the spread in force. -/
theorem Tracks.reset {t : Timestamp} (ht : h.last.time ≤ t.sec) :
    Tracks (s.resetIntervalSpread t) (h.step (.reset t)) := by
  obtain ⟨hsince, horigin, hquotes, hstart⟩ := h.step_reset t
  have hlast : (h.step (.reset t)).last = h.last := by
    unfold History.last at horigin ⊢
    rw [hsince]
    exact horigin
  rw [htracks.reset_eq]
  exact
    { have_any := htracks.have_any
      origin_le := by rwa [horigin, hstart]
      origin_le_last := by rw [horigin, hlast]
      time := by rw [if_pos hsince, hstart]
      value := by rw [hlast]; exact htracks.value
      samples := by rw [hstart]; exact (sub_self _).symm
      flag := fun _ => ⟨rfl, rfl⟩
      numerator := by
        rw [hlast, horigin, hquotes, hstart, Sample.total_self]
        ring }

-- ================================================================= a query

/-- No sample is the mark of an interval whose quotes are all from before
it. -/
theorem Tracks.samples_neg_iff : s.numIntervalSamples < 0 ↔ h.Late := by
  have htime := htracks.time
  unfold History.Late
  rw [htracks.samples]
  by_cases hsince : h.since = []
  · rw [if_pos hsince] at htime
    refine iff_of_false ?_ fun hlate => hlate.1 hsince
    omega
  · rw [if_neg hsince] at htime
    rw [and_iff_right hsince, htime]
    exact sub_neg

/-- What is divided at a query. -/
theorem Tracks.query {t : Timestamp} (hlast : h.last.time ≤ t.sec)
    (hstart : h.start ≤ t.sec) :
    s.numIntervalSamples + (t.sec - s.lastIntervalEvent.timestamp.sec)
        = t.sec - h.start
      ∧ s.spreadIntervalNumerator + h.last.value
          * (t.sec - s.lastIntervalEvent.timestamp.sec)
        = h.carried + Sample.total h.quotes h.start t.sec := by
  have hnum := htracks.numerator_at hlast
  constructor
  · rw [htracks.samples]
    ring
  · unfold History.carried
    rw [hnum, Sample.total_add h.quotes htracks.origin_le hstart]
    ring

/-- A query is right exactly if the last quote speaks for all the interval,
or there is a second to divide by and nothing is carried into it. -/
theorem Tracks.getIntervalSpread_iff {t : Timestamp}
    (hlast : h.last.time ≤ t.sec) (hstart : h.start ≤ t.sec) :
    s.getIntervalSpread t = some (h.mean t.sec)
      ↔ h.Late ∨ h.start < t.sec ∧ h.carried = 0 := by
  obtain ⟨hcount, hnum⟩ := htracks.query hlast hstart
  have hneg := htracks.samples_neg_iff
  unfold StockStats.getIntervalSpread
  dsimp only
  by_cases hlate : h.Late
  · rw [if_pos (hneg.mpr hlate), htracks.have_any, Bool.or_true, if_pos rfl,
      spread_eq, htracks.value, History.mean_of_late hlate hstart]
    exact iff_of_true rfl (.inl hlate)
  · rw [if_neg fun h' => hlate (hneg.mp h'), htracks.value, hcount, hnum,
      or_iff_right hlate]
    by_cases hzero : t.sec - h.start = 0
    · rw [if_pos hzero]
      refine iff_of_false (by rintro ⟨⟩) ?_
      omega
    · have hne : t.sec ≠ h.start := fun h' => hzero (by omega)
      have hcast : ((t.sec - h.start : Int) : Rat) ≠ 0 :=
        Int.cast_ne_zero.mpr hzero
      have hten : (10000 : Rat) ≠ 0 := by norm_num
      unfold History.mean
      rw [if_neg hzero, if_neg hne, Option.some_inj, div_left_inj' hten,
        div_left_inj' hcast, Int.cast_inj, add_eq_right,
        and_iff_right (by omega)]

/-- Quotes that come after the reset they follow carry nothing. -/
theorem Tracks.carried_of_inOrder (horder : h.InOrder) :
    ¬h.Late ∧ h.carried = 0 := by
  constructor
  · rintro ⟨hsince, hlt⟩
    obtain ⟨u, us, hcons⟩ := List.exists_cons_of_ne_nil hsince
    have hu := horder u (by rw [hcons]; exact List.mem_cons_self)
    unfold History.last at hlt
    rw [hcons] at hlt
    exact absurd hu (not_le.mpr hlt)
  · unfold History.carried History.quotes
    rw [Sample.total_append horder,
      Sample.total_const le_rfl htracks.origin_le]
    exact sub_self _

end Tracks

-- ==================================================================== a run

/-- Over any call that is in time. -/
theorem tracks_step (s : StockStats) (h : History) (c : StockStats.Call)
    (htracks : Tracks s h) (hc : h.Timely c) :
    Tracks (s.step c) (h.step c) := by
  cases c with
  | update t evt => exact htracks.update hc
  | reset t => exact htracks.reset hc

/-- The run lemma, from the first quote on. -/
theorem tracks_run (t₀ : Timestamp) (evt₀ : FullL2Quote)
    {calls : List StockStats.Call}
    (hcalls : Lib.Admits History.step History.Timely
      (History.first t₀ evt₀) calls) :
    Tracks (Lib.run StockStats.step
        (StockStats.create.updateIntervalSpread t₀ evt₀) calls)
      (Lib.run History.step (History.first t₀ evt₀) calls) := by
  have hall : Lib.Admits StockStats.step (fun _ _ => True)
      (StockStats.create.updateIntervalSpread t₀ evt₀) calls :=
    Lib.Admits.trivial _ calls
  exact Lib.run_simulation (R := Tracks)
    (fun s h c htracks _ hc => tracks_step s h c htracks hc)
    (tracks_first t₀ evt₀) hall hcalls

/-- After a first quote, and calls that are not for seconds before the last
quote, the interval spread is the mean exactly if the last quote speaks for
the whole interval, or a whole second has passed and nothing is carried
over. With no quote for a time before the reset it follows, that is exactly
if a whole second has passed. -/
theorem interval_spread_iff (t₀ : Timestamp) (evt₀ : FullL2Quote)
    (calls : List StockStats.Call)
    (hcalls : Lib.Admits History.step History.Timely
      (History.first t₀ evt₀) calls) (t : Timestamp)
    (hlast : (Lib.run History.step (History.first t₀ evt₀) calls).last.time
      ≤ t.sec)
    (hstart : (Lib.run History.step (History.first t₀ evt₀) calls).start
      ≤ t.sec) :
    let s := Lib.run StockStats.step
      (StockStats.create.updateIntervalSpread t₀ evt₀) calls
    let h := Lib.run History.step (History.first t₀ evt₀) calls
    (s.getIntervalSpread t = some (h.mean t.sec)
      ↔ h.Late ∨ h.start < t.sec ∧ h.carried = 0)
    ∧ (h.InOrder →
      (s.getIntervalSpread t = some (h.mean t.sec)
        ↔ h.start < t.sec)) := by
  have htracks := tracks_run t₀ evt₀ hcalls
  have hiff := htracks.getIntervalSpread_iff hlast hstart
  refine ⟨hiff, fun horder => ?_⟩
  obtain ⟨hlate, hcarried⟩ := htracks.carried_of_inOrder horder
  rw [hiff, or_iff_right hlate]
  exact and_iff_left hcarried

/-- Two quotes and a reset, a quote after it, and some seconds. -/
theorem interval_spread_after_reset :
    let q₁ : FullL2Quote := ⟨⟨1000, 1, 1⟩, ⟨1100, 1, 1⟩⟩
    let q₂ : FullL2Quote := ⟨⟨1000, 1, 1⟩, ⟨1300, 1, 1⟩⟩
    let calls : List StockStats.Call :=
      [.update ⟨12, 0⟩ q₂, .reset ⟨15, 0⟩, .update ⟨16, 0⟩ q₁]
    (Lib.run StockStats.step
        (StockStats.create.updateIntervalSpread ⟨10, 0⟩ q₁)
        calls).getIntervalSpread ⟨20, 0⟩
      = some ((Lib.run History.step (History.first ⟨10, 0⟩ q₁)
        calls).mean 20) :=
  ((interval_spread_iff ⟨10, 0⟩ ⟨⟨1000, 1, 1⟩, ⟨1100, 1, 1⟩⟩
    [.update ⟨12, 0⟩ ⟨⟨1000, 1, 1⟩, ⟨1300, 1, 1⟩⟩, .reset ⟨15, 0⟩,
      .update ⟨16, 0⟩ ⟨⟨1000, 1, 1⟩, ⟨1100, 1, 1⟩⟩] (by decide) ⟨20, 0⟩
    (by decide) (by decide)).2 (by decide)).mpr (by decide)

/-- A query in the second of the first quote divides zero by zero. -/
theorem first_second_divides_by_zero :
    ¬ ∀ (t₀ : Timestamp) (evt₀ : FullL2Quote)
        (calls : List StockStats.Call),
      Lib.Admits History.step History.Timely (History.first t₀ evt₀)
        calls →
      ∀ t : Timestamp,
        (Lib.run History.step (History.first t₀ evt₀) calls).last.time
          ≤ t.sec →
        (Lib.run History.step (History.first t₀ evt₀) calls).start
          ≤ t.sec →
        (Lib.run StockStats.step
            (StockStats.create.updateIntervalSpread t₀ evt₀)
            calls).getIntervalSpread t
          = some ((Lib.run History.step (History.first t₀ evt₀)
            calls).mean t.sec) := by
  intro h
  have hquery := h ⟨10, 0⟩ ⟨⟨1000, 1, 1⟩, ⟨1100, 1, 1⟩⟩ [] True.intro
    ⟨10, 500000000⟩ (by decide) (by decide)
  cases hquery

end TradingEngine.TS.PricerStrategy
