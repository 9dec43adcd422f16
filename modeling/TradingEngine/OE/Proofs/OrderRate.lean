/-
The order rate limit holds in every window of one second.

`validate` trims its queue before the check and pushes only when the order
has passed everything, in between come all the other limits and the
locates. Read in nanoseconds it is the sliding-window limiter, with "every
other check lets the order through" for what the limiter is not asked
about (`validate_simulates`): the queue is then the accepted times of the
last second, and the two halves of the result are the limiter's own.

# The limiter

The limiter is in `Lib/Window`: it keeps times, drops those that are older
than the window, and accepts if fewer than the limit are left. Its invariant
is that the times it keeps are the accepted ones of the last window, newest
last. Nothing of that is repeated here. What is proved here is that a call of
`validate` is a request to the limiter, at the creation time of the order in
nanoseconds, and that time stamps compare as nanoseconds do.
-/
import TradingEngine.Lib.Window
import TradingEngine.OE.Instrument
import Mathlib.Data.Int.ConditionallyCompleteOrder

namespace TradingEngine.OE

variable {ι : Type}

open EquityInstrument Lib

-- ======================================================= runs of validate

/-- An order put to `validate`, with the position the instrument then
has. -/
structure Validation (ι : Type) where
  position : Position
  order : Order ι

def Validation.time (c : Validation ι) : Timestamp := c.order.creationTime

/-- The instrument after some orders, and the creation times of those it
let through. -/
structure Validations where
  instrument : EquityInstrument
  accepted : List Timestamp

def Validations.step (s : Validations) (c : Validation ι) : Validations :=
  let v := s.instrument.validate c.position c.order
  ⟨v.instrument, if v.ok then s.accepted ++ [c.time] else s.accepted⟩

def validations (ei : EquityInstrument) (cs : List (Validation ι)) :
    Validations :=
  run Validations.step ⟨ei, []⟩ cs

/-- Those of `ts` within the second that ends at `t`. -/
def withinSecond (t : Timestamp) (ts : List Timestamp) : List Timestamp :=
  ts.filter fun u =>
    t.nanos - 1000000000 ≤ u.nanos ∧ u.nanos ≤ t.nanos

-- ========================================================== what is asked

namespace EquityInstrument

/-- Every check of `validate` but the rate. -/
def othersAllow (ei : EquityInstrument) (pos : Position) (o : Order ι) :
    Bool :=
  ei.limitsAllow pos o && (!sells o || locatesAllow pos o)

/-- An order is let through by the rate and everything else; the queue is
pushed then, and else only trimmed. -/
theorem validate_rate (ei : EquityInstrument) (pos : Position)
    (o : Order ι) :
    (ei.validate pos o).ok
        = ((ei.refreshRate o.creationTime).rateAllows
          && (ei.refreshRate o.creationTime).othersAllow pos o)
      ∧ (ei.validate pos o).instrument
        = if (ei.validate pos o).ok then
            (ei.refreshRate o.creationTime).pushRate o.creationTime
          else ei.refreshRate o.creationTime := by
  unfold validate othersAllow
  dsimp only
  split
  case isTrue hrefused =>
    rw [Bool.not_eq_true', Bool.and_eq_false_iff] at hrefused
    cases hrefused with
    | inl hrate => simp [hrate]
    | inr hlimits => simp [hlimits]
  case isFalse hchecked =>
    rw [Bool.not_eq_true', Bool.not_eq_false, Bool.and_eq_true]
      at hchecked
    split
    case isFalse hsells => simp [hchecked.1, hchecked.2, hsells]
    case isTrue hsells =>
      split
      case isTrue hlocates =>
        simp [hchecked.1, hchecked.2, hlocates]
      case isFalse hlocates =>
        simp [hsells, hlocates]

/-- The queue is nothing the other checks read. -/
theorem othersAllow_orderRate (ei : EquityInstrument)
    (rate : List Timestamp) (pos : Position) (o : Order ι) :
    ({ ei with orderRate := rate } : EquityInstrument).othersAllow pos o
      = ei.othersAllow pos o := rfl

end EquityInstrument

-- ============================================================ the limiter

/-- Where the window of one second begins. -/
def secondBefore (t : Int) : Int := t - 1000000000

theorem secondBefore_monotone : Monotone secondBefore := by
  intro s t hst
  unfold secondBefore
  omega

theorem secondBefore_le (t : Int) : secondBefore t ≤ t := by
  unfold secondBefore
  omega

/-- The `while` loop, in nanoseconds. -/
theorem popStale_nanos (now : Timestamp) (ts : List Timestamp) :
    (popStale now ts).map Timestamp.nanos
      = (ts.map Timestamp.nanos).dropWhile
          (· < secondBefore now.nanos) := by
  have hsince : Timestamp.nanos ⟨now.sec - 1, now.nsec⟩
      = secondBefore now.nanos := by
    unfold Timestamp.nanos secondBefore
    dsimp only
    omega
  induction ts with
  | nil => rfl
  | cons t ts ih =>
      unfold popStale
      rw [hsince, List.map_cons, List.dropWhile_cons]
      by_cases ht : t.nanos < secondBefore now.nanos
      · simp [ht, ih]
      · simp [ht]

theorem length_withinSecond (t : Timestamp) (ts : List Timestamp) :
    (withinSecond t ts).length
      = (window secondBefore t.nanos (ts.map Timestamp.nanos)).length := by
  unfold withinSecond window secondBefore
  rw [List.filter_map, List.length_map]
  rfl

/-- What the limiter is asked by a call. -/
def Validation.request (ei : EquityInstrument) (c : Validation ι) :
    Request Int :=
  ⟨c.time.nanos, ei.othersAllow c.position c.order⟩

/-- The instrument is the one of the start but for its queue, and the
limiter has the same times. -/
structure SameRate (ei : EquityInstrument) (s : Validations)
    (l : Limiter Int) : Prop where
  instrument : s.instrument = { ei with orderRate := s.instrument.orderRate }
  queue : l.queue = s.instrument.orderRate.map Timestamp.nanos
  admitted : l.admitted = s.accepted.map Timestamp.nanos

section Limited

variable {ei : EquityInstrument} {s : Validations} {l : Limiter Int}

theorem SameRate.refreshed (h : SameRate ei s l)
    (hlimit : 0 ≤ ei.orderRateLimit) (now : Timestamp) :
    s.instrument.refreshRate now
      = { ei with orderRate := popStale now s.instrument.orderRate } := by
  have hset : ei.orderRateLimit > -1 := by omega
  rw [h.instrument]
  unfold refreshRate
  exact if_pos hset

theorem SameRate.fresh (h : SameRate ei s l) (now : Timestamp) :
    l.fresh secondBefore now.nanos
      = (popStale now s.instrument.orderRate).map Timestamp.nanos := by
  unfold Limiter.fresh
  rw [h.queue, popStale_nanos]

/-- Whether an order is let through, in the words of the limiter. -/
theorem SameRate.ok_iff (h : SameRate ei s l)
    (hlimit : 0 ≤ ei.orderRateLimit) (c : Validation ι) :
    (s.instrument.validate c.position c.order).ok = true
      ↔ (l.fresh secondBefore (c.request ei).time).length
            < ei.orderRateLimit.toNat
        ∧ (c.request ei).passes = true := by
  have hset : ei.orderRateLimit > -1 := by omega
  have hrefresh := h.refreshed hlimit c.order.creationTime
  have hfresh : l.fresh secondBefore (c.request ei).time = _ :=
    h.fresh c.time
  rw [(validate_rate _ _ _).1, hrefresh, othersAllow_orderRate, hfresh,
    List.length_map]
  unfold rateAllows Validation.request
  simp only [hset, decide_true, Bool.true_and, Bool.and_eq_true,
    Bool.not_eq_true', decide_eq_false_iff_not]
  exact and_congr_left' Nat.not_lt

/-- `validate` is the limiter's step. -/
theorem validate_simulates (h : SameRate ei s l)
    (hlimit : 0 ≤ ei.orderRateLimit) (c : Validation ι) :
    SameRate ei (s.step c)
      (l.step secondBefore ei.orderRateLimit.toNat (c.request ei)) := by
  have hset : ei.orderRateLimit > -1 := by omega
  have hok := h.ok_iff hlimit c
  have hfresh : l.fresh secondBefore (c.request ei).time = _ :=
    h.fresh c.time
  have hinst := (validate_rate s.instrument c.position c.order).2
  rw [h.refreshed hlimit] at hinst
  unfold Limiter.step Validations.step
  dsimp only
  split
  case isTrue hv =>
    rw [if_pos hv] at hinst
    have hpushed : (s.instrument.validate c.position c.order).instrument
        = { ei with orderRate :=
              popStale c.time s.instrument.orderRate ++ [c.time] } :=
      hinst.trans (if_pos hset)
    rw [if_pos (hok.mp hv), hpushed]
    refine ⟨rfl, ?_, ?_⟩
    · rw [List.map_append, hfresh]
      rfl
    · rw [List.map_append, h.admitted]
      rfl
  case isFalse hv =>
    rw [if_neg hv] at hinst
    rw [if_neg (hok.not.mp hv), hinst]
    exact ⟨rfl, hfresh, h.admitted⟩

end Limited

-- ================================================================== runs

/-- The orders come in the order of their creation times. -/
def InOrder (cs : List (Validation ι)) : Prop :=
  cs.Pairwise fun c c' => c.time.nanos ≤ c'.time.nanos

theorem exists_latest (cs : List (Validation ι)) :
    ∃ b, ∀ c ∈ cs, c.time.nanos ≤ b := by
  induction cs with
  | nil => exact ⟨0, fun _ hc => absurd hc List.not_mem_nil⟩
  | cons c cs ih =>
      obtain ⟨b, hb⟩ := ih
      refine ⟨max c.time.nanos b, fun c' hc' => ?_⟩
      cases hc' with
      | head => exact le_max_left ..
      | tail _ hc' => exact le_trans (hb c' hc') (le_max_right ..)

/-- The limiter beside a run of orders none of which is after `b`. -/
theorem validations_limited {ei : EquityInstrument}
    (hlimit : 0 ≤ ei.orderRateLimit) (hempty : ei.orderRate = [])
    {cs : List (Validation ι)} (hsorted : InOrder cs) {b : Int}
    (hb : ∀ c ∈ cs, c.time.nanos ≤ b) :
    ∃ l : Limiter Int, ∃ last ≤ b, SameRate ei (validations ei cs) l
      ∧ l.Inv secondBefore ei.orderRateLimit.toNat last := by
  -- nothing let through yet, at the time of the first order
  obtain ⟨first, hfirst, hlast⟩ :
      ∃ first ≤ b, ∀ c ∈ cs, first ≤ c.time.nanos := by
    cases cs with
    | nil => exact ⟨b, le_refl b, fun _ hc => absurd hc List.not_mem_nil⟩
    | cons c cs =>
        refine ⟨c.time.nanos, hb c List.mem_cons_self, fun c' hc' => ?_⟩
        cases hc' with
        | head => exact le_refl _
        | tail _ hc' => exact (List.pairwise_cons.mp hsorted).1 c' hc'
  have hstart : SameRate ei ⟨ei, []⟩ ⟨[], []⟩ := by
    refine ⟨rfl, ?_, rfl⟩
    rw [hempty]
    rfl
  have hsame := @run_related _ _ _ _ _ (SameRate ei)
    (fun s t c h => validate_simulates h hlimit c) _ _ cs hstart
  have hmap : run (fun t c => Limiter.step secondBefore
        ei.orderRateLimit.toNat t (Validation.request ei c)) ⟨[], []⟩ cs
      = run (Limiter.step secondBefore ei.orderRateLimit.toNat) ⟨[], []⟩
          (cs.map (Validation.request ei)) := by
    unfold run
    rw [List.foldl_map]
  have hrequests : (cs.map (Validation.request ei)).Pairwise
      fun r r' => r.time ≤ r'.time := List.pairwise_map.mpr hsorted
  obtain ⟨last, hle, hinv⟩ := (Limiter.inv_init secondBefore
      ei.orderRateLimit.toNat first).run secondBefore_monotone
    secondBefore_le hrequests
    (by simpa [Validation.request] using hlast) hfirst
    (by simpa [Validation.request] using hb)
  rw [hmap] at hsame
  exact ⟨_, last, hle, hsame, hinv⟩

/-- Of the orders an instrument with a rate limit lets through, no second
that ends at one of them holds more than the limit; an order everything
else would let through is turned away only when the second that ends at it
holds as many already. -/
theorem orderRate_limit (ei : EquityInstrument)
    (hlimit : 0 ≤ ei.orderRateLimit) (hempty : ei.orderRate = [])
    (cs : List (Validation ι)) (hsorted : InOrder cs) :
    (∀ t ∈ (validations ei cs).accepted,
      ((withinSecond t (validations ei cs).accepted).length : Int)
        ≤ ei.orderRateLimit)
    ∧ ∀ before c after, cs = before ++ c :: after →
        ei.othersAllow c.position c.order = true →
        ((validations ei before).instrument.validate c.position
          c.order).ok = false →
        ((withinSecond c.time (validations ei before).accepted).length
          : Int) = ei.orderRateLimit := by
  constructor
  · intro t _
    obtain ⟨b, hb⟩ := exists_latest cs
    obtain ⟨l, last, _, hsame, hinv⟩ :=
      validations_limited hlimit hempty hsorted hb
    have hbound := hinv.bounded t.nanos
    rw [hsame.admitted, ← length_withinSecond] at hbound
    omega
  · intro before c after hcs hothers hrefused
    rw [hcs] at hsorted
    obtain ⟨hbefore, _, hacross⟩ := List.pairwise_append.mp hsorted
    obtain ⟨l, last, hle, hsame, hinv⟩ :=
      validations_limited hlimit hempty hbefore
        fun c' hc' => hacross c' hc' c List.mem_cons_self
    have hnot := (hsame.ok_iff hlimit c).not.mp (by rw [hrefused]; simp)
    have hfull : ¬ (l.fresh secondBefore c.time.nanos).length
        < ei.orderRateLimit.toNat := fun h => hnot ⟨h, hothers⟩
    rw [hinv.fresh_eq_window secondBefore_monotone hle] at hfull
    have hbound := hinv.bounded c.time.nanos
    rw [hsame.admitted, ← length_withinSecond] at hbound hfull
    omega

/-- One order a second: of two buys half a second apart the second is
refused. -/
theorem orderRate_limit_demo :
    let ei : EquityInstrument := {
      orderSizeLimit := 100
      orderPriceLimit := 100
      orderValueLimit := 10000
      orderRateLimit := 1
      positionLimit := 1000
      positionValueLimit := 10000
      locateSize := 0
      orderRate := [] }
    let buy : Int → Validation Unit := fun nsec =>
      ⟨Position.create 0 0, Order.create
        { OrderParams.dayLimit () .buy 10 1 with
          creationTime := ⟨1, nsec⟩ }⟩
    (validations ei [buy 0, buy 500000000]).accepted = [⟨1, 0⟩]
      ∧ ((withinSecond ⟨1, 500000000⟩
          (validations ei [buy 0]).accepted).length : Int) = 1 := by
  intro ei buy
  refine ⟨by decide +kernel, ?_⟩
  exact (orderRate_limit ei (by decide) rfl [buy 0, buy 500000000]
    (by unfold InOrder; decide +kernel)).2 [buy 0] (buy 500000000) [] rfl
    (by decide +kernel) (by decide +kernel)

end TradingEngine.OE
