/-
`oe/Instrument.hpp`, `oe/EquityInstrument.cpp`: the limits of one stock
and the validation every order of it passes before it is sent.

The instrument's `Position` is kept in the `Desk`, so `validate` takes it
and hands it back. `validate` may correct the side of a sell and reserve
locates; a refusal after the correction leaves the corrected side on the
order. Lot size, statistics and names are left out: nothing modelled
reads them.
-/
import TradingEngine.OE.Position

namespace TradingEngine.OE

variable {ι : Type}

structure EquityInstrument where
  orderSizeLimit : Nat
  orderPriceLimit : Rat
  orderValueLimit : Rat
  orderRateLimit : Int
  positionLimit : Nat
  positionValueLimit : Rat
  locateSize : Int
  /-- As given; nothing hands it on to the position, which has a flag of
  its own. -/
  norecycle : Bool := false
  /-- `m_order_rate`: creation times of the orders let through within the
  last second, oldest first. -/
  orderRate : List Timestamp
  deriving DecidableEq

/-- The position `EquityInstrument`'s constructor sets up. -/
def EquityInstrument.startPosition (ei : EquityInstrument)
    (startq : Int) (adjClose : Rat) : Position :=
  { Position.create startq adjClose with locatesRemaining := ei.locateSize }

namespace EquityInstrument

-- ============================================================ order rate

/-- The `while` loop over the rate queue: drop what is more than a second
older than `now`. -/
def popStale (now : Timestamp) : List Timestamp → List Timestamp
  | [] => []
  | t :: ts =>
      if t.nanos < Timestamp.nanos ⟨now.sec - 1, now.nsec⟩ then
        popStale now ts
      else t :: ts

/-- The rate queue is only looked at when the limit is set. -/
def refreshRate (ei : EquityInstrument) (now : Timestamp) :
    EquityInstrument :=
  if ei.orderRateLimit > -1 then
    { ei with orderRate := popStale now ei.orderRate }
  else ei

def rateAllows (ei : EquityInstrument) : Bool :=
  !(decide (ei.orderRateLimit > -1)
    && decide (ei.orderRate.length + 1 > ei.orderRateLimit.toNat))

/-- `m_order_rate.push`, just before `validate` returns true. -/
def pushRate (ei : EquityInstrument) (now : Timestamp) :
    EquityInstrument :=
  if ei.orderRateLimit > -1 then
    { ei with orderRate := ei.orderRate ++ [now] }
  else ei

-- ================================================================ limits

/-- The position as it would be with the order filled. -/
def postPosition (pos : Position) (o : Order ι) : Int :=
  if o.side = .buy then pos.quantity + pos.remoteQuantity + o.size
  else pos.quantity + pos.remoteQuantity - o.size

/-- Size, price, value, position and position value, in this order. -/
def limitsAllow (ei : EquityInstrument) (pos : Position) (o : Order ι) :
    Bool :=
  decide (o.size ≤ ei.orderSizeLimit)
    && decide (o.price ≤ ei.orderPriceLimit)
    && decide ((o.size : Rat) * o.price ≤ ei.orderValueLimit)
    && decide ((postPosition pos o).natAbs ≤ ei.positionLimit)
    && decide (((postPosition pos o).natAbs : Rat) * o.price
        ≤ ei.positionValueLimit)

-- =============================================================== locates

/-- Whether the order is on the sell side by name. -/
def sells (o : Order ι) : Bool :=
  o.side == .sell || o.side == .short || o.side == .shortExempt

theorem ne_buy_of_sells {o : Order ι} (h : sells o = true) :
    o.side ≠ .buy := by
  intro hbuy
  unfold sells at h
  rw [hbuy] at h
  cases h

/-- An order of a known side is a buy or a sell. -/
theorem sells_iff_ne_buy {o : Order ι} (h : o.side ≠ .unknown) :
    sells o = true ↔ o.side ≠ .buy := by
  refine ⟨ne_buy_of_sells, fun hside => ?_⟩
  unfold sells
  cases hs : o.side with
  | unknown => exact absurd hs h
  | buy => exact absurd hs hside
  | sell => rfl
  | short => rfl
  | shortExempt => rfl

/-- The side a sell goes out with: `SHORT` as soon as the position with
every open sell filled would be short. -/
def correctedSide (pos : Position) (o : Order ι) : Side :=
  if postPosition pos o - pos.shortOpenSize < 0 then .short else .sell

def requiredLocateSize (pos : Position) (o : Order ι) : Nat :=
  if postPosition pos o - pos.shortOpenSize < 0 then
    u32 (-(postPosition pos o - pos.shortOpenSize))
  else 0

/-- The locates of a sell: configured, and enough of them left. -/
def locatesAllow (pos : Position) (o : Order ι) : Bool :=
  pos.locatesRemaining != locatesRemainingSentinel
    && decide ((requiredLocateSize pos o : Int) ≤ pos.locatesRemaining)

def reserveLocates (pos : Position) (o : Order ι) : Position :=
  { pos with
    locatesRemaining := pos.locatesRemaining - requiredLocateSize pos o
    locatesUsed := pos.locatesUsed + requiredLocateSize pos o }

/-- What `validate` leaves behind. -/
structure Validated (ι : Type) where
  ok : Bool
  instrument : EquityInstrument
  order : Order ι
  position : Position

/-- `EquityInstrument::validate`. -/
def validate (ei : EquityInstrument) (pos : Position) (o : Order ι) :
    Validated ι :=
  let ei := ei.refreshRate o.creationTime
  if !(ei.rateAllows && ei.limitsAllow pos o) then ⟨false, ei, o, pos⟩
  else if sells o then
    let o' := { o with side := correctedSide pos o }
    if locatesAllow pos o then
      ⟨true, ei.pushRate o.creationTime, o', reserveLocates pos o⟩
    else ⟨false, ei, o', pos⟩
  else ⟨true, ei.pushRate o.creationTime, o, pos⟩

-- ==================================================== what validate keeps

/-- The side an order may come out of `validate` with. -/
structure SideKept (before after : Side) : Prop where
  buy : after = .buy ↔ before = .buy
  unknown : after = .unknown → before = .unknown

theorem SideKept.refl (s : Side) : SideKept s s := ⟨Iff.rfl, id⟩

theorem sideKept_correctedSide (pos : Position) {o : Order ι}
    (h : sells o = true) : SideKept o.side (correctedSide pos o) := by
  have hne : correctedSide pos o ≠ .buy ∧ correctedSide pos o ≠ .unknown := by
    unfold correctedSide
    split <;> decide
  have hside : o.side ≠ .buy := by
    intro hbuy
    unfold sells at h
    rw [hbuy] at h
    cases h
  exact ⟨⟨fun h => absurd h hne.1, fun h => absurd h hside⟩,
    fun h => absurd h hne.2⟩

/-- Of the order only the side may change, from one sell side to another;
of the position only the locates; of the instrument only the queue. -/
theorem validate_frame (ei : EquityInstrument) (pos : Position)
    (o : Order ι) :
    ∃ side remaining used rate,
      SideKept o.side side
      ∧ (ei.validate pos o).order = { o with side := side }
      ∧ (ei.validate pos o).position
          = { pos with
              locatesRemaining := remaining
              locatesUsed := used }
      ∧ (ei.validate pos o).instrument = { ei with orderRate := rate } := by
  have hrefresh : ∃ rate, ei.refreshRate o.creationTime
      = { ei with orderRate := rate } := by
    unfold refreshRate
    split <;> exact ⟨_, rfl⟩
  obtain ⟨rate, hrate⟩ := hrefresh
  have hpush : ∃ rate', (ei.refreshRate o.creationTime).pushRate
      o.creationTime = { ei with orderRate := rate' } := by
    rw [hrate]
    unfold pushRate
    split <;> exact ⟨_, rfl⟩
  obtain ⟨rate', hrate'⟩ := hpush
  unfold validate
  dsimp only
  split
  · exact ⟨o.side, _, _, rate, .refl _, rfl, rfl, hrate⟩
  · split
    case isTrue hsells =>
      have hcorrected := sideKept_correctedSide pos hsells
      split
      · exact ⟨_, _, _, rate', hcorrected, rfl, rfl, hrate'⟩
      · exact ⟨_, _, _, rate, hcorrected, rfl, rfl, hrate⟩
    case isFalse => exact ⟨o.side, _, _, rate', .refl _, rfl, rfl, hrate'⟩

/-- An order let through is within the position limit, were it filled on
top of the position alone. -/
theorem validate_positionLimit {ei : EquityInstrument} {pos : Position}
    {o : Order ι} (h : (ei.validate pos o).ok = true) :
    (postPosition pos o).natAbs ≤ ei.positionLimit := by
  have hlimit : (ei.refreshRate o.creationTime).positionLimit
      = ei.positionLimit := by
    unfold refreshRate
    split <;> rfl
  unfold validate at h
  dsimp only at h
  split at h
  case isTrue => cases h
  case isFalse hchecks =>
    simp only [limitsAllow, Bool.not_eq_true', Bool.not_eq_false,
      Bool.and_eq_true, decide_eq_true_eq] at hchecks
    rw [← hlimit]
    exact hchecks.2.1.2

end EquityInstrument

end TradingEngine.OE
