/-
`EquityInstrument::update_locates_live` and the pass over the universe
that calls it (`OrderManager::load_and_update_locates`, every five minutes
while the engine runs).

`Quantity` is a signed 64-bit type, and the value that stands for locates
not configured is its minimum, an operand like any other here. A signed
result that does not fit is undefined behaviour in the source; the model
stores it as two's complement does and says that it happened
(`overflows`).
-/
import TradingEngine.OE.OrderManager

namespace TradingEngine.OE

variable {ω ι : Type}

/-- The range of `std::int64_t`. -/
def FitsI64 (z : Int) : Prop :=
  -9223372036854775808 ≤ z ∧ z < 9223372036854775808

instance (z : Int) : Decidable (FitsI64 z) := by
  unfold FitsI64
  infer_instance

/-- The value of an exact integer once stored in a `std::int64_t`. -/
def i64 (z : Int) : Int :=
  (z + 9223372036854775808) % 18446744073709551616 - 9223372036854775808

theorem i64_of_fits {z : Int} (h : FitsI64 z) : i64 z = z := by
  unfold FitsI64 at h
  unfold i64
  omega

/-- What `update_locates_live` leaves behind. -/
structure LocatesUpdated where
  instrument : EquityInstrument
  position : Position
  /-- A signed subtraction or addition it evaluated did not fit. -/
  overflows : Bool
  deriving DecidableEq

namespace EquityInstrument

/-- Whether the difference is one `update_locates_live` acts on. -/
def locateDiffActs (locateDiff : Int) (onlyIfIncreasing : Bool) : Bool :=
  !(locateDiff == 0 || (onlyIfIncreasing && decide (locateDiff ≤ 0)))

/-- `EquityInstrument::update_locates_live`. -/
def updateLocatesLive (ei : EquityInstrument) (pos : Position)
    (newLocateSize : Int) (onlyIfIncreasing : Bool) : LocatesUpdated :=
  if newLocateSize = ei.locateSize then ⟨ei, pos, false⟩
  else
    let diff := newLocateSize - ei.locateSize
    let locateDiff := i64 diff
    if locateDiffActs locateDiff onlyIfIncreasing then
      let remaining := pos.locatesRemaining + locateDiff
      ⟨{ ei with locateSize := newLocateSize },
        { pos with locatesRemaining := i64 remaining },
        decide (¬(FitsI64 diff ∧ FitsI64 remaining))⟩
    else ⟨ei, pos, decide (¬FitsI64 diff)⟩

end EquityInstrument

namespace OrderManager

variable [DecidableEq ι]

/-- The instrument of the universe at one index updated. -/
def updateLocates (om : OrderManager ω ι) (esi : ι) (newLocateSize : Int) :
    OrderManager ω ι :=
  let r := (om.instrument esi).updateLocatesLive (om.desk.position esi)
    newLocateSize true
  { om with
    instrument := Function.update om.instrument esi r.instrument
    desk := { om.desk with
      position := Function.update om.desk.position esi r.position } }

/-- `load_and_update_locates`, once the file is loaded: `stocks` is the
universe in its order, `configured` what the file has for a symbol, if
anything. -/
def loadAndUpdateLocates (om : OrderManager ω ι) (stocks : List ι)
    (configured : ι → Option Int) : OrderManager ω ι :=
  stocks.foldl (fun om esi =>
    om.updateLocates esi
      ((configured esi).getD locatesRemainingSentinel)) om

end OrderManager

end TradingEngine.OE
