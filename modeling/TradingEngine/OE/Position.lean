/-
`oe/Position.hpp`, `oe/Position.cpp`: what one instrument carries.

# The open sizes

`m_open_long_size` and `m_open_short_size` are `Size` members, unsigned
32-bit integers, and a sum of open orders can pass that range. The fields
`openLongSize` and `openShortSize` are the exact sums of what was added
and subtracted. What the members hold is `longOpenSize` and
`shortOpenSize`, the exact sums modulo 2^32: adding and subtracting a
`Size` moves them as it moves an unsigned integer
(`longOpenSize_addOpenBuys` and the three beside it), and every read of
the source, `short_open_size()` and the two assertions, is a read of
these. The exact sums are what the accounting of open exposure is about.

`sub_open_buys` and `sub_open_sells` assert that the member covers what is
taken off. The assertions are predicates of their own, the arithmetic goes
on without them as in a build with `NDEBUG`: `subOpenBuysHeld` and
`subOpenSellsHeld` on the members, `subOpenBuysAssert` and
`subOpenSellsAssert` on the exact sums.
-/
import TradingEngine.OE.Order

namespace TradingEngine.OE

variable {ι : Type}

structure Position where
  tradingQuantity : Int
  startQuantity : Int
  /-- All that was added less all that was subtracted; the member is this
  modulo 2^32. -/
  openLongSize : Int
  openShortSize : Int
  openLongExposure : Rat
  openShortExposure : Rat
  realized : Rat
  unrealized : Rat
  vwap : Rat
  mark : Rat
  priorAdjustedClose : Rat
  locatesRemaining : Int
  locatesUsed : Int
  norecycle : Bool
  remoteTradingQuantity : Int
  deriving DecidableEq

/-- `LOCATES_REMAINING_SENTINEL`: locates not configured. -/
def locatesRemainingSentinel : Int := -9223372036854775808

/-- `Position::Position`. -/
def Position.create (startq : Int) (adjClose : Rat) : Position where
  tradingQuantity := startq
  startQuantity := startq
  openLongSize := 0
  openShortSize := 0
  openLongExposure := 0
  openShortExposure := 0
  realized := 0
  unrealized := 0
  vwap := 0
  mark := 0
  priorAdjustedClose := adjClose
  locatesRemaining := locatesRemainingSentinel
  locatesUsed := 0
  norecycle := false
  remoteTradingQuantity := 0

namespace Position

-- ============================================================== readings

def quantity (pos : Position) : Int := pos.tradingQuantity

/-- `long_open_size()`: what `m_open_long_size` holds. -/
def longOpenSize (pos : Position) : Nat := u32 pos.openLongSize

/-- `short_open_size()`: what `m_open_short_size` holds. -/
def shortOpenSize (pos : Position) : Nat := u32 pos.openShortSize

def remoteQuantity (pos : Position) : Int := pos.remoteTradingQuantity

def realizedPnl (pos : Position) : Rat := pos.realized

def unrealizedPnl (pos : Position) : Rat := pos.unrealized

/-- Notional of the position. -/
def notional (pos : Position) : Rat := pos.mark * pos.tradingQuantity

def startOfDayLongExposure (pos : Position) : Rat :=
  if pos.startQuantity > 0 then
    pos.startQuantity * pos.priorAdjustedClose
  else 0

def startOfDayShortExposure (pos : Position) : Rat :=
  if pos.startQuantity < 0 then
    pos.startQuantity * pos.priorAdjustedClose
  else 0

def longOpenExposure (pos : Position) : Rat :=
  pos.openLongExposure + pos.startOfDayLongExposure

def shortOpenExposure (pos : Position) : Rat :=
  pos.openShortExposure + pos.startOfDayShortExposure

-- ========================================================= open exposure

def addOpenBuys (pos : Position) (p : Rat) (s : Nat) : Position :=
  { pos with
    openLongSize := pos.openLongSize + s
    openLongExposure := pos.openLongExposure + s * p }

/-- `assert(m_open_long_size >= s)`. -/
def subOpenBuysHeld (pos : Position) (s : Nat) : Prop :=
  pos.longOpenSize ≥ s

/-- The same of sizes taken as integers. -/
def subOpenBuysAssert (pos : Position) (s : Nat) : Prop :=
  pos.openLongSize ≥ s

def subOpenBuys (pos : Position) (p : Rat) (s : Nat) : Position :=
  { pos with
    openLongSize := pos.openLongSize - s
    openLongExposure := pos.openLongExposure - s * p }

def addOpenSells (pos : Position) (p : Rat) (s : Nat) : Position :=
  { pos with
    openShortSize := pos.openShortSize + s
    openShortExposure := pos.openShortExposure - s * p }

/-- `assert(m_open_short_size >= s)`. -/
def subOpenSellsHeld (pos : Position) (s : Nat) : Prop :=
  pos.shortOpenSize ≥ s

/-- The same of sizes taken as integers. -/
def subOpenSellsAssert (pos : Position) (s : Nat) : Prop :=
  pos.openShortSize ≥ s

def subOpenSells (pos : Position) (p : Rat) (s : Nat) : Position :=
  { pos with
    openShortSize := pos.openShortSize - s
    openShortExposure := pos.openShortExposure + s * p }

section Members

variable (pos : Position) (p : Rat) (s : Nat)

/-- The members move as unsigned 32-bit integers do. -/
theorem longOpenSize_addOpenBuys :
    (pos.addOpenBuys p s).longOpenSize = u32 (pos.longOpenSize + s) := by
  show u32 (pos.openLongSize + s) = u32 (u32 pos.openLongSize + s)
  unfold u32
  omega

/-- The 32-bit difference. -/
theorem longOpenSize_subOpenBuys :
    (pos.subOpenBuys p s).longOpenSize = u32 (pos.longOpenSize - s) := by
  show u32 (pos.openLongSize - s) = u32 (u32 pos.openLongSize - s)
  unfold u32
  omega

/-- The 32-bit sum, of sells. -/
theorem shortOpenSize_addOpenSells :
    (pos.addOpenSells p s).shortOpenSize = u32 (pos.shortOpenSize + s) := by
  show u32 (pos.openShortSize + s) = u32 (u32 pos.openShortSize + s)
  unfold u32
  omega

/-- And their difference. -/
theorem shortOpenSize_subOpenSells :
    (pos.subOpenSells p s).shortOpenSize = u32 (pos.shortOpenSize - s) := by
  show u32 (pos.openShortSize - s) = u32 (u32 pos.openShortSize - s)
  unfold u32
  omega

end Members

-- ================================================================== p&l

/-- The new average price and realized p&l of a buy; `newPos` is the
quantity after it. -/
def buyPnl (pos : Position) (size : Nat) (price fee : Rat) (newPos : Int) :
    Position :=
  let netDelta := price * size + fee
  if pos.tradingQuantity ≥ 0 then
    -- buy to enter: the average moves, nothing is realized
    { pos with
      vwap := (pos.tradingQuantity * pos.vwap + netDelta) / newPos }
  else if newPos ≤ 0 then
    -- buy to exit, partly or fully closed
    { pos with
      realized := pos.realized + (pos.vwap - price) * size
      vwap := if 0 = newPos then 0 else pos.vwap }
  else
    -- reversed
    { pos with
      realized := pos.realized
        + (pos.vwap - price) * -(pos.tradingQuantity : Rat)
      vwap := price }

/-- The same for a sell. -/
def sellPnl (pos : Position) (size : Nat) (price fee : Rat) (newPos : Int) :
    Position :=
  let netDelta := price * size - fee
  if pos.tradingQuantity ≤ 0 then
    { pos with
      vwap := (netDelta - pos.tradingQuantity * pos.vwap) / -(newPos : Rat) }
  else if newPos ≥ 0 then
    { pos with
      realized := pos.realized + (price - pos.vwap) * size
      vwap := if 0 = newPos then 0 else pos.vwap }
  else
    { pos with
      realized := pos.realized + (price - pos.vwap) * pos.tradingQuantity
      vwap := price }

/-- `Position::update_realized_and_unrealized_pnl`: one fill. -/
def updateRealizedAndUnrealizedPnl (pos : Position) (side : Side)
    (size : Nat) (price fee : Rat) : Position :=
  let marked := { pos with mark := price }
  let newPos : Int :=
    if side = .buy then pos.tradingQuantity + size
    else pos.tradingQuantity - size
  let filled :=
    if side = .buy then marked.buyPnl size price fee newPos
    else marked.sellPnl size price fee newPos
  { filled with
    unrealized := (filled.mark - filled.vwap) * newPos
    tradingQuantity := newPos }

/-- `Position::on_update_mark`. -/
def onUpdateMark (pos : Position) (p : Rat) : Position :=
  { pos with
    mark := p
    unrealized := (p - pos.vwap) * pos.tradingQuantity }

-- ========================================== the share in the firm totals

/-- What a position adds to the firm's long notional. -/
def longPart (pos : Position) : Rat :=
  if pos.tradingQuantity > 0 then pos.notional else 0

/-- What it adds to the short notional. -/
def shortPart (pos : Position) : Rat :=
  if pos.tradingQuantity < 0 then pos.notional else 0

-- ============================================== what a fill leaves alone

/-- The four open members, which only orders move. -/
structure OpenPart where
  longSize : Int
  shortSize : Int
  longExposure : Rat
  shortExposure : Rat
  deriving DecidableEq

def openPart (pos : Position) : OpenPart :=
  ⟨pos.openLongSize, pos.openShortSize, pos.openLongExposure,
    pos.openShortExposure⟩

/-- What fills and last sales move: quantity, average, mark and p&l. -/
structure PnlPart where
  quantity : Int
  realized : Rat
  unrealized : Rat
  vwap : Rat
  mark : Rat
  deriving DecidableEq

def pnlPart (pos : Position) : PnlPart :=
  ⟨pos.tradingQuantity, pos.realized, pos.unrealized, pos.vwap, pos.mark⟩

/-- A p&l branch writes the average and the realized p&l only. -/
theorem buyPnl_frame (pos : Position) (size : Nat) (price fee : Rat)
    (newPos : Int) :
    ∃ r v, pos.buyPnl size price fee newPos
      = { pos with realized := r, vwap := v } := by
  unfold buyPnl
  dsimp only
  split
  · exact ⟨_, _, rfl⟩
  · split <;> exact ⟨_, _, rfl⟩

/-- A sale writes what is realized and the average price, and nothing else. -/
theorem sellPnl_frame (pos : Position) (size : Nat) (price fee : Rat)
    (newPos : Int) :
    ∃ r v, pos.sellPnl size price fee newPos
      = { pos with realized := r, vwap := v } := by
  unfold sellPnl
  dsimp only
  split
  · exact ⟨_, _, rfl⟩
  · split <;> exact ⟨_, _, rfl⟩

/-- One fill, all it writes: the quantity moves by the signed size, the
mark is the fill price, the unrealized p&l is recomputed from both. -/
theorem updateRealizedAndUnrealizedPnl_shape (pos : Position) (side : Side)
    (size : Nat) (price fee : Rat) :
    ∃ r v, pos.updateRealizedAndUnrealizedPnl side size price fee
      = { pos with
          realized := r
          vwap := v
          mark := price
          unrealized := (price - v)
            * ((if side = .buy then pos.tradingQuantity + size
                else pos.tradingQuantity - size : Int) : Rat)
          tradingQuantity :=
            if side = .buy then pos.tradingQuantity + size
            else pos.tradingQuantity - size } := by
  unfold updateRealizedAndUnrealizedPnl
  dsimp only
  by_cases hside : side = .buy
  · simp only [hside, if_true]
    obtain ⟨r, v, h⟩ := buyPnl_frame { pos with mark := price } size price
      fee (pos.tradingQuantity + size)
    rw [h]
    exact ⟨r, v, rfl⟩
  · simp only [hside, if_false]
    obtain ⟨r, v, h⟩ := sellPnl_frame { pos with mark := price } size price
      fee (pos.tradingQuantity - size)
    rw [h]
    exact ⟨r, v, rfl⟩

section Fill

variable (pos : Position) (side : Side) (size : Nat) (price fee : Rat)

/-- A fill moves the quantity by its size. -/
theorem tradingQuantity_fill :
    (pos.updateRealizedAndUnrealizedPnl side size price fee).tradingQuantity
      = if side = .buy then pos.tradingQuantity + size
        else pos.tradingQuantity - size := by
  obtain ⟨r, v, h⟩ :=
    pos.updateRealizedAndUnrealizedPnl_shape side size price fee
  rw [h]

/-- The remote quantity is not its business. -/
@[simp] theorem remoteTradingQuantity_fill :
    (pos.updateRealizedAndUnrealizedPnl side size price
        fee).remoteTradingQuantity
      = pos.remoteTradingQuantity := by
  obtain ⟨r, v, h⟩ :=
    pos.updateRealizedAndUnrealizedPnl_shape side size price fee
  rw [h]

/-- Every fill leaves the unrealized p&l marked at the fill price. -/
theorem unrealized_fill :
    (pos.updateRealizedAndUnrealizedPnl side size price fee).unrealized
      = ((pos.updateRealizedAndUnrealizedPnl side size price fee).mark
          - (pos.updateRealizedAndUnrealizedPnl side size price fee).vwap)
        * ((pos.updateRealizedAndUnrealizedPnl side size price
            fee).tradingQuantity : Rat) := by
  obtain ⟨r, v, h⟩ :=
    pos.updateRealizedAndUnrealizedPnl_shape side size price fee
  rw [h]

end Fill

-- ========================================== open members, either direction

/-- The open members of one side moved by a signed size: the common form
of `add_open_*` (positive) and `sub_open_*` (negative). -/
def moveOpen (pos : Position) (s : Side) (p : Rat) (n : Int) : Position :=
  if s = .buy then
    { pos with
      openLongSize := pos.openLongSize + n
      openLongExposure := pos.openLongExposure + n * p }
  else
    { pos with
      openShortSize := pos.openShortSize + n
      openShortExposure := pos.openShortExposure - n * p }

/-- Adding buys is a move. -/
theorem addOpenBuys_eq (pos : Position) (p : Rat) (n : Nat) :
    pos.addOpenBuys p n = pos.moveOpen .buy p n := by
  simp [addOpenBuys, moveOpen]

/-- Taking buys off is the move back. -/
theorem subOpenBuys_eq (pos : Position) (p : Rat) (n : Nat) :
    pos.subOpenBuys p n = pos.moveOpen .buy p (-n) := by
  simp only [subOpenBuys, moveOpen, if_true, Int.cast_neg,
    Int.cast_natCast, Position.mk.injEq, true_and, and_true]
  constructor
  · omega
  · ring

/-- Adding sells of any kind. -/
theorem addOpenSells_eq (pos : Position) {s : Side} (hs : s ≠ .buy)
    (p : Rat) (n : Nat) :
    pos.addOpenSells p n = pos.moveOpen s p n := by
  simp [addOpenSells, moveOpen, hs]

/-- Taking them off. -/
theorem subOpenSells_eq (pos : Position) {s : Side} (hs : s ≠ .buy)
    (p : Rat) (n : Nat) :
    pos.subOpenSells p n = pos.moveOpen s p (-n) := by
  simp only [subOpenSells, moveOpen, hs, if_false, Int.cast_neg,
    Int.cast_natCast, Position.mk.injEq, true_and, and_true]
  constructor
  · omega
  · ring

section MoveOpen

variable (pos : Position) (s : Side) (p : Rat) (n : Int)

/-- What is open is not yet profit or loss. -/
@[simp] theorem pnlPart_moveOpen :
    (pos.moveOpen s p n).pnlPart = pos.pnlPart := by
  unfold moveOpen
  split <;> rfl

/-- Nor does it move a remote quantity. -/
@[simp] theorem remoteTradingQuantity_moveOpen :
    (pos.moveOpen s p n).remoteTradingQuantity
      = pos.remoteTradingQuantity := by
  unfold moveOpen
  split <;> rfl

/-- The exposure the firm totals read moves with the open member of the
same side; the start-of-day share cancels. -/
theorem longOpenExposure_moveOpen :
    (pos.moveOpen s p n).longOpenExposure - pos.longOpenExposure
      = if s = .buy then n * p else 0 := by
  unfold moveOpen
  split
  · show pos.openLongExposure + n * p + pos.startOfDayLongExposure
      - (pos.openLongExposure + pos.startOfDayLongExposure) = n * p
    ring
  · exact sub_self _

/-- The short side of a move. -/
theorem shortOpenExposure_moveOpen :
    (pos.moveOpen s p n).shortOpenExposure - pos.shortOpenExposure
      = if s = .buy then 0 else -(n * p) := by
  unfold moveOpen
  split
  · exact sub_self _
  · show pos.openShortExposure - n * p + pos.startOfDayShortExposure
      - (pos.openShortExposure + pos.startOfDayShortExposure) = -(n * p)
    ring

end MoveOpen

end Position

end TradingEngine.OE
