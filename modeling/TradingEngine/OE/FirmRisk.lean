/-
`oe/Risk/FirmRiskCheck`: the firm-wide totals, the circuit breakers that
watch them and the check every new order passes.

# The pieces

- `init` reads seven limits from the configuration, one after the other
  and with the same two range checks; a limit that is not configured
  stays at zero.
- The breakers are eight bits. Seven follow predicates on the totals and
  are refreshed by the `update*BreakerState` functions; `userDisable` is
  the operator's.
- `mode` caches the mode the bits imply behind `dirtyMode`. Nothing ever
  clears that flag again.
- The functions that take an order also move the open members or the p&l
  of the order's `Position`, so they return it along with the totals.

The locks are not modelled: each function body is one critical section.
What is printed to `std::cerr` is left out.
-/
import TradingEngine.OE.Position

namespace TradingEngine.OE

variable {ι : Type}

inductive Mode
  | unknown
  | normal
  | disableAll
  | flattenOnly
  | lengthenOnly
  | shortenOnly
  deriving DecidableEq, Repr, Inhabited

inductive Breaker
  | realizedLoss
  | unrealizedLoss
  | grossNotional
  | netNotional
  | longOpen
  | shortOpen
  | grossOpen
  | userDisable
  deriving DecidableEq, Repr, Inhabited

inductive InstPermission
  | flattenOnly
  | userDisable
  deriving DecidableEq, Repr, Inhabited

structure FirmRiskCheck (ι : Type) where
  dirtyMode : Bool
  mMode : Mode
  breakers : Breaker → Bool
  instPermissions : ι → InstPermission → Bool
  longNotional : Rat
  shortNotional : Rat
  longOpenExposure : Rat
  shortOpenExposure : Rat
  totalRealized : Rat
  totalUnrealized : Rat
  mRealizedLossLimit : Rat
  mUnrealizedLossLimit : Rat
  mGrossNotionalLimit : Rat
  mNetNotionalLimit : Rat
  mLongOpenExposureLimit : Rat
  mShortOpenExposureLimit : Rat
  mGrossOpenExposureLimit : Rat

-- ======================================================== configuration

/-- The seven limits as the configuration may or may not give them. -/
structure FirmRiskConf where
  realizedLossLimit : Option Rat
  unrealizedLossLimit : Option Rat
  grossNotionalLimit : Option Rat
  netNotionalLimit : Option Rat
  longOpenExposureLimit : Option Rat
  shortOpenExposureLimit : Option Rat
  grossOpenExposureLimit : Option Rat

/-- One limit of the configuration: absent is zero, negative or above
the hard limit throws. `key` and `name` are the two spellings its error
texts use, `hardText` is `std::to_string` of the hard limit. -/
def limitFromConf (key name : String) (hard : Rat) (hardText : String) :
    Option Rat → Except String Rat
  | none => .ok 0
  | some limit =>
      if limit < 0 then .error ("negative " ++ key)
      else if limit > hard then
        .error (name ++ " limit exceeds hard limit " ++ hardText)
      else .ok limit

def realizedLossLimitFromConf :=
  limitFromConf "realized_loss_limit" "realized loss" 480000
    "480000.000000"

def unrealizedLossLimitFromConf :=
  limitFromConf "unrealized_loss_limit" "unrealized loss" 480000
    "480000.000000"

def grossNotionalLimitFromConf :=
  limitFromConf "gross_notional_limit" "gross notional" 42000000
    "42000000.000000"

def netNotionalLimitFromConf :=
  limitFromConf "net_notional_limit" "net notional" 4800000
    "4800000.000000"

def longOpenExposureLimitFromConf :=
  limitFromConf "long_open_exposure_limit" "long open exposure" 12000000
    "12000000.000000"

def shortOpenExposureLimitFromConf :=
  limitFromConf "short_open_exposure_limit" "short open exposure" 12000000
    "12000000.000000"

def grossOpenExposureLimitFromConf :=
  limitFromConf "gross_open_exposure_limit" "gross open exposure" 18000000
    "18000000.000000"

/-- The constructor's state: every total and limit zero, mode unknown. -/
def FirmRiskCheck.create : FirmRiskCheck ι where
  dirtyMode := false
  mMode := .unknown
  breakers := fun _ => false
  instPermissions := fun _ _ => false
  longNotional := 0
  shortNotional := 0
  longOpenExposure := 0
  shortOpenExposure := 0
  totalRealized := 0
  totalUnrealized := 0
  mRealizedLossLimit := 0
  mUnrealizedLossLimit := 0
  mGrossNotionalLimit := 0
  mNetNotionalLimit := 0
  mLongOpenExposureLimit := 0
  mShortOpenExposureLimit := 0
  mGrossOpenExposureLimit := 0

/-- `FirmRiskCheck::init` on a newly constructed check; the error is the
text of the exception. -/
def FirmRiskCheck.init (cfg : FirmRiskConf) :
    Except String (FirmRiskCheck ι) := do
  let rll ← realizedLossLimitFromConf cfg.realizedLossLimit
  let urll ← unrealizedLossLimitFromConf cfg.unrealizedLossLimit
  let gnl ← grossNotionalLimitFromConf cfg.grossNotionalLimit
  let nnl ← netNotionalLimitFromConf cfg.netNotionalLimit
  let loel ← longOpenExposureLimitFromConf cfg.longOpenExposureLimit
  let soel ← shortOpenExposureLimitFromConf cfg.shortOpenExposureLimit
  let goel ← grossOpenExposureLimitFromConf cfg.grossOpenExposureLimit
  return { FirmRiskCheck.create with
    mRealizedLossLimit := rll
    mUnrealizedLossLimit := urll
    mGrossNotionalLimit := gnl
    mNetNotionalLimit := nnl
    mLongOpenExposureLimit := loel
    mShortOpenExposureLimit := soel
    mGrossOpenExposureLimit := goel
    mMode := .normal }

/-- Every limit configured at the same amount. -/
def FirmRiskConf.uniform (l : Rat) : FirmRiskConf :=
  ⟨some l, some l, some l, some l, some l, some l, some l⟩

namespace FirmRiskCheck

/-- What `init` makes of `FirmRiskConf.uniform`. -/
def uniform (l : Rat) : FirmRiskCheck ι :=
  { create with
    mRealizedLossLimit := l
    mUnrealizedLossLimit := l
    mGrossNotionalLimit := l
    mNetNotionalLimit := l
    mLongOpenExposureLimit := l
    mShortOpenExposureLimit := l
    mGrossOpenExposureLimit := l
    mMode := .normal }

/-- A limit within its hard limit is taken as configured. -/
theorem limitFromConf_some (key name : String) {hard : Rat}
    (hardText : String) {l : Rat} (h0 : 0 ≤ l) (h1 : l ≤ hard) :
    limitFromConf key name hard hardText (some l) = .ok l := by
  unfold limitFromConf
  dsimp only
  rw [if_neg (not_lt.mpr h0), if_neg (not_lt.mpr h1)]

/-- The loss limits have the lowest hard limit. -/
theorem init_uniform {l : Rat} (h0 : 0 ≤ l) (h1 : l ≤ 480000) :
    init (.uniform l) = .ok (uniform l : FirmRiskCheck ι) := by
  have h2 : l ≤ 4800000 := by linarith
  have h3 : l ≤ 12000000 := by linarith
  have h4 : l ≤ 18000000 := by linarith
  have h5 : l ≤ 42000000 := by linarith
  simp only [init, FirmRiskConf.uniform, realizedLossLimitFromConf,
    unrealizedLossLimitFromConf, grossNotionalLimitFromConf,
    netNotionalLimitFromConf, longOpenExposureLimitFromConf,
    shortOpenExposureLimitFromConf, grossOpenExposureLimitFromConf,
    limitFromConf_some _ _ _ h0 h1, limitFromConf_some _ _ _ h0 h2,
    limitFromConf_some _ _ _ h0 h3, limitFromConf_some _ _ _ h0 h4,
    limitFromConf_some _ _ _ h0 h5]
  rfl

/-- The state `init` leaves, limits apart. -/
structure Blank (frc : FirmRiskCheck ι) : Prop where
  clean : frc.dirtyMode = false
  normal : frc.mMode = .normal
  bits : ∀ b, frc.breakers b = false
  permissions : ∀ esi p, frc.instPermissions esi p = false
  longNotional : frc.longNotional = 0
  shortNotional : frc.shortNotional = 0
  longOpen : frc.longOpenExposure = 0
  shortOpen : frc.shortOpenExposure = 0
  realized : frc.totalRealized = 0
  unrealized : frc.totalUnrealized = 0

private theorem bind_ok {α β ε : Type} {x : Except ε α}
    {f : α → Except ε β} {r : β} (h : x >>= f = .ok r) :
    ∃ a, x = .ok a ∧ f a = .ok r := by
  cases x with
  | error e => cases h
  | ok a => exact ⟨a, rfl, h⟩

theorem init_blank {cfg : FirmRiskConf} {frc : FirmRiskCheck ι}
    (h : init cfg = .ok frc) : frc.Blank := by
  unfold init at h
  obtain ⟨rll, -, h⟩ := bind_ok h
  obtain ⟨urll, -, h⟩ := bind_ok h
  obtain ⟨gnl, -, h⟩ := bind_ok h
  obtain ⟨nnl, -, h⟩ := bind_ok h
  obtain ⟨loel, -, h⟩ := bind_ok h
  obtain ⟨soel, -, h⟩ := bind_ok h
  obtain ⟨goel, -, h⟩ := bind_ok h
  injection h with h
  subst h
  constructor <;> intros <;> rfl

-- ============================================================= readings

def realizedLossLimit (frc : FirmRiskCheck ι) : Rat :=
  -frc.mRealizedLossLimit

def unrealizedLossLimit (frc : FirmRiskCheck ι) : Rat :=
  -frc.mUnrealizedLossLimit

def grossNotional (frc : FirmRiskCheck ι) : Rat :=
  frc.longNotional - frc.shortNotional

def netNotional (frc : FirmRiskCheck ι) : Rat :=
  frc.longNotional + frc.shortNotional

def absNetNotional (frc : FirmRiskCheck ι) : Rat :=
  if frc.netNotional < 0 then -frc.netNotional else frc.netNotional

def grossNotionalLimit (frc : FirmRiskCheck ι) : Rat :=
  frc.mGrossNotionalLimit

def netNotionalLimit (frc : FirmRiskCheck ι) : Rat := frc.mNetNotionalLimit

def grossOpenExposure (frc : FirmRiskCheck ι) : Rat :=
  frc.longOpenExposure - frc.shortOpenExposure

def longOpenExposureLimit (frc : FirmRiskCheck ι) : Rat :=
  frc.mLongOpenExposureLimit

def shortOpenExposureLimit (frc : FirmRiskCheck ι) : Rat :=
  -frc.mShortOpenExposureLimit

def grossOpenExposureLimit (frc : FirmRiskCheck ι) : Rat :=
  frc.mGrossOpenExposureLimit

def realizedLossBreaker (frc : FirmRiskCheck ι) : Bool :=
  decide (frc.totalRealized ≤ frc.realizedLossLimit)

def unrealizedLossBreaker (frc : FirmRiskCheck ι) : Bool :=
  decide (frc.totalUnrealized ≤ frc.unrealizedLossLimit)

def grossNotionalBreaker (frc : FirmRiskCheck ι) : Bool :=
  decide (frc.grossNotional ≥ frc.grossNotionalLimit)

def netNotionalBreaker (frc : FirmRiskCheck ι) : Bool :=
  decide (frc.absNetNotional ≥ frc.netNotionalLimit)

def longOpenExposureBreaker (frc : FirmRiskCheck ι) : Bool :=
  decide (frc.longOpenExposure ≥ frc.longOpenExposureLimit)

def shortOpenExposureBreaker (frc : FirmRiskCheck ι) : Bool :=
  decide (frc.shortOpenExposure ≤ frc.shortOpenExposureLimit)

def grossOpenExposureBreaker (frc : FirmRiskCheck ι) : Bool :=
  decide (frc.grossOpenExposure ≥ frc.grossOpenExposureLimit)

-- ====================================================== breakers and mode

/-- `m_breakers.set` / `m_breakers.reset`. -/
def setBreaker (frc : FirmRiskCheck ι) (b : Breaker) (on : Bool) :
    FirmRiskCheck ι :=
  { frc with breakers := Function.update frc.breakers b on }

/-- The refresh every automatic breaker goes through: set on the first
trip, reset as soon as the predicate is false again. -/
def refreshBreaker (frc : FirmRiskCheck ι) (b : Breaker) (tripped : Bool) :
    FirmRiskCheck ι :=
  if tripped then
    if !frc.breakers b then frc.setBreaker b true else frc
  else frc.setBreaker b false

def updatePnlBreakerState (frc : FirmRiskCheck ι) : FirmRiskCheck ι :=
  let frc := { frc with dirtyMode := true }
  let frc := frc.refreshBreaker .realizedLoss frc.realizedLossBreaker
  frc.refreshBreaker .unrealizedLoss frc.unrealizedLossBreaker

def updateNotionalBreakerState (frc : FirmRiskCheck ι) : FirmRiskCheck ι :=
  let frc := { frc with dirtyMode := true }
  let frc := frc.refreshBreaker .grossNotional frc.grossNotionalBreaker
  frc.refreshBreaker .netNotional frc.netNotionalBreaker

/-- Only the bit of the given side is refreshed, and the gross one. -/
def updateOpenExposureBreakerState (frc : FirmRiskCheck ι) (s : Side) :
    FirmRiskCheck ι :=
  let frc := { frc with dirtyMode := true }
  let frc :=
    if s = .buy then
      frc.refreshBreaker .longOpen frc.longOpenExposureBreaker
    else frc.refreshBreaker .shortOpen frc.shortOpenExposureBreaker
  frc.refreshBreaker .grossOpen frc.grossOpenExposureBreaker

/-- `update_mode`: the mode the bits imply. Despite its name it writes
nothing. -/
def updateMode (frc : FirmRiskCheck ι) : Mode :=
  if frc.breakers .userDisable then .disableAll
  else if frc.breakers .realizedLoss || frc.breakers .unrealizedLoss then
    .disableAll
  else if frc.breakers .grossNotional then .flattenOnly
  else if frc.breakers .netNotional then
    if frc.netNotional > 0 then .shortenOnly else .lengthenOnly
  else if frc.breakers .grossOpen || frc.breakers .longOpen
      || frc.breakers .shortOpen then
    .disableAll
  else .normal

/-- `mode()`: refresh the cached mode when dirty. The mode it returns is
the `mMode` of the result. -/
def mode (frc : FirmRiskCheck ι) : FirmRiskCheck ι :=
  if frc.dirtyMode then { frc with mMode := frc.updateMode } else frc

/-- `user_disable()`: sets the bit and drops the result of
`update_mode`. -/
def userDisable (frc : FirmRiskCheck ι) : FirmRiskCheck ι :=
  frc.setBreaker .userDisable true

def userEnable (frc : FirmRiskCheck ι) : FirmRiskCheck ι :=
  frc.setBreaker .userDisable false

/-- `m_inst_permissions[esi].set` / `.reset`. -/
def setPermission [DecidableEq ι] (frc : FirmRiskCheck ι) (esi : ι)
    (p : InstPermission) (on : Bool) : FirmRiskCheck ι :=
  { frc with
    instPermissions := Function.update frc.instPermissions esi
      (Function.update (frc.instPermissions esi) p on) }

/-- `user_disable(esi)`. -/
def userDisableStock [DecidableEq ι] (frc : FirmRiskCheck ι) (esi : ι) :
    FirmRiskCheck ι :=
  frc.setPermission esi .userDisable true

/-- `user_enable(esi)`. -/
def userEnableStock [DecidableEq ι] (frc : FirmRiskCheck ι) (esi : ι) :
    FirmRiskCheck ι :=
  frc.setPermission esi .userDisable false

-- ============================================================ new orders

/-- The `switch` over the mode. `flattenOnly` passes: it jumps straight
to `check_flatten_only`. -/
def modeAdmits (theMode : Mode) (op : Order ι) : Bool :=
  match theMode with
  | .normal => true
  | .disableAll => false
  | .flattenOnly => true
  | .lengthenOnly => op.side == .buy
  | .shortenOnly => decide (op.side.code > Side.buy.code)
  | .unknown => false

/-- The stock's `USER_DISABLE` permission, which the jump out of
`flattenOnly` leaves out. -/
def stockAdmits (frc : FirmRiskCheck ι) (op : Order ι) : Bool :=
  frc.mMode == .flattenOnly
    || !frc.instPermissions op.instrument .userDisable

/-- `check_flatten_only`: while flattening, a long position only sells
and any other only buys. -/
def flattenAdmits (frc : FirmRiskCheck ι) (pos : Position) (op : Order ι) :
    Bool :=
  if frc.instPermissions op.instrument .flattenOnly
      || frc.mMode == .flattenOnly then
    if pos.quantity > 0 then op.side != .buy else op.side == .buy
  else true

/-- No subpenny orders from a dollar up, no submil orders below. -/
def nmsPriceAdmits (op : Order ι) : Bool :=
  let intPrice :=
    if op.price ≥ 1 then truncate (op.price * 10000 + 1 / 2)
    else truncate (op.price * 1000000 + 1 / 2)
  intPrice.tmod 100 == 0

def orderNotional (op : Order ι) : Rat := op.size * op.price

/-- Whether the order would trip a limit; only in normal mode does the
gross notional count. -/
def limitsAdmit (frc : FirmRiskCheck ι) (op : Order ι) : Bool :=
  let n := orderNotional op
  !(frc.mMode == .normal
      && decide (frc.grossNotional + n ≥ frc.grossNotionalLimit))
    && decide (frc.grossOpenExposure + n < frc.grossOpenExposureLimit)
    && if op.side = .buy then
        decide (frc.netNotional + n < frc.netNotionalLimit)
          && decide (frc.longOpenExposure + n < frc.longOpenExposureLimit)
      else
        decide (frc.netNotional - n > -frc.netNotionalLimit)
          && decide (frc.shortOpenExposure - n > frc.shortOpenExposureLimit)

/-- `FirmRiskCheck::new_order`: whether the order passes, and the check
with its mode refreshed. `pos` is the position of the order's
instrument. -/
def newOrder (frc : FirmRiskCheck ι) (pos : Position) (op : Order ι) :
    Bool × FirmRiskCheck ι :=
  let frc := frc.mode
  (modeAdmits frc.mMode op && frc.stockAdmits op && frc.flattenAdmits pos op
      && nmsPriceAdmits op && frc.limitsAdmit op,
    frc)

-- ========================================================= order updates

/-- `unsafe_on_order_adds`. -/
def unsafeOnOrderAdds (frc : FirmRiskCheck ι) (pos : Position)
    (op : Order ι) (addSize : Nat) : FirmRiskCheck ι × Position :=
  if op.side = .buy then
    let pos' := pos.addOpenBuys op.price addSize
    let frc := { frc with
      longOpenExposure := frc.longOpenExposure
        + (pos'.longOpenExposure - pos.longOpenExposure) }
    (frc.updateOpenExposureBreakerState op.side, pos')
  else
    let pos' := pos.addOpenSells op.price addSize
    let frc := { frc with
      shortOpenExposure := frc.shortOpenExposure
        + (pos'.shortOpenExposure - pos.shortOpenExposure) }
    (frc.updateOpenExposureBreakerState op.side, pos')

/-- `unsafe_on_order_removes`. -/
def unsafeOnOrderRemoves (frc : FirmRiskCheck ι) (pos : Position)
    (op : Order ι) (cancelSize : Nat) : FirmRiskCheck ι × Position :=
  if op.side = .buy then
    let pos' := pos.subOpenBuys op.price cancelSize
    let frc := { frc with
      longOpenExposure := frc.longOpenExposure
        + (pos'.longOpenExposure - pos.longOpenExposure) }
    (frc.updateOpenExposureBreakerState op.side, pos')
  else
    let pos' := pos.subOpenSells op.price cancelSize
    let frc := { frc with
      shortOpenExposure := frc.shortOpenExposure
        + (pos'.shortOpenExposure - pos.shortOpenExposure) }
    (frc.updateOpenExposureBreakerState op.side, pos')

/-- The assertion inside `unsafe_on_order_removes`, by the order's side. -/
def removesHeld (pos : Position) (op : Order ι) (cancelSize : Nat) :
    Prop :=
  if op.side = .buy then pos.subOpenBuysHeld cancelSize
  else pos.subOpenSellsHeld cancelSize

/-- The same of sizes taken as integers. -/
def removesAssert (pos : Position) (op : Order ι) (cancelSize : Nat) :
    Prop :=
  if op.side = .buy then pos.subOpenBuysAssert cancelSize
  else pos.subOpenSellsAssert cancelSize

/-- Take a position's contribution out of the notional of its sign. -/
def subNotional (frc : FirmRiskCheck ι) (pos : Position) :
    FirmRiskCheck ι :=
  if pos.tradingQuantity > 0 then
    { frc with longNotional := frc.longNotional - pos.notional }
  else if pos.tradingQuantity < 0 then
    { frc with shortNotional := frc.shortNotional - pos.notional }
  else frc

/-- Add a position's contribution to the notional of its sign. -/
def addNotional (frc : FirmRiskCheck ι) (pos : Position) :
    FirmRiskCheck ι :=
  if pos.tradingQuantity > 0 then
    { frc with longNotional := frc.longNotional + pos.notional }
  else if pos.tradingQuantity < 0 then
    { frc with shortNotional := frc.shortNotional + pos.notional }
  else frc

/-- `unsafe_on_order_fill`. -/
def unsafeOnOrderFill (frc : FirmRiskCheck ι) (pos : Position)
    (op : Order ι) (size : Nat) (price fee : Rat) :
    FirmRiskCheck ι × Position :=
  let frc := frc.subNotional pos
  let pos' := pos.updateRealizedAndUnrealizedPnl op.side size price fee
  let frc := { frc with
    totalRealized := frc.totalRealized
      + (pos'.realizedPnl - pos.realizedPnl)
    totalUnrealized := frc.totalUnrealized
      + (pos'.unrealizedPnl - pos.unrealizedPnl) }
  let frc := frc.addNotional pos'
  let r := frc.unsafeOnOrderRemoves pos' op size
  (r.1.updatePnlBreakerState.updateNotionalBreakerState
      |>.updateOpenExposureBreakerState op.side,
    r.2)

/-- `unsafe_on_last_sale_change`, with `MD::to_double` of the last sale
price: only a position marks. -/
def unsafeOnLastSaleChange (frc : FirmRiskCheck ι) (pos : Position)
    (p : Rat) : FirmRiskCheck ι × Position :=
  if pos.tradingQuantity = 0 then (frc, pos)
  else
    let pos' := pos.onUpdateMark p
    let frc := { frc with
      totalUnrealized := frc.totalUnrealized
        + (pos'.unrealizedPnl - pos.unrealizedPnl) }
    let frc :=
      if pos'.tradingQuantity > 0 then
        { frc with
          longNotional := frc.longNotional
            + (pos'.notional - pos.notional) }
      else
        { frc with
          shortNotional := frc.shortNotional
            + (pos'.notional - pos.notional) }
    (frc.updatePnlBreakerState.updateNotionalBreakerState, pos')

-- ========================================= what each function writes

/-- A breaker's predicate on the current totals. `userDisable` follows no
predicate. -/
def tripped (frc : FirmRiskCheck ι) : Breaker → Bool
  | .realizedLoss => frc.realizedLossBreaker
  | .unrealizedLoss => frc.unrealizedLossBreaker
  | .grossNotional => frc.grossNotionalBreaker
  | .netNotional => frc.netNotionalBreaker
  | .longOpen => frc.longOpenExposureBreaker
  | .shortOpen => frc.shortOpenExposureBreaker
  | .grossOpen => frc.grossOpenExposureBreaker
  | .userDisable => false

/-- Every watched bit brought in line with its predicate, the mode marked
dirty: all that the `update*BreakerState` functions do. -/
def refreshed (frc : FirmRiskCheck ι) (watched : Breaker → Bool) :
    FirmRiskCheck ι :=
  { frc with
    dirtyMode := true
    breakers := fun b =>
      if watched b then frc.tripped b else frc.breakers b }

def pnlBits : Breaker → Bool
  | .realizedLoss | .unrealizedLoss => true
  | _ => false

def notionalBits : Breaker → Bool
  | .grossNotional | .netNotional => true
  | _ => false

/-- The bits an open-exposure change on side `s` refreshes. -/
def openBits (s : Side) : Breaker → Bool
  | .grossOpen => true
  | .longOpen => s == .buy
  | .shortOpen => s != .buy
  | _ => false

/-- Setting a bit that is set changes nothing, so a refresh is an
assignment. -/
theorem refreshBreaker_eq (frc : FirmRiskCheck ι) (b : Breaker)
    (on : Bool) : frc.refreshBreaker b on = frc.setBreaker b on := by
  unfold refreshBreaker
  cases on with
  | false => rfl
  | true =>
      cases hb : frc.breakers b with
      | false => rfl
      | true =>
          simp only [setBreaker, if_true, Bool.not_true,
            Bool.false_eq_true, if_false]
          rw [← hb, Function.update_eq_self]

/-- The mode is all that asking for it may change. -/
theorem mode_eq (frc : FirmRiskCheck ι) :
    frc.mode = { frc with
      mMode := if frc.dirtyMode then frc.updateMode else frc.mMode } := by
  unfold mode
  split <;> rfl

theorem updatePnlBreakerState_eq (frc : FirmRiskCheck ι) :
    frc.updatePnlBreakerState = frc.refreshed pnlBits := by
  simp only [updatePnlBreakerState, refreshBreaker_eq, setBreaker,
    refreshed]
  congr 1
  funext b
  cases b <;> rfl

theorem updateNotionalBreakerState_eq (frc : FirmRiskCheck ι) :
    frc.updateNotionalBreakerState = frc.refreshed notionalBits := by
  simp only [updateNotionalBreakerState, refreshBreaker_eq, setBreaker,
    refreshed]
  congr 1
  funext b
  cases b <;> rfl

theorem updateOpenExposureBreakerState_eq (frc : FirmRiskCheck ι)
    (s : Side) :
    frc.updateOpenExposureBreakerState s = frc.refreshed (openBits s) := by
  simp only [updateOpenExposureBreakerState, refreshBreaker_eq, refreshed]
  by_cases hs : s = .buy
  · simp only [hs, if_true, setBreaker]
    congr 1
    funext b
    cases b <;> rfl
  · simp only [hs, if_false, setBreaker]
    congr 1
    funext b
    cases b with
    | shortOpen =>
        have hw : openBits s .shortOpen = true := bne_iff_ne.mpr hs
        rw [hw]
        rfl
    | longOpen =>
        have hw : openBits s .longOpen = false := beq_false_of_ne hs
        rw [hw]
        rfl
    | _ => rfl

@[simp] theorem tripped_refreshed (frc : FirmRiskCheck ι)
    (w : Breaker → Bool) (b : Breaker) :
    (frc.refreshed w).tripped b = frc.tripped b := by
  cases b <;> rfl

/-- Refreshing twice refreshes what either watched. -/
theorem refreshed_refreshed (frc : FirmRiskCheck ι)
    (w w' : Breaker → Bool) :
    (frc.refreshed w).refreshed w'
      = frc.refreshed (fun b => w' b || w b) := by
  have hbits : ∀ b, (if w' b then (frc.refreshed w).tripped b
      else (frc.refreshed w).breakers b)
      = if w' b || w b then frc.tripped b else frc.breakers b := by
    intro b
    rw [tripped_refreshed]
    show (if w' b then _ else if w b then _ else _) = _
    cases w' b <;> cases w b <;> rfl
  show ({ frc.refreshed w with
      dirtyMode := true
      breakers := fun b => if w' b then (frc.refreshed w).tripped b
        else (frc.refreshed w).breakers b } : FirmRiskCheck ι) = _
  simp only [hbits]
  rfl

/-- The open total of one side moved by a signed amount of exposure. -/
def moveOpen (frc : FirmRiskCheck ι) (s : Side) (amount : Rat) :
    FirmRiskCheck ι :=
  if s = .buy then
    { frc with longOpenExposure := frc.longOpenExposure + amount }
  else { frc with shortOpenExposure := frc.shortOpenExposure - amount }

/-- A position's p&l and notional replaced by those of another: what a
fill does to the firm totals before it removes open exposure. -/
def movePnl (frc : FirmRiskCheck ι) (pos pos' : Position) :
    FirmRiskCheck ι :=
  let frc := frc.subNotional pos
  let frc := { frc with
    totalRealized := frc.totalRealized
      + (pos'.realizedPnl - pos.realizedPnl)
    totalUnrealized := frc.totalUnrealized
      + (pos'.unrealizedPnl - pos.unrealizedPnl) }
  frc.addNotional pos'

/-- Long or short, the contribution goes out of the notional of its
sign; a flat position has none. -/
theorem subNotional_eq (frc : FirmRiskCheck ι) (pos : Position) :
    frc.subNotional pos
      = { frc with
          longNotional := frc.longNotional - pos.longPart
          shortNotional := frc.shortNotional - pos.shortPart } := by
  unfold subNotional Position.longPart Position.shortPart
  rcases lt_trichotomy pos.tradingQuantity 0 with h | h | h
  · rw [if_neg (not_lt_of_gt h), if_pos h, if_neg (not_lt_of_gt h),
      if_pos h, sub_zero]
  · rw [h]
    simp
  · rw [if_pos h, if_pos h, if_neg (not_lt_of_gt h), sub_zero]

theorem addNotional_eq (frc : FirmRiskCheck ι) (pos : Position) :
    frc.addNotional pos
      = { frc with
          longNotional := frc.longNotional + pos.longPart
          shortNotional := frc.shortNotional + pos.shortPart } := by
  unfold addNotional Position.longPart Position.shortPart
  rcases lt_trichotomy pos.tradingQuantity 0 with h | h | h
  · rw [if_neg (not_lt_of_gt h), if_pos h, if_neg (not_lt_of_gt h),
      if_pos h, add_zero]
  · rw [h]
    simp
  · rw [if_pos h, if_pos h, if_neg (not_lt_of_gt h), add_zero]

/-- Each of the four totals moves by the change of the position's share
in it. -/
theorem movePnl_eq (frc : FirmRiskCheck ι) (pos pos' : Position) :
    frc.movePnl pos pos'
      = { frc with
          longNotional :=
            frc.longNotional + (pos'.longPart - pos.longPart)
          shortNotional :=
            frc.shortNotional + (pos'.shortPart - pos.shortPart)
          totalRealized :=
            frc.totalRealized + (pos'.realizedPnl - pos.realizedPnl)
          totalUnrealized := frc.totalUnrealized
            + (pos'.unrealizedPnl - pos.unrealizedPnl) } := by
  have hlong : frc.longNotional - pos.longPart + pos'.longPart
      = frc.longNotional + (pos'.longPart - pos.longPart) := by ring
  have hshort : frc.shortNotional - pos.shortPart + pos'.shortPart
      = frc.shortNotional + (pos'.shortPart - pos.shortPart) := by ring
  simp only [movePnl, subNotional_eq, addNotional_eq, hlong, hshort]

/-- `unsafe_on_order_adds` in one equation, either side. -/
theorem unsafeOnOrderAdds_eq (frc : FirmRiskCheck ι) (pos : Position)
    (op : Order ι) (n : Nat) :
    frc.unsafeOnOrderAdds pos op n
      = ((frc.moveOpen op.side (n * op.price)).refreshed (openBits op.side),
        pos.moveOpen op.side op.price n) := by
  unfold unsafeOnOrderAdds
  by_cases hs : op.side = .buy
  · have hd := pos.longOpenExposure_moveOpen .buy op.price n
    simp only [if_true, Int.cast_natCast] at hd
    simp only [hs, if_true, updateOpenExposureBreakerState_eq,
      Position.addOpenBuys_eq, hd, moveOpen]
  · have hd := pos.shortOpenExposure_moveOpen op.side op.price n
    simp only [hs, if_false, Int.cast_natCast] at hd
    simp only [hs, if_false, updateOpenExposureBreakerState_eq,
      Position.addOpenSells_eq pos hs, hd, moveOpen, ← sub_eq_add_neg]

/-- `unsafe_on_order_removes` is the same move the other way. -/
theorem unsafeOnOrderRemoves_eq (frc : FirmRiskCheck ι) (pos : Position)
    (op : Order ι) (n : Nat) :
    frc.unsafeOnOrderRemoves pos op n
      = ((frc.moveOpen op.side (-(n * op.price))).refreshed
          (openBits op.side),
        pos.moveOpen op.side op.price (-n)) := by
  unfold unsafeOnOrderRemoves
  by_cases hs : op.side = .buy
  · have hd := pos.longOpenExposure_moveOpen .buy op.price (-n)
    simp only [if_true, Int.cast_neg, Int.cast_natCast, neg_mul] at hd
    simp only [hs, if_true, updateOpenExposureBreakerState_eq,
      Position.subOpenBuys_eq, hd, moveOpen]
  · have hd := pos.shortOpenExposure_moveOpen op.side op.price (-n)
    simp only [hs, if_false, Int.cast_neg, Int.cast_natCast, neg_mul] at hd
    simp only [hs, if_false, updateOpenExposureBreakerState_eq,
      Position.subOpenSells_eq pos hs, hd, moveOpen, ← sub_eq_add_neg]

/-- The bits a fill on side `s` refreshes. -/
def fillBits (s : Side) (b : Breaker) : Bool :=
  openBits s b || notionalBits b || pnlBits b

/-- `unsafe_on_order_fill`: the p&l moves, the open exposure goes, and
every bit but the other side's open one is refreshed. -/
theorem unsafeOnOrderFill_eq (frc : FirmRiskCheck ι) (pos : Position)
    (op : Order ι) (n : Nat) (price fee : Rat) :
    frc.unsafeOnOrderFill pos op n price fee
      = (((frc.movePnl pos (pos.updateRealizedAndUnrealizedPnl op.side n
            price fee)).moveOpen op.side (-(n * op.price))).refreshed
          (fillBits op.side),
        (pos.updateRealizedAndUnrealizedPnl op.side n price fee).moveOpen
          op.side op.price (-n)) := by
  unfold unsafeOnOrderFill
  simp only [unsafeOnOrderRemoves_eq, updatePnlBreakerState_eq,
    updateNotionalBreakerState_eq, updateOpenExposureBreakerState_eq,
    refreshed_refreshed, movePnl]
  congr 2
  funext b
  unfold fillBits
  cases openBits op.side b <;> cases notionalBits b <;> cases pnlBits b
    <;> rfl

/-- `unsafe_on_last_sale_change` with a position to mark. -/
theorem unsafeOnLastSaleChange_eq (frc : FirmRiskCheck ι) (pos : Position)
    (p : Rat) (hq : pos.tradingQuantity ≠ 0) :
    frc.unsafeOnLastSaleChange pos p
      = ((frc.movePnl pos (pos.onUpdateMark p)).refreshed
          (fun b => notionalBits b || pnlBits b),
        pos.onUpdateMark p) := by
  unfold unsafeOnLastSaleChange
  rw [if_neg hq]
  simp only [updatePnlBreakerState_eq, updateNotionalBreakerState_eq,
    refreshed_refreshed, movePnl]
  have hq' : (pos.onUpdateMark p).tradingQuantity = pos.tradingQuantity :=
    rfl
  have hr : (pos.onUpdateMark p).realizedPnl - pos.realizedPnl = 0 :=
    sub_self _
  -- the position keeps its side: out and in are of one notional
  simp only [hr, add_zero, hq', subNotional, addNotional]
  congr 2
  by_cases hpos : pos.tradingQuantity > 0
  · simp only [hpos, if_true, FirmRiskCheck.mk.injEq, true_and, and_true]
    ring
  · have hneg : pos.tradingQuantity < 0 := by omega
    simp only [hpos, hneg, if_true, if_false, FirmRiskCheck.mk.injEq,
      true_and, and_true]
    ring

end FirmRiskCheck

end TradingEngine.OE
