/-
`oe/NASDAQ/OUCH42Session.cpp`: `send` and `cancel`, and the order token that
both put in their message.

Messages are decoded, as those that come in are in `OUCH42Orders.lean`:
integers in the host's byte order. The price of an order is the number it
stands for. `m_broker_locate` is -1 in every order there is, so a token has
the locate code of the session.
-/
import TradingEngine.Core.Alphanumeric
import TradingEngine.OE.OUCH42Orders
import TradingEngine.OE.OUCH42Session

namespace TradingEngine.OE

open SoupBinTCP30

variable {ι : Type}

namespace OUCH42

-- =================================================================== tokens

/-- `std::string::resize`. -/
def resize (n : Nat) (c : UInt8) (s : Bytes) : Bytes :=
  s.take n ++ List.replicate (n - s.length) c

/-- What the loop over the symbol makes of a character: `'.'`, `'-'` and
`'+'` become letters. -/
def hprSymbolChar (c : UInt8) : UInt8 :=
  match c.toNat with
  | 46 => 99
  | 45 => 112
  | 43 => 119
  | _ => c

/-- Five characters, filled up with `'0'`. -/
def hprSymbol (symbol : Bytes) : Bytes :=
  (resize 5 48 symbol).map hprSymbolChar

/-- The type of `HPRData::id`. -/
def hprID : Alphanumeric := ⟨8, true, true, 48⟩

/-- `OrderToken::HPRData`, as it is sent. -/
structure HPRData where
  hprMarking : UInt8
  symbol : Bytes
  id : Bytes
  deriving DecidableEq

/-- `OrderToken::arr`. -/
def HPRData.arr (t : HPRData) : Bytes := t.hprMarking :: t.symbol ++ t.id

/-- The tifs whose marking is nine up. -/
def InCross (tif : TimeInForce) : Prop :=
  tif = .auctionOpen ∨ tif = .auctionClose

instance (tif : TimeInForce) : Decidable (InCross tif) :=
  inferInstanceAs (Decidable (_ ∨ _))

/-- The switch over the side. -/
def sideMarker (brokerLocate : Fin 4) : Side → Option Nat
  | .unknown => none
  | .short | .shortExempt => some (65 + brokerLocate)
  | .sell => some (69 + brokerLocate)
  | .buy => some 73

/-- The order marking character: side, locate code and auction. -/
def marker (brokerLocate : Fin 4) (side : Side) (tif : TimeInForce) :
    Option Nat :=
  (sideMarker brokerLocate side).map fun m =>
    if InCross tif then m + 9 else m

/-- `create_order_token_hpr`. -/
def createOrderTokenHpr (brokerLocate : Fin 4) (symbolCache : ι → Bytes)
    (o : Order ι) : Option HPRData :=
  (marker brokerLocate o.side o.tif).map fun m =>
    { hprMarking := .ofNat m
      symbol := hprSymbol (symbolCache o.instrument)
      id := (hprID.set o.localID).2 }

-- ================================================================= messages

/-- `NASDAQOrder::Display`. -/
inductive Display
  | unknown
  | attributablePriceToDisplay
  | anonymousPriceToComply
  | nonDisplay
  | postOnly
  | imbalanceOnly
  | midpointPeg
  | midpointPegPostOnly
  | postOnlyAndAttributablePriceToDisplay
  | retailOrderType1
  | retailOrderType2
  | retailPriceImprovementOrder
  deriving DecidableEq

/-- `NASDAQOrder::Capacity`. -/
inductive Capacity
  | agency
  | principal
  | riskless
  | other
  deriving DecidableEq

inductive IntermarketSweepEligibility
  | eligible
  | notEligible
  deriving DecidableEq

inductive CustomerType
  | retailDesignated
  | notRetailDesignated
  | useDefault
  deriving DecidableEq

/-- `'N'`. -/
def noCross : CrossType := .other 78

/-- What `NASDAQOrder` adds to an order, as far as `send` reads it. -/
structure NASDAQTerms where
  display : Display
  capacity : Capacity
  minSize : Nat
  deriving DecidableEq

/-- `Messages::EnterOrder`, less the type. -/
structure EnterOrder where
  orderToken : HPRData
  buySellIndicator : BuySellIndicator
  shares : Nat
  stock : Bytes
  price : UInt32
  timeInForce : UInt32
  firm : Bytes
  display : Display
  capacity : Capacity
  isoEligibility : IntermarketSweepEligibility
  minimumQuantity : Nat
  crossType : CrossType
  customerType : CustomerType
  deriving DecidableEq

/-- `Messages::CancelOrder`, less the type. -/
structure CancelOrder where
  orderToken : HPRData
  shares : Nat
  deriving DecidableEq

/-- `PriceSpecial::MARKET_CROSS_SPECIAL_PRICE`. -/
def marketCrossSpecialPrice : UInt32 := 0x7FFFFFFF

/-- `Price::set_limit`. -/
def setLimit (price : Rat) : UInt32 :=
  .ofNat ⌊price * 10000 + 1 / 2⌋.toNat

/-- `strncpy` over a field of `n`: what follows the end is zero. -/
def strncpy (n : Nat) (s : Bytes) : Bytes :=
  resize n 0 (s.takeWhile (· ≠ 0))

def buySellIndicator : Side → Option BuySellIndicator
  | .buy => some .buy
  | .sell => some .sell
  | .short => some .short
  | .shortExempt => some .shortExempt
  | .unknown => none

/-- The switch over the type: price and display. -/
def priceTerms (price : Rat) : OrderType → Option (UInt32 × Display)
  | .market => some (marketCrossSpecialPrice, .nonDisplay)
  | .limit => some (setLimit price, .anonymousPriceToComply)
  | .midpointPeg => some (setLimit price, .midpointPeg)
  | .stop | .unknown => none

/-- The switch over the tif: time in force and cross type. -/
def tifTerms : TimeInForce → Option (UInt32 × CrossType)
  | .fillOrKill | .immediateOrCancel => some (0, noCross)
  | .day => some (0x1869E, noCross)
  | .ext => some (0x1869F, noCross)
  | .auctionClose => some (0, .closingCross)
  | .auctionOpen => some (0, .openingCross)
  | .auctionHalt => some (0, .haltOrIpoCross)
  | .gtc | .timed | .unknown => none

/-- An order that is not to rest is not displayed, and what the order asks
for goes before either. -/
def displayTerm (tif : TimeInForce) (ofType asked : Display) : Display :=
  if asked ≠ .unknown then asked
  else if tif = .fillOrKill ∨ tif = .immediateOrCancel then .nonDisplay
  else ofType

end OUCH42

open OUCH42

-- ================================================================== session

/-- The members of an `OUCH42Session` that `send` and `cancel` need as
well. The locate code is checked when the session is configured. -/
structure OUCH42Sender (ι : Type) extends OUCH42Orders ι where
  firmIdentifier : Bytes
  defaultBrokerLocate : Fin 4
  symbolCache : ι → Bytes
  createOrderTokenHpr_eq : ∀ o, createOrderTokenHpr o
    = (OUCH42.createOrderTokenHpr defaultBrokerLocate symbolCache o).map
      fun t => copyOverSpaces 20 t.arr

namespace OUCH42Sender

variable (s : OUCH42Sender ι)

def orderToken (o : Order ι) : Option HPRData :=
  OUCH42.createOrderTokenHpr s.defaultBrokerLocate s.symbolCache o

/-- `send`, to the `EnterOrder` it passes on. -/
def send (c : OUCH42Session) (o : Order ι) (n : NASDAQTerms) :
    Option EnterOrder :=
  if !c.active || !c.loggedIn then none
  else do
    let token ← s.orderToken o
    let side ← buySellIndicator o.side
    let (price, display) ← priceTerms o.price o.type
    let (tif, cross) ← tifTerms o.tif
    some
      { orderToken := token
        buySellIndicator := side
        shares := o.size
        stock := strncpy 8 (resize 8 space (s.symbolCache o.instrument))
        price := price
        timeInForce := tif
        firm := s.firmIdentifier
        display := displayTerm o.tif display n.display
        capacity := n.capacity
        isoEligibility := .notEligible
        minimumQuantity :=
          if o.tif = .fillOrKill then o.size else n.minSize
        crossType := cross
        customerType := .useDefault }

/-- `cancel`, to the `CancelOrder` it passes on. -/
def cancel (c : OUCH42Session) (o : Order ι) (newqty : Nat) :
    Option CancelOrder :=
  if !c.active || !c.loggedIn then none
  else (s.orderToken o).map fun token => ⟨token, newqty⟩

/-- What `OrderManager::send` sees of `send`: whether the connection took
all of the message, and the members that are set on the way. -/
def sendAnswer (c : OUCH42Session) (o : Order ι) (n : NASDAQTerms)
    (took : Bool) (now : Timestamp) : OrderManager.SendAnswer where
  validated := true
  sent := (s.send c o n).isSome && took
  sentTime := if (s.send c o n).isSome then now else o.sentTime
  clientOrderID :=
    if !c.active || !c.loggedIn then o.clientOrderID
    else match s.orderToken o with
      | some token => token.arr ++ o.clientOrderID.drop 14
      | none => o.clientOrderID

end OUCH42Sender

end TradingEngine.OE
