/-
`ts/NBBOEquitiesStrategy.cpp`: the consolidated book, in which the quote
of a venue on a side is an order, and the switching of venues.

Of what a strategy does with an NBBO update nothing is here, it is the
subclass's: `nbboUpdates` are the calls of `on_nbbo_update`. Timestamps go
through unread and are left out.
-/
import TradingEngine.MD.OrderBook
import Mathlib.Data.Fintype.Basic
import Mathlib.Tactic.DeriveFintype

namespace TradingEngine.TS

open MD (BookBase FullL2Quote L2Quote L3OrderData OrderBook RefNum Side)

-- ================================================================== venues

/-- `core::MIC::index`: `UNKNOWN` and the ten markets of `MIC.def.hpp`. -/
abbrev MICIndex := Fin 11

abbrev EphemeralSymbolIndex := Nat

/-- `TradingStateBitfield`. -/
abbrev TradingStateBitfield := UInt64

/-- The trading states that `on_trading_status_update` knows. -/
inductive TradingState
  | trading
  | halted
  | quotationOnly
  deriving DecidableEq, Repr

/-- `TradingStatusEvent::Event`. -/
inductive TradingStatus
  | unknown
  | trading
  | halt
  | quoteOnly
  | ssrInEffect
  | ssrNotInEffect
  | preMktSession
  | regularMktSession
  | postMktSession
  deriving DecidableEq, Repr

-- ==================================================================== tables

/-- One entry of a table with two keys is another. -/
theorem update_update_apply {α β γ : Type*} [DecidableEq α] [DecidableEq β]
    (f : α → β → γ) (a a' : α) (b b' : β) (c : γ) :
    Function.update f a (Function.update (f a) b c) a' b'
      = if a' = a ∧ b' = b then c else f a' b' := by
  by_cases ha : a' = a
  · subst ha
    rw [Function.update_self, Function.update_apply]
    simp only [true_and]
  · rw [Function.update_of_ne ha, if_neg fun h => ha h.1]

-- ======================================================== reference numbers

namespace NBBOEquitiesStrategy

/-- `SIDE_MASK`. -/
def sideMask : Nat := 1 <<< 16

def sideToBits : Side → RefNum
  | .buy => 0
  | .sell => sideMask

def refnumToSide (r : RefNum) : Side :=
  if r &&& sideMask = 0 then .buy else .sell

def makeRefnum (index : Nat) (side : Side) : RefNum :=
  index ||| sideToBits side

/-- `make_new_order`. -/
def makeNewOrder (refnum : RefNum) (q : L2Quote) : L3OrderData :=
  ⟨refnum, refnumToSide refnum, q.price, q.size⟩

end NBBOEquitiesStrategy

-- ================================================================= strategy

/-- A call of `on_nbbo_update`. -/
structure NBBOUpdate where
  mic : MICIndex
  esi : EphemeralSymbolIndex
  best : FullL2Quote
  deriving DecidableEq, Repr

structure NBBOEquitiesStrategy where
  books : EphemeralSymbolIndex → OrderBook
  venueEnabled : MICIndex → EphemeralSymbolIndex → Bool
  statusPolicyBitfield : TradingStateBitfield
  nbboUpdates : List NBBOUpdate

/-- What the strategy is parameterized over: the books, and the bit of a
trading state. -/
structure Market where
  base : BookBase
  tradingStateBit : TradingState → TradingStateBitfield

namespace NBBOEquitiesStrategy

section Strategy

variable (m : Market)

/-- The constructor. -/
def init : NBBOEquitiesStrategy where
  books := fun _ => OrderBook.empty
  venueEnabled := fun _ _ => true
  statusPolicyBitfield := m.tradingStateBit .trading
  nbboUpdates := []

/-- What `update_book` makes of the book of the stock. -/
def updatedBook (mic : MICIndex) (side : Side) (q : L2Quote)
    (b : OrderBook) : OrderBook :=
  let refnum := makeRefnum mic side
  match b.find refnum with
  | none =>
      if (side = .buy ∧ q.price ≠ m.base.emptyBidPrice)
          ∨ (side = .sell ∧ m.base.emptyAskPrice ≠ q.price) then
        b.add (makeNewOrder refnum q)
      else b
  | some p =>
      if q.price ≠ p.price then
        if (side = .buy ∧ q.price = m.base.emptyBidPrice)
            ∨ (side = .sell ∧ m.base.emptyAskPrice = q.price) then
          b.erase p
        else b.replace refnum (makeNewOrder refnum q)
      else b.modify p q.size

/-- `update_book`, with whether the best of the side is another now. -/
def updateBook (s : NBBOEquitiesStrategy) (mic : MICIndex)
    (esi : EphemeralSymbolIndex) (side : Side) (q : L2Quote) :
    NBBOEquitiesStrategy × Bool :=
  let priorq := m.base.bestOf (s.books esi) side
  let b := updatedBook m mic side q (s.books esi)
  let newq := m.base.bestOf b side
  ({ s with books := Function.update s.books esi b }, newq != priorq)

/-- `on_nbbo_update`, with the best of the stock's book. -/
def onNbboUpdate (s : NBBOEquitiesStrategy) (mic : MICIndex)
    (esi : EphemeralSymbolIndex) : NBBOEquitiesStrategy :=
  { s with
    nbboUpdates := s.nbboUpdates ++ [⟨mic, esi, m.base.best (s.books esi)⟩] }

/-- `on_bbo_update`, when only one side has changed. -/
def onBboUpdate (s : NBBOEquitiesStrategy) (mic : MICIndex)
    (esi : EphemeralSymbolIndex) (side : Side) (q : L2Quote) :
    NBBOEquitiesStrategy :=
  if ¬ s.venueEnabled mic esi then s
  else
    let r := s.updateBook m mic esi side q
    if r.2 then r.1.onNbboUpdate m mic esi else r.1

/-- `on_bbo_update`, when both sides have changed. -/
def onFullBboUpdate (s : NBBOEquitiesStrategy) (mic : MICIndex)
    (esi : EphemeralSymbolIndex) (q : FullL2Quote) :
    NBBOEquitiesStrategy :=
  if ¬ s.venueEnabled mic esi then s
  else
    let bid := s.updateBook m mic esi .buy q.bid
    -- `||` does not look at the ask once the bid has said yes
    let either :=
      if bid.2 then bid
      else bid.1.updateBook m mic esi .sell q.ask
    if either.2 then either.1.onNbboUpdate m mic esi else either.1

/-- `m_venue_enabled[mic_index][esi] = enabled`. -/
def setVenueEnabled (s : NBBOEquitiesStrategy) (mic : MICIndex)
    (esi : EphemeralSymbolIndex) (enabled : Bool) : NBBOEquitiesStrategy :=
  { s with
    venueEnabled :=
      Function.update s.venueEnabled mic
        (Function.update (s.venueEnabled mic) esi enabled) }

def enableVenue (s : NBBOEquitiesStrategy) (mic : MICIndex)
    (esi : EphemeralSymbolIndex) : NBBOEquitiesStrategy :=
  s.setVenueEnabled mic esi true

def disableVenue (s : NBBOEquitiesStrategy) (mic : MICIndex)
    (esi : EphemeralSymbolIndex) : NBBOEquitiesStrategy :=
  let s :=
    if s.venueEnabled mic esi then
      let b := (s.books esi).remove (makeRefnum mic .buy)
      let b := b.remove (makeRefnum mic .sell)
      { s with books := Function.update s.books esi b }
    else s
  s.setVenueEnabled mic esi false

def updateVenueFromStatus (s : NBBOEquitiesStrategy) (mic : MICIndex)
    (esi : EphemeralSymbolIndex) (ts : TradingState) :
    NBBOEquitiesStrategy :=
  if s.statusPolicyBitfield &&& m.tradingStateBit ts ≠ 0 then
    s.enableVenue mic esi
  else s.disableVenue mic esi

/-- `on_trading_status_update`. -/
def onTradingStatusUpdate (s : NBBOEquitiesStrategy) (mic : MICIndex)
    (esi : EphemeralSymbolIndex) : TradingStatus → NBBOEquitiesStrategy
  | .trading => s.updateVenueFromStatus m mic esi .trading
  | .halt => s.updateVenueFromStatus m mic esi .halted
  | .quoteOnly => s.updateVenueFromStatus m mic esi .quotationOnly
  | _ => s

def enableQuotesInState (s : NBBOEquitiesStrategy) (ts : TradingState) :
    NBBOEquitiesStrategy :=
  { s with
    statusPolicyBitfield := s.statusPolicyBitfield ||| m.tradingStateBit ts }

def disableQuotesInState (s : NBBOEquitiesStrategy) (ts : TradingState) :
    NBBOEquitiesStrategy :=
  { s with
    statusPolicyBitfield :=
      s.statusPolicyBitfield &&& ~~~ m.tradingStateBit ts }

/-- The calls a strategy gets. -/
inductive Event
  | bboUpdate (mic : MICIndex) (esi : EphemeralSymbolIndex) (side : Side)
      (q : L2Quote)
  | fullBboUpdate (mic : MICIndex) (esi : EphemeralSymbolIndex)
      (q : FullL2Quote)
  | enableVenue (mic : MICIndex) (esi : EphemeralSymbolIndex)
  | disableVenue (mic : MICIndex) (esi : EphemeralSymbolIndex)
  | tradingStatusUpdate (mic : MICIndex) (esi : EphemeralSymbolIndex)
      (event : TradingStatus)
  | enableQuotesInState (ts : TradingState)
  | disableQuotesInState (ts : TradingState)
  deriving DecidableEq, Repr

def step (s : NBBOEquitiesStrategy) : Event → NBBOEquitiesStrategy
  | .bboUpdate mic esi side q => s.onBboUpdate m mic esi side q
  | .fullBboUpdate mic esi q => s.onFullBboUpdate m mic esi q
  | .enableVenue mic esi => s.enableVenue mic esi
  | .disableVenue mic esi => s.disableVenue mic esi
  | .tradingStatusUpdate mic esi event =>
      s.onTradingStatusUpdate m mic esi event
  | .enableQuotesInState ts => s.enableQuotesInState m ts
  | .disableQuotesInState ts => s.disableQuotesInState m ts

end Strategy

end NBBOEquitiesStrategy

end TradingEngine.TS
