/-
`ts/L1EquitiesStrategy.cpp`: which stocks a packet touched, and what of
their best quotes is told at its end.

# Books

The books belong to the book muxes, whose headers are not in the repository.
An event of a book comes here with the best quote that the book has from then
on; `best_bid_quote` and `best_ask_quote` are the sides of `best_quote`.

# Sides

`MD::L3OrderData::Side` is declared in such a header too. The strategy takes
its values for bits, so that is what is asked of them (`SideBits`).

A book event and the end of a packet each hold the mutex of their market, and
are one step here. Of `on_bbo_update`, which is the subclass's, there are the
calls.
-/
import TradingEngine.OE.Types
import TradingEngine.TS.NBBOEquitiesStrategy

namespace TradingEngine.TS

open MD (FullL2Quote L2Quote L3OrderData Side)
open OE (Timestamp)

-- ==================================================================== sides

/-- The values of `L3OrderData::Side`: a bit or more of its own for each. -/
structure SideBits where
  bit : Side → UInt8
  ne_zero : ∀ side, bit side ≠ 0
  apart : bit .buy &&& bit .sell = 0

/-- `both`. -/
def SideBits.both (bits : SideBits) : UInt8 := bits.bit .buy ||| bits.bit .sell

/-- One side of a quote. -/
def quoteOf (q : FullL2Quote) : Side → L2Quote
  | .buy => q.bid
  | .sell => q.ask

/-- `FullL2Quote()`. -/
def emptyQuote : FullL2Quote := ⟨⟨0, 0, 0⟩, ⟨18446744073709551615, 0, 0⟩⟩

-- ================================================================= strategy

structure StockSide where
  esi : EphemeralSymbolIndex
  sideFlags : UInt8
  deriving DecidableEq, Repr

/-- `UpdateStocksSet::insert`. -/
def UpdateStocksSet.insert (ss : StockSide) : List StockSide → List StockSide
  | [] => [ss]
  | e :: es =>
      if e.esi = ss.esi then
        { e with sideFlags := e.sideFlags ||| ss.sideFlags } :: es
      else e :: UpdateStocksSet.insert ss es

structure QuoteEntry where
  quote : FullL2Quote
  bidTs : Timestamp
  askTs : Timestamp
  deriving DecidableEq, Repr

/-- The two calls of `on_bbo_update`. -/
inductive BboUpdate
  | side (ts : Timestamp) (mic : MICIndex) (esi : EphemeralSymbolIndex)
      (side : Side) (q : L2Quote)
  | full (ts : Timestamp) (mic : MICIndex) (esi : EphemeralSymbolIndex)
      (q : FullL2Quote)
  deriving DecidableEq, Repr

structure L1EquitiesStrategy where
  /-- `m_updated_stocks`. -/
  updatedStocks : MICIndex → List StockSide
  /-- `m_quotes`. -/
  quotes : MICIndex → EphemeralSymbolIndex → QuoteEntry
  /-- The calls of `on_bbo_update`. -/
  bboUpdates : List BboUpdate

namespace L1EquitiesStrategy

/-- The constructor. -/
def init : L1EquitiesStrategy where
  updatedStocks := fun _ => []
  quotes := fun _ _ => ⟨emptyQuote, ⟨0, 0⟩, ⟨0, 0⟩⟩
  bboUpdates := []

section Strategy

variable (bits : SideBits) (s : L1EquitiesStrategy) (mic : MICIndex)
  (esi : EphemeralSymbolIndex)

/-- `m_updated_stocks[mic].insert({esi, side})`. -/
def stockUpdated (side : Side) : L1EquitiesStrategy :=
  { s with
    updatedStocks := Function.update s.updatedStocks mic
      (UpdateStocksSet.insert ⟨esi, bits.bit side⟩ (s.updatedStocks mic)) }

def onBookAdded (order : L3OrderData) : L1EquitiesStrategy :=
  s.stockUpdated bits mic esi order.side

def onBookCanceled (order : L3OrderData) : L1EquitiesStrategy :=
  s.stockUpdated bits mic esi order.side

def onBookModified (newOrder : L3OrderData) : L1EquitiesStrategy :=
  s.stockUpdated bits mic esi newOrder.side

def onBookExecuted (order : L3OrderData) : L1EquitiesStrategy :=
  s.stockUpdated bits mic esi order.side

def onL2Update (isBuy isBbo : Bool) : L1EquitiesStrategy :=
  if isBbo then s.stockUpdated bits mic esi (if isBuy then .buy else .sell)
  else s

/-- `m_quotes[mic][esi] = entry`. -/
def setEntry (entry : QuoteEntry) : L1EquitiesStrategy :=
  { s with
    quotes := Function.update s.quotes mic
      (Function.update (s.quotes mic) esi entry) }

/-- A call of `on_bbo_update`. -/
def onBboUpdate (u : BboUpdate) : L1EquitiesStrategy :=
  { s with bboUpdates := s.bboUpdates ++ [u] }

/-- The entry with another quote on one side. -/
def sideEntry (e : QuoteEntry) (ts : Timestamp) (q : L2Quote) :
    Side → QuoteEntry
  | .buy => { e with quote := { e.quote with bid := q }, bidTs := ts }
  | .sell => { e with quote := { e.quote with ask := q }, askTs := ts }

/-- The best of one side, if the entry has another. -/
def updateSide (ts : Timestamp) (side : Side) (q : L2Quote) :
    L1EquitiesStrategy :=
  let entry := s.quotes mic esi
  if q ≠ quoteOf entry.quote side then
    (s.onBboUpdate (.side ts mic esi side q)).setEntry mic esi
      (sideEntry entry ts q side)
  else s

/-- The best of both sides, if the entry has another. -/
def updateBoth (ts : Timestamp) (q : FullL2Quote) : L1EquitiesStrategy :=
  let entry := s.quotes mic esi
  if q ≠ entry.quote then
    (s.onBboUpdate (.full ts mic esi q)).setEntry mic esi ⟨q, ts, ts⟩
  else s

/-- What the end of a packet does for one stock. -/
def updateStock (books : EphemeralSymbolIndex → Option FullL2Quote)
    (ts : Timestamp) (ss : StockSide) : L1EquitiesStrategy :=
  match books ss.esi with
  | none => s
  | some best =>
      if ss.sideFlags &&& bits.both = bits.both then
        s.updateBoth mic ss.esi ts best
      else
        let s :=
          if ss.sideFlags &&& bits.bit .buy ≠ 0 then
            s.updateSide mic ss.esi ts .buy best.bid
          else s
        if ss.sideFlags &&& bits.bit .sell ≠ 0 then
          s.updateSide mic ss.esi ts .sell best.ask
        else s

/-- `on_end_of_data`, with the books of the market. -/
def onEndOfData (books : EphemeralSymbolIndex → Option FullL2Quote)
    (ts : Timestamp) : L1EquitiesStrategy :=
  let s' := (s.updatedStocks mic).foldl
    (fun s ss => s.updateStock bits mic books ts ss) s
  { s' with updatedStocks := Function.update s'.updatedStocks mic [] }

def unsafeBestQuote : FullL2Quote := (s.quotes mic esi).quote

end Strategy

end L1EquitiesStrategy

-- =================================================================== events

/-- The strategy, and the best of the books it listens to, `none` where there
is no book. -/
structure L1World where
  books : MICIndex → EphemeralSymbolIndex → Option FullL2Quote
  l1 : L1EquitiesStrategy

/-- What a strategy is called with; `best` is what the book has from then
on. -/
inductive L1Event
  | bookAdded (mic : MICIndex) (esi : EphemeralSymbolIndex)
      (order : L3OrderData) (best : FullL2Quote)
  | bookCanceled (mic : MICIndex) (esi : EphemeralSymbolIndex)
      (order : L3OrderData) (best : FullL2Quote)
  | bookModified (mic : MICIndex) (esi : EphemeralSymbolIndex)
      (newOrder : L3OrderData) (best : FullL2Quote)
  | bookExecuted (mic : MICIndex) (esi : EphemeralSymbolIndex)
      (order : L3OrderData) (best : FullL2Quote)
  | l2Update (mic : MICIndex) (esi : EphemeralSymbolIndex)
      (isBuy isBbo : Bool) (best : FullL2Quote)
  | endOfData (mic : MICIndex) (ts : Timestamp)
  deriving DecidableEq, Repr

namespace L1World

def init : L1World := ⟨fun _ _ => none, .init⟩

/-- The book of a stock now has this best quote. -/
def setBook (w : L1World) (mic : MICIndex) (esi : EphemeralSymbolIndex)
    (best : FullL2Quote) : L1World :=
  { w with
    books := Function.update w.books mic
      (Function.update (w.books mic) esi (some best)) }

def step (bits : SideBits) (w : L1World) : L1Event → L1World
  | .bookAdded mic esi order best =>
      { w.setBook mic esi best with l1 := w.l1.onBookAdded bits mic esi order }
  | .bookCanceled mic esi order best =>
      { w.setBook mic esi best with
        l1 := w.l1.onBookCanceled bits mic esi order }
  | .bookModified mic esi newOrder best =>
      { w.setBook mic esi best with
        l1 := w.l1.onBookModified bits mic esi newOrder }
  | .bookExecuted mic esi order best =>
      { w.setBook mic esi best with
        l1 := w.l1.onBookExecuted bits mic esi order }
  | .l2Update mic esi isBuy isBbo best =>
      { w.setBook mic esi best with
        l1 := w.l1.onL2Update bits mic esi isBuy isBbo }
  | .endOfData mic ts =>
      { w with l1 := w.l1.onEndOfData bits mic (w.books mic) ts }

end L1World

end TradingEngine.TS
