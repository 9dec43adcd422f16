/-
`ts/PricerStrategy.cpp`, the interval spread of `StockStats`: the mean of
the spread over the seconds since a reset, kept in a numerator and a count
that are brought forward when a quote arrives.

Spreads are exact integers and the results exact rationals. A division by
zero is `none`; in the source it is one of doubles.
-/
import TradingEngine.MD.OrderBook
import TradingEngine.OE.Types

namespace TradingEngine.TS

open MD (FullL2Quote)
open OE (Timestamp)

namespace PricerStrategy

/-- `StockStats::Event`. -/
structure StockEvent where
  timestamp : Timestamp
  quote : FullL2Quote
  deriving DecidableEq

/-- The members of `StockStats` that the interval spread works on. -/
structure StockStats where
  spreadIntervalNumerator : Int
  numIntervalSamples : Int
  lastIntervalEvent : StockEvent
  haveAnyIntervalEvent : Bool
  haveIntervalEvent : Bool
  deriving DecidableEq

namespace StockStats

/-- `spreadFixed`, in ten-thousandths. -/
def spreadFixed (me : FullL2Quote) : Int :=
  (me.ask.price.toNat : Int) - me.bid.price.toNat

/-- `spread`. -/
def spread (me : FullL2Quote) : Rat :=
  (me.ask.price.toNat : Rat) / 10000 - (me.bid.price.toNat : Rat) / 10000

/-- `StockStats::StockStats`; the last event is there by default, of a
quote with no bid and the highest ask. -/
def create : StockStats where
  spreadIntervalNumerator := 0
  numIntervalSamples := -1
  lastIntervalEvent :=
    ⟨⟨0, 0⟩, ⟨⟨0, 0, 0⟩, ⟨18446744073709551615, 0, 0⟩⟩⟩
  haveAnyIntervalEvent := false
  haveIntervalEvent := false

/-- `getIntervalSpread`. -/
def getIntervalSpread (s : StockStats) (t : Timestamp) : Option Rat :=
  if s.numIntervalSamples < 0 then
    some (if s.haveIntervalEvent || s.haveAnyIntervalEvent then
      spread s.lastIntervalEvent.quote
    else 0)
  else
    let n := t.sec - s.lastIntervalEvent.timestamp.sec
    let evtSpread := spreadFixed s.lastIntervalEvent.quote
    let num := s.spreadIntervalNumerator + evtSpread * n
    if s.numIntervalSamples + n = 0 then none
    else some ((num : Rat) / (s.numIntervalSamples + n : Int) / 10000)

/-- `resetIntervalSpread`. -/
def resetIntervalSpread (s : StockStats) (t : Timestamp) : StockStats :=
  if !s.haveAnyIntervalEvent then s
  else
    let s :=
      { s with
        haveIntervalEvent := false
        spreadIntervalNumerator := 0
        numIntervalSamples := 0 }
    if s.lastIntervalEvent.timestamp ≠ t then
      { s with
        lastIntervalEvent := { s.lastIntervalEvent with timestamp := t } }
    else s

/-- `updateIntervalSpread`. -/
def updateIntervalSpread (s : StockStats) (t : Timestamp)
    (evt : FullL2Quote) : StockStats :=
  if !s.haveAnyIntervalEvent then
    { s with
      haveAnyIntervalEvent := true
      lastIntervalEvent := ⟨t, evt⟩
      spreadIntervalNumerator := 0
      numIntervalSamples := 0 }
  else
    let evtSpread := spreadFixed s.lastIntervalEvent.quote
    let n := t.sec - s.lastIntervalEvent.timestamp.sec
    let s :=
      { s with
        spreadIntervalNumerator := s.spreadIntervalNumerator + evtSpread * n
        numIntervalSamples := s.numIntervalSamples + n }
    let s :=
      if !s.haveIntervalEvent then
        let s := { s with haveIntervalEvent := true }
        if 0 = n then
          { s with spreadIntervalNumerator := 0, numIntervalSamples := 0 }
        else s
      else s
    { s with lastIntervalEvent := ⟨t, evt⟩ }

/-- The calls that change an interval. -/
inductive Call
  | update (t : Timestamp) (evt : FullL2Quote)
  | reset (t : Timestamp)
  deriving DecidableEq

def step (s : StockStats) : Call → StockStats
  | .update t evt => s.updateIntervalSpread t evt
  | .reset t => s.resetIntervalSpread t

end StockStats

end PricerStrategy

end TradingEngine.TS
