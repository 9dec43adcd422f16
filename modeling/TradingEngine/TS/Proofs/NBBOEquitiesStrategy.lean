/-
The NBBO is the best over the enabled venues: what the consolidated book
should hold, told from the calls alone, and when it does.

# What the venues said

`Venues` is written from the calls: which venues are enabled, and the last
quote of each on each side. A venue that is enabled starts anew, and what
a disabled one said does not count (`Venues.held`). The book of a stock
is `Consolidated` if it is the map of what is held and of nothing else.

# Two quotes in one call

A call with both sides is `update_book(..) || update_book(..)`. When the
bid changes the best bid, the ask is never looked at. The book is as it
should be exactly as long as no such call brings an ask that is another
than the one already held (`nbbo_iff`).
-/
import TradingEngine.Lib.Run
import TradingEngine.TS.NBBOEquitiesStrategy
import Mathlib.Data.Option.Basic
import Mathlib.Data.UInt

namespace TradingEngine.TS

open MD (BookBase FullL2Quote L2Quote L3OrderData OrderBook RefNum Side)
open NBBOEquitiesStrategy (Event makeNewOrder makeRefnum refnumToSide)

-- =================================================================== venues

/-- What the venues have said. -/
structure Venues where
  enabled : MICIndex → EphemeralSymbolIndex → Bool
  /-- The last quote, unless its price was the sentinel. -/
  last : MICIndex → EphemeralSymbolIndex → Side → Option L2Quote

namespace Venues

/-- All are enabled, and nothing was said. -/
def init : Venues := ⟨fun _ _ => true, fun _ _ _ => none⟩

/-- What a quote leaves to be held. -/
def heard (base : BookBase) (side : Side) (q : L2Quote) : Option L2Quote :=
  if q.price = base.emptyPrice side then none else some q

def record (v : Venues) (mic : MICIndex) (esi : EphemeralSymbolIndex)
    (side : Side) (o : Option L2Quote) : Venues :=
  { v with
    last := fun mic' esi' side' =>
      if mic' = mic ∧ esi' = esi ∧ side' = side then o
      else v.last mic' esi' side' }

/-- From now on the venue counts, with what it says from now on. -/
def enable (v : Venues) (mic : MICIndex) (esi : EphemeralSymbolIndex) :
    Venues :=
  if v.enabled mic esi then v
  else
    { enabled := fun mic' esi' =>
        if mic' = mic ∧ esi' = esi then true else v.enabled mic' esi'
      last := fun mic' esi' side =>
        if mic' = mic ∧ esi' = esi then none else v.last mic' esi' side }

def disable (v : Venues) (mic : MICIndex) (esi : EphemeralSymbolIndex) :
    Venues :=
  { v with
    enabled := fun mic' esi' =>
      if mic' = mic ∧ esi' = esi then false else v.enabled mic' esi' }

/-- The quote of the venue that counts on the side. -/
def held (v : Venues) (mic : MICIndex) (esi : EphemeralSymbolIndex)
    (side : Side) : Option L2Quote :=
  if v.enabled mic esi then v.last mic esi side else none

def step (base : BookBase) (v : Venues) : Event → Venues
  | .bboUpdate mic esi side q => v.record mic esi side (heard base side q)
  | .fullBboUpdate mic esi q =>
      (v.record mic esi .buy (heard base .buy q.bid)).record mic esi .sell
        (heard base .sell q.ask)
  | .enableVenue mic esi => v.enable mic esi
  | .disableVenue mic esi => v.disable mic esi
  | _ => v

variable {v : Venues} {mic mic' : MICIndex}
  {esi esi' : EphemeralSymbolIndex} {side side' : Side}

/-- What an enabled venue says last is held. -/
theorem held_record_self (h : v.enabled mic esi = true)
    (o : Option L2Quote) :
    (v.record mic esi side o).held mic esi side = o := by
  unfold held record
  dsimp only
  rw [if_pos h, if_pos ⟨rfl, rfl, rfl⟩]

/-- What it says of one side is said of no other. -/
theorem held_record_of_ne
    (h : ¬(mic' = mic ∧ esi' = esi ∧ side' = side)) (o : Option L2Quote) :
    (v.record mic esi side o).held mic' esi' side'
      = v.held mic' esi' side' := by
  unfold held record
  dsimp only
  rw [if_neg h]

/-- What a disabled venue says does not count. -/
theorem held_record_disabled (h : v.enabled mic esi = false)
    (o : Option L2Quote) (mic' : MICIndex) (esi' : EphemeralSymbolIndex)
    (side' : Side) :
    (v.record mic esi side o).held mic' esi' side'
      = v.held mic' esi' side' := by
  by_cases hsame : mic' = mic ∧ esi' = esi ∧ side' = side
  · obtain ⟨rfl, rfl, rfl⟩ := hsame
    have hoff : ¬ v.enabled mic' esi' = true := by
      rw [h]
      decide
    unfold held record
    rw [if_neg hoff, if_neg hoff]
  · exact held_record_of_ne hsame o

/-- A venue that is enabled has said nothing that counts. -/
theorem held_enable (mic' : MICIndex) (esi' : EphemeralSymbolIndex)
    (side' : Side) :
    (v.enable mic esi).held mic' esi' side' = v.held mic' esi' side' := by
  unfold enable
  by_cases hon : v.enabled mic esi = true
  · rw [if_pos hon]
  · rw [if_neg hon]
    unfold held
    dsimp only
    by_cases hsame : mic' = mic ∧ esi' = esi
    · obtain ⟨rfl, rfl⟩ := hsame
      simp [hon]
    · simp [hsame]

/-- Disabling a venue is as if it had withdrawn its two quotes. -/
theorem held_disable (mic' : MICIndex) (esi' : EphemeralSymbolIndex)
    (side' : Side) :
    (v.disable mic esi).held mic' esi' side'
      = ((v.record mic esi .buy none).record mic esi .sell none).held
          mic' esi' side' := by
  unfold held disable record
  dsimp only
  by_cases hsame : mic' = mic ∧ esi' = esi
  · obtain ⟨rfl, rfl⟩ := hsame
    cases side' <;> simp
  · have hne : ∀ side, ¬(mic' = mic ∧ esi' = esi ∧ side' = side) :=
      fun side h => hsame ⟨h.1, h.2.1⟩
    simp [hsame, hne]

/-- A disabled venue holds nothing that disabling could take away. -/
theorem held_disable_disabled (h : v.enabled mic esi = false)
    (mic' : MICIndex) (esi' : EphemeralSymbolIndex) (side' : Side) :
    (v.disable mic esi).held mic' esi' side' = v.held mic' esi' side' := by
  have hbid : (v.record mic esi .buy none).enabled mic esi = false := h
  rw [held_disable, held_record_disabled hbid, held_record_disabled h]

/-- Sentinels are never held. -/
def Priced (base : BookBase) (v : Venues) : Prop :=
  ∀ mic esi side q, v.last mic esi side = some q →
    q.price ≠ base.emptyPrice side

variable {base : BookBase}

/-- Recording a quote keeps sentinels out. -/
theorem Priced.record (h : v.Priced base) (mic : MICIndex)
    (esi : EphemeralSymbolIndex) (side : Side) (q : L2Quote) :
    (v.record mic esi side (heard base side q)).Priced base := by
  intro mic' esi' side' q' hlast
  unfold Venues.record at hlast
  dsimp only at hlast
  split at hlast
  case isTrue hsame =>
    obtain ⟨rfl, rfl, rfl⟩ := hsame
    unfold heard at hlast
    split at hlast
    case isTrue => cases hlast
    case isFalse hprice =>
      cases hlast
      exact hprice
  case isFalse => exact h _ _ _ _ hlast

/-- A venue that starts anew has said nothing. -/
theorem Priced.enable (h : v.Priced base) (mic : MICIndex)
    (esi : EphemeralSymbolIndex) : (v.enable mic esi).Priced base := by
  intro mic' esi' side' q' hlast
  unfold Venues.enable at hlast
  split at hlast
  · exact h _ _ _ _ hlast
  · dsimp only at hlast
    split at hlast
    · cases hlast
    · exact h _ _ _ _ hlast

/-- Sentinels are never held, whatever is called. -/
theorem Priced.step (h : v.Priced base) (e : Event) :
    (v.step base e).Priced base := by
  cases e with
  | bboUpdate mic esi side q => exact h.record mic esi side q
  | fullBboUpdate mic esi q =>
      exact (h.record mic esi .buy q.bid).record mic esi .sell q.ask
  | enableVenue mic esi => exact h.enable mic esi
  | disableVenue mic esi => exact h
  | tradingStatusUpdate mic esi event => exact h
  | enableQuotesInState ts => exact h
  | disableQuotesInState ts => exact h

end Venues

namespace NBBOEquitiesStrategy

-- ======================================================== reference numbers

/-- The side is read back from the reference number. -/
@[simp] theorem refnumToSide_makeRefnum (mic : MICIndex) (side : Side) :
    refnumToSide (makeRefnum mic side) = side := by
  revert mic
  cases side <;> decide

/-- Each venue has its own number on each side. -/
theorem makeRefnum_inj {mic mic' : MICIndex} {side side' : Side}
    (h : makeRefnum mic side = makeRefnum mic' side') :
    mic = mic' ∧ side = side' := by
  have hside : side = side' := by
    rw [← refnumToSide_makeRefnum mic side, h, refnumToSide_makeRefnum]
  subst hside
  have hmic : ∀ (mic mic' : MICIndex) (side : Side),
      makeRefnum mic side = makeRefnum mic' side → mic = mic' := by
    intro mic mic' side
    revert mic mic'
    cases side <;> decide
  exact ⟨hmic mic mic' side h, rfl⟩

-- ==================================================================== a book

/-- What a quote comes to in the book. -/
def quoteOrder (base : BookBase) (mic : MICIndex) (side : Side)
    (q : L2Quote) : Option L3OrderData :=
  (Venues.heard base side q).map (makeNewOrder (makeRefnum mic side))

/-- The orders of venues, whose prices are none of the sentinels. -/
def VenueOrders (base : BookBase) (b : OrderBook) : Prop :=
  ∀ (mic : MICIndex) side p, b (makeRefnum mic side) = some p →
    ∃ q : L2Quote, p = makeNewOrder (makeRefnum mic side) q
      ∧ q.price ≠ base.emptyPrice side

section Book

variable {m : Market} {b : OrderBook} (hb : VenueOrders m.base b)
  (mic : MICIndex) (side : Side) (q : L2Quote)

/-- The two tests of `update_book` for a sentinel. -/
theorem sentinel_iff :
    (side = .buy ∧ q.price = m.base.emptyBidPrice)
        ∨ (side = .sell ∧ m.base.emptyAskPrice = q.price)
      ↔ q.price = m.base.emptyPrice side := by
  cases side with
  | buy => simp [BookBase.emptyPrice]
  | sell => simp [BookBase.emptyPrice, eq_comm]

/-- The test of `update_book`, as one comparison. -/
theorem not_sentinel_iff :
    (side = .buy ∧ q.price ≠ m.base.emptyBidPrice)
        ∨ (side = .sell ∧ m.base.emptyAskPrice ≠ q.price)
      ↔ q.price ≠ m.base.emptyPrice side := by
  cases side with
  | buy => simp [BookBase.emptyPrice]
  | sell => simp [BookBase.emptyPrice, eq_comm]

include hb

/-- Whatever was there, the quote is there afterwards, or nothing is. -/
theorem updatedBook_eq :
    updatedBook m mic side q b
      = Function.update b (makeRefnum mic side)
          (quoteOrder m.base mic side q) := by
  unfold updatedBook OrderBook.find quoteOrder Venues.heard
  dsimp only
  cases hfind : b (makeRefnum mic side) with
  | none =>
      dsimp only
      by_cases hprice : q.price = m.base.emptyPrice side
      · have hadd := mt (not_sentinel_iff side q).mp (not_not_intro hprice)
        rw [if_neg hadd, if_pos hprice, Option.map_none, ← hfind,
          Function.update_eq_self]
      · rw [if_pos ((not_sentinel_iff side q).mpr hprice), if_neg hprice]
        rfl
  | some p =>
      obtain ⟨q', rfl, hq'⟩ := hb mic side p hfind
      dsimp only
      by_cases hsame : q.price = q'.price
      · -- a size change
        have hprice : ¬ q.price = m.base.emptyPrice side := by
          rw [hsame]
          exact hq'
        have hmodify : ¬ q.price ≠ (makeNewOrder (makeRefnum mic side)
            q').price := not_not_intro hsame
        rw [if_neg hmodify, if_neg hprice]
        unfold OrderBook.modify makeNewOrder
        rw [Option.map_some, hsame]
      · have hchange : q.price ≠ (makeNewOrder (makeRefnum mic side)
            q').price := hsame
        rw [if_pos hchange]
        by_cases hprice : q.price = m.base.emptyPrice side
        · rw [if_pos ((sentinel_iff side q).mpr hprice), if_pos hprice]
          rfl
        · rw [if_neg (mt (sentinel_iff side q).mp hprice), if_neg hprice]
          exact Function.update_idem _ _ _

/-- A quote leaves the best of the other side as it is. -/
theorem bestOf_update_other (hbest : m.base.SidesApart) {side' : Side}
    (hne : side' ≠ side) :
    m.base.bestOf (Function.update b (makeRefnum mic side)
        (quoteOrder m.base mic side q)) side'
      = m.base.bestOf b side' := by
  apply hbest
  intro r o ho
  by_cases hr : r = makeRefnum mic side
  · have hquote : ∀ q' : L2Quote,
        makeNewOrder (makeRefnum mic side) q' ≠ o := by
      rintro q' rfl
      exact hne (ho ▸ (refnumToSide_makeRefnum mic side))
    subst hr
    rw [Function.update_self]
    constructor
    · intro h
      obtain ⟨q', -, hq'⟩ := Option.map_eq_some_iff.mp h
      exact absurd hq' (hquote q')
    · intro h
      obtain ⟨q', rfl, -⟩ := hb mic side o h
      exact absurd rfl (hquote q')
  · rw [Function.update_of_ne hr]

/-- So the best changes exactly if that of the quote's side does. -/
theorem best_update_iff (hbest : m.base.SidesApart) :
    m.base.best (Function.update b (makeRefnum mic side)
        (quoteOrder m.base mic side q)) = m.base.best b
      ↔ m.base.bestOf (Function.update b (makeRefnum mic side)
          (quoteOrder m.base mic side q)) side = m.base.bestOf b side := by
  unfold BookBase.best
  rw [FullL2Quote.mk.injEq]
  cases side with
  | buy =>
      exact and_iff_left
        (bestOf_update_other hb mic .buy q hbest (by decide : Side.sell ≠ _))
  | sell =>
      exact and_iff_right
        (bestOf_update_other hb mic .sell q hbest (by decide : Side.buy ≠ _))

end Book

-- ================================================================= the books

/-- The book of every stock is the map of what its venues hold. -/
structure Consolidated (books : EphemeralSymbolIndex → OrderBook)
    (v : Venues) : Prop where
  holds : ∀ esi (mic : MICIndex) side,
    books esi (makeRefnum mic side)
      = (v.held mic esi side).map (makeNewOrder (makeRefnum mic side))
  nothingElse : ∀ esi r, (∀ (mic : MICIndex) side, r ≠ makeRefnum mic side) →
    books esi r = none

namespace Consolidated

variable {books : EphemeralSymbolIndex → OrderBook} {v v' : Venues}
  (h : Consolidated books v)

include h

/-- Only what is held counts. -/
theorem congr (hheld : ∀ mic esi side,
    v'.held mic esi side = v.held mic esi side) : Consolidated books v' where
  holds esi mic side := by
    rw [hheld]
    exact h.holds esi mic side
  nothingElse := h.nothingElse

/-- What an enabled venue says goes under its reference number. -/
theorem record {mic : MICIndex} {esi : EphemeralSymbolIndex}
    (hon : v.enabled mic esi = true) (side : Side) (o : Option L2Quote) :
    Consolidated
      (Function.update books esi
        (Function.update (books esi) (makeRefnum mic side)
          (o.map (makeNewOrder (makeRefnum mic side)))))
      (v.record mic esi side o) where
  holds esi' mic' side' := by
    by_cases hsame : mic' = mic ∧ esi' = esi ∧ side' = side
    · obtain ⟨rfl, rfl, rfl⟩ := hsame
      rw [Function.update_self, Function.update_self,
        Venues.held_record_self hon]
    · rw [Venues.held_record_of_ne hsame]
      by_cases hesi : esi' = esi
      · subst hesi
        have hr : makeRefnum mic' side' ≠ makeRefnum mic side := by
          intro hr
          obtain ⟨hmic, hside⟩ := makeRefnum_inj hr
          exact hsame ⟨hmic, rfl, hside⟩
        rw [Function.update_self, Function.update_of_ne hr]
        exact h.holds esi' mic' side'
      · rw [Function.update_of_ne hesi]
        exact h.holds esi' mic' side'
  nothingElse esi' r hr := by
    by_cases hesi : esi' = esi
    · subst hesi
      rw [Function.update_self, Function.update_of_ne (hr mic side)]
      exact h.nothingElse esi' r hr
    · rw [Function.update_of_ne hesi]
      exact h.nothingElse esi' r hr

/-- What a consolidated book has are orders of venues. -/
theorem venueOrders {base : BookBase} (hpriced : v.Priced base)
    (esi : EphemeralSymbolIndex) : VenueOrders base (books esi) := by
  intro mic side p hp
  rw [h.holds] at hp
  obtain ⟨q, hq, rfl⟩ := Option.map_eq_some_iff.mp hp
  unfold Venues.held at hq
  split at hq
  · exact ⟨q, rfl, hpriced mic esi side q hq⟩
  · cases hq

end Consolidated

-- ==================================================================== a call

/-- The call that a trading state comes down to. -/
def statusCall (m : Market) (s : NBBOEquitiesStrategy) (mic : MICIndex)
    (esi : EphemeralSymbolIndex) (ts : TradingState) : Event :=
  if s.statusPolicyBitfield &&& m.tradingStateBit ts ≠ 0 then
    .enableVenue mic esi
  else .disableVenue mic esi

/-- A trading status stands for `enable_venue` or `disable_venue`, if it
is one of those that do. -/
def venueCall (m : Market) (s : NBBOEquitiesStrategy) : Event → Event
  | .tradingStatusUpdate mic esi .trading => s.statusCall m mic esi .trading
  | .tradingStatusUpdate mic esi .halt => s.statusCall m mic esi .halted
  | .tradingStatusUpdate mic esi .quoteOnly =>
      s.statusCall m mic esi .quotationOnly
  | e => e

/-- The strategy, and beside it what the venues have said. -/
def monitor (m : Market) (x : NBBOEquitiesStrategy × Venues) (e : Event) :
    NBBOEquitiesStrategy × Venues :=
  (x.1.step m e, x.2.step m.base (x.1.venueCall m e))

/-- The calls of `on_nbbo_update` when the stock's book `b` becomes `b'`:
one, if the best is another. -/
def nbboChange (m : Market) (mic : MICIndex) (esi : EphemeralSymbolIndex)
    (b b' : OrderBook) : List NBBOUpdate :=
  if m.base.best b' = m.base.best b then []
  else [⟨mic, esi, m.base.best b'⟩]

/-- `on_nbbo_update` is called for an update exactly if the best changed,
and for nothing else. -/
def Reported (m : Market) (s : NBBOEquitiesStrategy) (e : Event) : Prop :=
  (s.step m e).nbboUpdates = s.nbboUpdates ++
    match e with
    | .bboUpdate mic esi _ _ =>
        nbboChange m mic esi (s.books esi) ((s.step m e).books esi)
    | .fullBboUpdate mic esi _ =>
        nbboChange m mic esi (s.books esi) ((s.step m e).books esi)
    | _ => []

/-- After the call the books hold what they should, and what it changed
was reported. -/
def Faithful (m : Market) (x : NBBOEquitiesStrategy × Venues) (e : Event) :
    Prop :=
  Consolidated (monitor m x e).1.books (monitor m x e).2
    ∧ Reported m x.1 e

/-- The ask of a call with both sides gets its turn, or would change
nothing: the bid leaves the best bid as it is, or the ask is the one that
is held already. -/
def AskHeard (m : Market) (s : NBBOEquitiesStrategy) : Event → Prop
  | .fullBboUpdate mic esi q => s.venueEnabled mic esi = true →
      m.base.bestBid (Function.update (s.books esi) (makeRefnum mic .buy)
          (quoteOrder m.base mic .buy q.bid))
        = m.base.bestBid (s.books esi)
      ∨ s.books esi (makeRefnum mic .sell)
        = quoteOrder m.base mic .sell q.ask
  | _ => True

/-- What the calls keep. -/
structure Tracks (m : Market) (x : NBBOEquitiesStrategy × Venues) : Prop where
  enabled : x.1.venueEnabled = x.2.enabled
  priced : x.2.Priced m.base
  consolidated : Consolidated x.1.books x.2

/-- In the beginning all books are empty. -/
theorem tracks_init (m : Market) : Tracks m (init m, Venues.init) where
  enabled := rfl
  priced := by
    intro mic esi side q h
    cases h
  consolidated := ⟨fun _ _ _ => rfl, fun _ _ _ => rfl⟩

section Call

variable {m : Market} {s : NBBOEquitiesStrategy} {v : Venues}
  (h : Tracks m (s, v)) (mic : MICIndex) (esi : EphemeralSymbolIndex)

/-- Nothing changed, and nothing is called. -/
theorem nbboChange_self (b : OrderBook) :
    nbboChange m mic esi b b = [] := if_pos rfl

/-- Only the best before matters to what is reported. -/
theorem nbboChange_congr {b₀ b₁ : OrderBook}
    (hb : m.base.best b₁ = m.base.best b₀) (b : OrderBook) :
    nbboChange m mic esi b₁ b = nbboChange m mic esi b₀ b := by
  unfold nbboChange
  rw [hb]

/-- Telling of a change changes no book. -/
theorem books_onNbboUpdate_ite (r : NBBOEquitiesStrategy × Bool) :
    (if r.2 then r.1.onNbboUpdate m mic esi else r.1).books
      = r.1.books := by
  split
  · rfl
  · rfl

/-- It is told once, with the best as it is then. -/
theorem nbboUpdates_onNbboUpdate_ite (r : NBBOEquitiesStrategy × Bool) :
    (if r.2 then r.1.onNbboUpdate m mic esi else r.1).nbboUpdates
      = r.1.nbboUpdates
        ++ if r.2 then [⟨mic, esi, m.base.best (r.1.books esi)⟩] else [] := by
  split
  · rfl
  · exact (List.append_nil _).symm

/-- A venue that is disabled is not heard. -/
theorem step_bboUpdate_disabled (hoff : s.venueEnabled mic esi = false)
    (side : Side) (q : L2Quote) :
    s.step m (.bboUpdate mic esi side q) = s := by
  show s.onBboUpdate m mic esi side q = s
  unfold onBboUpdate
  exact if_pos (by rw [hoff]; decide)

/-- One quote of an enabled venue. -/
theorem step_bboUpdate_enabled (hon : s.venueEnabled mic esi = true)
    (side : Side) (q : L2Quote) :
    s.step m (.bboUpdate mic esi side q)
      = if (s.updateBook m mic esi side q).2 then
          (s.updateBook m mic esi side q).1.onNbboUpdate m mic esi
        else (s.updateBook m mic esi side q).1 := by
  show s.onBboUpdate m mic esi side q = _
  unfold onBboUpdate
  exact if_neg (by rw [hon]; decide)

/-- Nor is it heard with two quotes. -/
theorem step_fullBboUpdate_disabled (hoff : s.venueEnabled mic esi = false)
    (q : FullL2Quote) : s.step m (.fullBboUpdate mic esi q) = s := by
  show s.onFullBboUpdate m mic esi q = s
  unfold onFullBboUpdate
  exact if_pos (by rw [hoff]; decide)

/-- The ask is taken up as if it came alone, unless the bid said yes. -/
theorem step_fullBboUpdate_enabled (hon : s.venueEnabled mic esi = true)
    (q : FullL2Quote) :
    s.step m (.fullBboUpdate mic esi q)
      = if (s.updateBook m mic esi .buy q.bid).2 then
          (s.updateBook m mic esi .buy q.bid).1.onNbboUpdate m mic esi
        else
          (s.updateBook m mic esi .buy q.bid).1.step m
            (.bboUpdate mic esi .sell q.ask) := by
  have hbid : (s.updateBook m mic esi .buy q.bid).1.venueEnabled mic esi
      = true := hon
  rw [step_bboUpdate_enabled mic esi hbid]
  show s.onFullBboUpdate m mic esi q = _
  unfold onFullBboUpdate
  dsimp only
  rw [if_neg (by rw [hon]; decide)]
  by_cases hchange : (s.updateBook m mic esi .buy q.bid).2 = true
  · rw [if_pos hchange, if_pos hchange, if_pos hchange]
  · rw [if_neg hchange, if_neg hchange]

include h

/-- While the books are tracked they hold orders of venues only. -/
theorem Tracks.venueOrders : VenueOrders m.base (s.books esi) :=
  h.consolidated.venueOrders h.priced esi

/-- `update_book` puts what the quote comes to where the venue's order of that
side stands, and returns whether the best is another. -/
theorem Tracks.updateBook (side : Side) (q : L2Quote) :
    s.updateBook m mic esi side q
      = ({ s with
            books := Function.update s.books esi
              (Function.update (s.books esi) (makeRefnum mic side)
                (quoteOrder m.base mic side q)) },
          m.base.bestOf (Function.update (s.books esi) (makeRefnum mic side)
              (quoteOrder m.base mic side q)) side
            != m.base.bestOf (s.books esi) side) := by
  unfold NBBOEquitiesStrategy.updateBook
  rw [updatedBook_eq (h.venueOrders esi) mic side q]

/-- A quote that is taken up leaves the monitor on the track. -/
theorem Tracks.record (hon : s.venueEnabled mic esi = true) (side : Side)
    (q : L2Quote) :
    Tracks m ((s.updateBook m mic esi side q).1,
      v.record mic esi side (Venues.heard m.base side q)) where
  enabled := h.enabled
  priced := h.priced.record mic esi side q
  consolidated := by
    rw [h.updateBook]
    exact h.consolidated.record (h.enabled ▸ hon) side _

/-- What a disabled venue says leaves the books as they should be. -/
theorem Tracks.consolidated_record_disabled
    (hoff : s.venueEnabled mic esi = false) (side : Side)
    (o : Option L2Quote) : Consolidated s.books (v.record mic esi side o) :=
  h.consolidated.congr
    (Venues.held_record_disabled (h.enabled ▸ hoff) o)

/-- Enabling forgets what the venue said while it was disabled. -/
theorem Tracks.enableVenue :
    Consolidated (s.enableVenue mic esi).books (v.enable mic esi) :=
  h.consolidated.congr Venues.held_enable

/-- Disabling takes both orders of the venue out. -/
theorem Tracks.disableVenue :
    Consolidated (s.disableVenue mic esi).books (v.disable mic esi) := by
  unfold NBBOEquitiesStrategy.disableVenue
  cases hon : s.venueEnabled mic esi with
  | true =>
      -- both quotes are withdrawn, one after the other
      have hv : v.enabled mic esi = true := h.enabled ▸ hon
      have hbid := h.consolidated.record hv .buy none
      have hask := hbid.record (v := v.record mic esi .buy none) hv .sell none
      rw [Function.update_self, Function.update_idem] at hask
      exact hask.congr Venues.held_disable
  | false =>
      exact h.consolidated.congr
        (Venues.held_disable_disabled (h.enabled ▸ hon))

/-- A trading state is one or the other. -/
theorem Tracks.updateVenueFromStatus (ts : TradingState) :
    Consolidated (s.updateVenueFromStatus m mic esi ts).books
      (v.step m.base (s.statusCall m mic esi ts)) := by
  unfold NBBOEquitiesStrategy.updateVenueFromStatus statusCall
  split
  · exact h.enableVenue mic esi
  · exact h.disableVenue mic esi

/-- An ask that is not taken up is missing, unless it was there. -/
theorem Tracks.consolidated_record_iff (hon : s.venueEnabled mic esi = true)
    (side : Side) (q : L2Quote) :
    Consolidated s.books
        (v.record mic esi side (Venues.heard m.base side q))
      ↔ s.books esi (makeRefnum mic side)
        = quoteOrder m.base mic side q := by
  have hv : v.enabled mic esi = true := h.enabled ▸ hon
  constructor
  · intro hbooks
    rw [hbooks.holds, Venues.held_record_self hv]
    rfl
  · intro hsame
    have hrecord := h.consolidated.record hv side
      (Venues.heard m.base side q)
    unfold quoteOrder at hsame
    rw [← hsame, Function.update_eq_self, Function.update_eq_self]
      at hrecord
    exact hrecord

/-- One quote is always held and reported as it should be. -/
theorem Tracks.bboUpdate (hbest : m.base.SidesApart) (side : Side)
    (q : L2Quote) : Faithful m (s, v) (.bboUpdate mic esi side q) := by
  unfold Faithful Reported monitor
  dsimp only
  cases hon : s.venueEnabled mic esi with
  | false =>
      rw [step_bboUpdate_disabled mic esi hon, nbboChange_self,
        List.append_nil]
      exact ⟨h.consolidated_record_disabled mic esi hon side _, rfl⟩
  | true =>
      have hchange := best_update_iff (h.venueOrders esi) mic side q hbest
      rw [step_bboUpdate_enabled mic esi hon, books_onNbboUpdate_ite,
        nbboUpdates_onNbboUpdate_ite]
      refine ⟨(h.record mic esi hon side q).consolidated, ?_⟩
      rw [h.updateBook]
      dsimp only
      rw [Function.update_self]
      unfold nbboChange
      by_cases hsame : m.base.bestOf (Function.update (s.books esi)
          (makeRefnum mic side) (quoteOrder m.base mic side q)) side
            = m.base.bestOf (s.books esi) side
      · rw [if_pos (hchange.mpr hsame), if_neg (by simp [hsame])]
      · rw [if_neg (mt hchange.mp hsame), if_pos (by simp [hsame])]

/-- A call to a disabled venue. -/
theorem Tracks.fullBboUpdate_disabled
    (hoff : s.venueEnabled mic esi = false) (q : FullL2Quote) :
    Faithful m (s, v) (.fullBboUpdate mic esi q) := by
  have hbid := h.consolidated_record_disabled mic esi hoff .buy
    (Venues.heard m.base .buy q.bid)
  have hv : (v.record mic esi .buy (Venues.heard m.base .buy
      q.bid)).enabled mic esi = false := h.enabled ▸ hoff
  unfold Faithful Reported monitor
  dsimp only
  rw [step_fullBboUpdate_disabled mic esi hoff, nbboChange_self,
    List.append_nil]
  exact ⟨hbid.congr (Venues.held_record_disabled hv _), rfl⟩

/-- The bid says no, and the ask gets its turn. -/
theorem Tracks.fullBboUpdate_of_bestBid_eq (hbest : m.base.SidesApart)
    (hon : s.venueEnabled mic esi = true) (q : FullL2Quote)
    (hsame : m.base.bestBid (Function.update (s.books esi)
        (makeRefnum mic .buy) (quoteOrder m.base mic .buy q.bid))
      = m.base.bestBid (s.books esi)) :
    Faithful m (s, v) (.fullBboUpdate mic esi q) := by
  have hbid := best_update_iff (h.venueOrders esi) mic .buy q.bid hbest
  have hupdate := h.updateBook mic esi .buy q.bid
  have hno : ¬ (s.updateBook m mic esi .buy q.bid).2 = true := by
    rw [hupdate]
    simp [BookBase.bestOf, hsame]
  have hstep := step_fullBboUpdate_enabled (m := m) mic esi hon q
  rw [if_neg hno] at hstep
  -- what is left is the ask alone, from the state that the bid left
  obtain ⟨hbooks, hreported⟩ := (h.record mic esi hon .buy q.bid).bboUpdate
    mic esi hbest .sell q.ask
  refine ⟨?_, ?_⟩
  · unfold monitor
    dsimp only
    rw [hstep]
    exact hbooks
  · unfold Reported at hreported ⊢
    dsimp only at hreported ⊢
    rw [hstep, hreported, hupdate]
    dsimp only
    rw [Function.update_self, nbboChange_congr _ _ (hbid.mpr hsame)]

/-- The bid says yes, and the ask is not looked at. -/
theorem Tracks.fullBboUpdate_of_bestBid_ne (hbest : m.base.SidesApart)
    (hon : s.venueEnabled mic esi = true) (q : FullL2Quote)
    (hchange : ¬ m.base.bestBid (Function.update (s.books esi)
        (makeRefnum mic .buy) (quoteOrder m.base mic .buy q.bid))
      = m.base.bestBid (s.books esi)) :
    Faithful m (s, v) (.fullBboUpdate mic esi q)
      ↔ s.books esi (makeRefnum mic .sell)
        = quoteOrder m.base mic .sell q.ask := by
  have hbid := best_update_iff (h.venueOrders esi) mic .buy q.bid hbest
  have hupdate := h.updateBook mic esi .buy q.bid
  have hyes : (s.updateBook m mic esi .buy q.bid).2 = true := by
    rw [hupdate]
    simp [BookBase.bestOf, hchange]
  have hstep := step_fullBboUpdate_enabled (m := m) mic esi hon q
  rw [if_pos hyes] at hstep
  have hreported : Reported m s (.fullBboUpdate mic esi q) := by
    unfold Reported
    dsimp only
    rw [hstep, hupdate]
    unfold onNbboUpdate
    dsimp only
    rw [Function.update_self]
    exact congrArg _ (if_neg (mt hbid.mp hchange)).symm
  have hne : makeRefnum mic .sell ≠ makeRefnum mic .buy := by
    intro hr
    cases (makeRefnum_inj hr).2
  have hheld : (s.updateBook m mic esi .buy q.bid).1.books esi
      (makeRefnum mic .sell) = s.books esi (makeRefnum mic .sell) := by
    rw [hupdate]
    dsimp only
    rw [Function.update_self, Function.update_of_ne hne]
  have hiff := (h.record mic esi hon .buy q.bid).consolidated_record_iff
    mic esi hon .sell q.ask
  rw [hheld] at hiff
  rw [← hiff]
  unfold Faithful monitor
  dsimp only
  rw [hstep]
  exact and_iff_left hreported

/-- With two, exactly if the ask gets its turn. -/
theorem Tracks.fullBboUpdate (hbest : m.base.SidesApart) (q : FullL2Quote) :
    Faithful m (s, v) (.fullBboUpdate mic esi q)
      ↔ AskHeard m s (.fullBboUpdate mic esi q) := by
  cases hon : s.venueEnabled mic esi with
  | false =>
      refine iff_of_true (h.fullBboUpdate_disabled mic esi hon q) ?_
      intro hon'
      rw [hon] at hon'
      cases hon'
  | true =>
      by_cases hsame : m.base.bestBid (Function.update (s.books esi)
          (makeRefnum mic .buy) (quoteOrder m.base mic .buy q.bid))
            = m.base.bestBid (s.books esi)
      · exact iff_of_true
          (h.fullBboUpdate_of_bestBid_eq mic esi hbest hon q hsame)
          fun _ => .inl hsame
      · rw [h.fullBboUpdate_of_bestBid_ne mic esi hbest hon q hsame]
        constructor
        · exact fun hask _ => .inr hask
        · exact fun hheard => (hheard hon).resolve_left hsame

end Call

-- ==================================================================== a run

section Run

variable {m : Market} {x : NBBOEquitiesStrategy × Venues}

/-- Telling of a change enables nobody. -/
theorem venueEnabled_onNbboUpdate_ite (mic : MICIndex)
    (esi : EphemeralSymbolIndex) (r : NBBOEquitiesStrategy × Bool) :
    (if r.2 then r.1.onNbboUpdate m mic esi else r.1).venueEnabled
      = r.1.venueEnabled := by
  split
  · rfl
  · rfl

/-- `m_venue_enabled` after one of its elements is set. -/
theorem setVenueEnabled_venueEnabled (s : NBBOEquitiesStrategy)
    (mic : MICIndex) (esi : EphemeralSymbolIndex) (enabled : Bool) :
    (s.setVenueEnabled mic esi enabled).venueEnabled
      = fun mic' esi' => if mic' = mic ∧ esi' = esi then enabled
          else s.venueEnabled mic' esi' := by
  funext mic' esi'
  exact update_update_apply s.venueEnabled mic mic' esi esi' enabled

/-- The flags are what the calls say, after `enable_venue`. -/
theorem enabled_enableVenue (h : x.1.venueEnabled = x.2.enabled)
    (mic : MICIndex) (esi : EphemeralSymbolIndex) :
    (x.1.enableVenue mic esi).venueEnabled
      = (x.2.enable mic esi).enabled := by
  unfold enableVenue
  rw [setVenueEnabled_venueEnabled, h]
  unfold Venues.enable
  by_cases hon : x.2.enabled mic esi = true
  · rw [if_pos hon]
    funext mic' esi'
    by_cases hsame : mic' = mic ∧ esi' = esi
    · rw [if_pos hsame, hsame.1, hsame.2, hon]
    · rw [if_neg hsame]
  · rw [if_neg hon]

/-- After `disable_venue`. -/
theorem enabled_disableVenue (h : x.1.venueEnabled = x.2.enabled)
    (mic : MICIndex) (esi : EphemeralSymbolIndex) :
    (x.1.disableVenue mic esi).venueEnabled
      = (x.2.disable mic esi).enabled := by
  unfold disableVenue
  dsimp only
  rw [setVenueEnabled_venueEnabled]
  unfold Venues.disable
  rw [← h]
  split
  · rfl
  · rfl

/-- And after a change of the trading state. -/
theorem enabled_updateVenueFromStatus
    (h : x.1.venueEnabled = x.2.enabled) (mic : MICIndex)
    (esi : EphemeralSymbolIndex) (ts : TradingState) :
    (x.1.updateVenueFromStatus m mic esi ts).venueEnabled
      = (x.2.step m.base (x.1.statusCall m mic esi ts)).enabled := by
  unfold updateVenueFromStatus statusCall
  split
  · exact enabled_enableVenue h mic esi
  · exact enabled_disableVenue h mic esi

/-- Which venues are enabled is the same on both sides. -/
theorem enabled_monitor (h : x.1.venueEnabled = x.2.enabled) (e : Event) :
    (monitor m x e).1.venueEnabled = (monitor m x e).2.enabled := by
  cases e with
  | bboUpdate mic esi side q =>
      show (x.1.onBboUpdate m mic esi side q).venueEnabled = x.2.enabled
      unfold onBboUpdate
      split
      · exact h
      · rw [venueEnabled_onNbboUpdate_ite]
        exact h
  | fullBboUpdate mic esi q =>
      show (x.1.onFullBboUpdate m mic esi q).venueEnabled = x.2.enabled
      unfold onFullBboUpdate
      split
      · exact h
      · dsimp only
        rw [venueEnabled_onNbboUpdate_ite]
        split
        · exact h
        · exact h
  | enableVenue mic esi => exact enabled_enableVenue h mic esi
  | disableVenue mic esi => exact enabled_disableVenue h mic esi
  | tradingStatusUpdate mic esi event =>
      cases event with
      | trading => exact enabled_updateVenueFromStatus h mic esi .trading
      | halt => exact enabled_updateVenueFromStatus h mic esi .halted
      | quoteOnly =>
          exact enabled_updateVenueFromStatus h mic esi .quotationOnly
      | _ => exact h
  | enableQuotesInState ts => exact h
  | disableQuotesInState ts => exact h

/-- Removing a venue's orders is told to nobody. -/
theorem nbboUpdates_disableVenue (s : NBBOEquitiesStrategy)
    (mic : MICIndex) (esi : EphemeralSymbolIndex) :
    (s.disableVenue mic esi).nbboUpdates = s.nbboUpdates := by
  unfold disableVenue setVenueEnabled
  dsimp only
  split
  · rfl
  · rfl

/-- Nor is a change of the trading state. -/
theorem nbboUpdates_updateVenueFromStatus (s : NBBOEquitiesStrategy)
    (mic : MICIndex) (esi : EphemeralSymbolIndex) (ts : TradingState) :
    (s.updateVenueFromStatus m mic esi ts).nbboUpdates
      = s.nbboUpdates := by
  unfold updateVenueFromStatus
  split
  · rfl
  · exact nbboUpdates_disableVenue s mic esi

/-- A trading status does as the call it stands for. -/
theorem Tracks.tradingStatusUpdate (h : Tracks m x) (mic : MICIndex)
    (esi : EphemeralSymbolIndex) (event : TradingStatus) :
    Faithful m x (.tradingStatusUpdate mic esi event) := by
  have hstatus : ∀ ts, Consolidated (x.1.updateVenueFromStatus m mic esi
      ts).books (x.2.step m.base (x.1.statusCall m mic esi ts))
      ∧ (x.1.updateVenueFromStatus m mic esi ts).nbboUpdates
        = x.1.nbboUpdates ++ [] := by
    intro ts
    rw [List.append_nil]
    exact ⟨Tracks.updateVenueFromStatus h mic esi ts,
      nbboUpdates_updateVenueFromStatus x.1 mic esi ts⟩
  cases event with
  | trading => exact hstatus .trading
  | halt => exact hstatus .halted
  | quoteOnly => exact hstatus .quotationOnly
  | _ => exact ⟨h.consolidated, (List.append_nil _).symm⟩

/-- After a call all is as it should be exactly if no ask was passed
over. -/
theorem Tracks.faithful_iff (hbest : m.base.SidesApart) (h : Tracks m x)
    (e : Event) : Faithful m x e ↔ AskHeard m x.1 e := by
  have hquiet := (List.append_nil x.1.nbboUpdates).symm
  cases e with
  | bboUpdate mic esi side q =>
      exact iff_of_true (h.bboUpdate mic esi hbest side q) trivial
  | fullBboUpdate mic esi q => exact h.fullBboUpdate mic esi hbest q
  | enableVenue mic esi =>
      exact iff_of_true ⟨Tracks.enableVenue h mic esi, hquiet⟩ trivial
  | disableVenue mic esi =>
      have hreported := nbboUpdates_disableVenue x.1 mic esi
      exact iff_of_true
        ⟨Tracks.disableVenue h mic esi, hreported.trans hquiet⟩ trivial
  | tradingStatusUpdate mic esi event =>
      exact iff_of_true (h.tradingStatusUpdate mic esi event) trivial
  | enableQuotesInState ts =>
      exact iff_of_true ⟨h.consolidated, hquiet⟩ trivial
  | disableQuotesInState ts =>
      exact iff_of_true ⟨h.consolidated, hquiet⟩ trivial

/-- The step lemma: the books are tracked as long as asks are heard. -/
theorem Tracks.monitor (hbest : m.base.SidesApart) (h : Tracks m x)
    {e : Event} (he : AskHeard m x.1 e) : Tracks m (monitor m x e) where
  enabled := enabled_monitor h.enabled e
  priced := h.priced.step _
  consolidated := ((h.faithful_iff hbest e).mpr he).1

end Run

/-- After every call the books hold what the enabled venues last said, and
every change was reported, exactly if no call passed over an ask. -/
theorem nbbo_iff (m : Market) (hbest : m.base.SidesApart)
    (es : List Event) :
    Lib.Admits (monitor m) (Faithful m) (init m, Venues.init) es
      ↔ Lib.Admits (monitor m) (fun x e => AskHeard m x.1 e)
          (init m, Venues.init) es :=
  Lib.admits_iff_of_step (I := Tracks m) (p := fun _ _ => True)
    (fun _ e h _ => h.faithful_iff hbest e)
    (fun _ _ h _ he => h.monitor hbest he) (tracks_init m)
    (Lib.Admits.trivial _ _)

-- ============================================================ a market

/-- The orders of the venues on a side. -/
def sideOrders (b : OrderBook) (side : Side) : List L3OrderData :=
  (List.finRange 11).filterMap fun mic =>
    (b (makeRefnum mic side)).filter fun o => o.side = side

/-- The best price of the orders, `empty` if there are none, and what there
is at that price. -/
def bestQuote (empty : MD.Price) (better : MD.Price → MD.Price → Bool)
    (orders : List L3OrderData) : L2Quote :=
  let price := orders.foldl
    (fun best o => if better o.price best then o.price else best) empty
  let level := orders.filter fun o => o.price = price
  ⟨price, (level.map fun o => o.size).sum, level.length.toUInt64⟩

/-- Highest bid and lowest ask. -/
def venueBase : BookBase where
  emptyBidPrice := 0
  emptyAskPrice := 18446744073709551615
  bestBid := fun b => bestQuote 0 (fun p p' => p' < p) (sideOrders b .buy)
  bestAsk := fun b => bestQuote 18446744073709551615 (fun p p' => p < p')
    (sideOrders b .sell)

/-- In a book of highest bid and lowest ask, an order of one side does not
change the best of the other. -/
theorem sidesApart_venueBase : venueBase.SidesApart := by
  intro side b b' h
  have horders : sideOrders b side = sideOrders b' side := by
    unfold sideOrders
    congr 1
    funext mic
    ext o
    simp only [Option.filter_eq_some_iff, decide_eq_true_eq]
    exact and_congr_left fun ho => h _ o ho
  unfold BookBase.bestOf venueBase
  cases side with
  | buy =>
      dsimp only
      rw [horders]
  | sell =>
      dsimp only
      rw [horders]

/-- A market whose states are bits. -/
def venueMarket : Market where
  base := venueBase
  tradingStateBit
    | .trading => 1
    | .halted => 2
    | .quotationOnly => 4

/-- Two venues, a halt, and a call in which only the ask is news. -/
theorem nbbo_iff_demo :
    let es : List Event :=
      [.bboUpdate 1 7 .buy ⟨1000000, 300, 1⟩,
        .fullBboUpdate 2 7 ⟨⟨999900, 200, 1⟩, ⟨1000200, 500, 2⟩⟩,
        .tradingStatusUpdate 1 7 .halt, .enableVenue 1 7,
        .fullBboUpdate 1 7 ⟨⟨1000100, 100, 1⟩, ⟨1000300, 100, 1⟩⟩]
    Lib.Admits (monitor venueMarket) (Faithful venueMarket)
        (init venueMarket, Venues.init) es
      ↔ Lib.Admits (monitor venueMarket)
          (fun x e => AskHeard venueMarket x.1 e)
          (init venueMarket, Venues.init) es :=
  nbbo_iff venueMarket sidesApart_venueBase _

/-- A quote that is none of the sentinels has a size. -/
def SizedQuote (base : BookBase) (side : Side) (q : L2Quote) : Prop :=
  q.price ≠ base.emptyPrice side → 0 < q.size

/-- The first quote of a venue, both sides of it: the ask is not in the
book. -/
theorem first_ask_missing :
    ¬ ∀ (m : Market) (es : List Event), m.base.SidesApart →
      (∀ mic esi side q, .bboUpdate mic esi side q ∈ es →
        SizedQuote m.base side q) →
      (∀ mic esi q, .fullBboUpdate mic esi q ∈ es →
        SizedQuote m.base .buy q.bid ∧ SizedQuote m.base .sell q.ask) →
      Lib.Admits (monitor m) (Faithful m) (init m, Venues.init) es := by
  intro h
  have hrun := h venueMarket
    [.fullBboUpdate 1 7 ⟨⟨1000000, 300, 1⟩, ⟨1000200, 500, 1⟩⟩]
    sidesApart_venueBase
    (by
      intro mic esi side q hmem
      cases List.mem_singleton.mp hmem)
    (by
      intro mic esi q hmem
      cases List.mem_singleton.mp hmem
      exact ⟨fun _ => by decide, fun _ => by decide⟩)
  have hask := hrun.1.1.holds 7 1 .sell
  revert hask
  decide

end NBBOEquitiesStrategy

end TradingEngine.TS
