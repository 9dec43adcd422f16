/-
What a strategy is told of the best quotes of the books.

# The stocks of a packet

A side of a stock is `Flagged` between an event of its book and the end of
the packet. If a book changes only where its events say so (`Announced`),
then what the strategy keeps of every side that is not flagged is what the
book has (`Cached`), and at the end of a packet nothing is flagged.

# The calls

The calls of `on_bbo_update` are a copy of what the strategy keeps, put
together by whoever hears them (`hear`), and every one of them is news
(`Told`).
-/
import TradingEngine.Lib.Run
import TradingEngine.TS.L1EquitiesStrategy
import Mathlib.Data.UInt

namespace TradingEngine.TS

open MD (FullL2Quote L2Quote L3OrderData Side)
open OE (Timestamp)

-- ===================================================================== sides

section Sides

variable (bits : SideBits)

/-- The side of the stock is in the set. -/
def Flagged (es : List StockSide) (esi : EphemeralSymbolIndex)
    (side : Side) : Prop :=
  ∃ ss ∈ es, ss.esi = esi ∧ ss.sideFlags &&& bits.bit side ≠ 0

/-- A flag is tested side by side. -/
theorem or_and_bits (x y z : UInt8) :
    (x ||| y) &&& z = (x &&& z) ||| (y &&& z) := by
  apply UInt8.toBitVec_inj.1
  ext i
  simp
  grind

/-- A bit is set in a union if it is set in a part. -/
theorem or_ne_zero {x y : UInt8} : x ||| y ≠ 0 ↔ x ≠ 0 ∨ y ≠ 0 := by
  constructor
  · intro h
    by_contra hnone
    obtain ⟨hx, hy⟩ := not_or.mp hnone
    rw [not_ne_iff.mp hx, not_ne_iff.mp hy] at h
    exact h rfl
  · rintro (hx | hy) hor
    · apply hx
      calc x = (x ||| y) &&& x := by
              apply UInt8.toBitVec_inj.1
              ext i
              simp
              grind
        _ = 0 := by rw [hor, UInt8.zero_and]
    · apply hy
      calc y = (x ||| y) &&& y := by
              apply UInt8.toBitVec_inj.1
              ext i
              simp
              grind
        _ = 0 := by rw [hor, UInt8.zero_and]

/-- The bits of the two sides do not meet. -/
theorem bit_and_bit (side side' : Side) :
    bits.bit side &&& bits.bit side' ≠ 0 ↔ side' = side := by
  have happart : bits.bit .sell &&& bits.bit .buy = 0 := by
    rw [UInt8.and_comm, bits.apart]
  cases side <;> cases side' <;>
    simp [UInt8.and_self, bits.ne_zero, bits.apart, happart]

/-- With both sides' bits there is the bit of either. -/
theorem flag_of_both {flags : UInt8}
    (h : flags &&& bits.both = bits.both) (side : Side) :
    flags &&& bits.bit side ≠ 0 := by
  have hboth : bits.both &&& bits.bit side = bits.bit side := by
    unfold SideBits.both
    rw [or_and_bits]
    cases side with
    | buy =>
        rw [UInt8.and_self, UInt8.and_comm (bits.bit .sell), bits.apart,
          UInt8.or_zero]
    | sell => rw [UInt8.and_self, bits.apart, UInt8.zero_or]
  rw [← hboth, ← UInt8.and_assoc, h, hboth]
  exact bits.ne_zero side

/-- An insertion flags the side that is inserted, and no other. -/
theorem flagged_insert (es : List StockSide)
    (esi esi' : EphemeralSymbolIndex) (side side' : Side) :
    Flagged bits (UpdateStocksSet.insert ⟨esi, bits.bit side⟩ es) esi' side'
      ↔ Flagged bits es esi' side' ∨ esi' = esi ∧ side' = side := by
  induction es with
  | nil =>
      unfold Flagged UpdateStocksSet.insert
      rw [List.exists_mem_cons_iff, bit_and_bit, eq_comm (a := esi), or_comm]
  | cons e es ih =>
      unfold Flagged at ih ⊢
      unfold UpdateStocksSet.insert
      by_cases he : e.esi = esi
      · rw [if_pos he, List.exists_mem_cons_iff, List.exists_mem_cons_iff]
        dsimp only
        rw [or_and_bits, or_ne_zero, bit_and_bit, he, eq_comm (a := esi),
          and_or_left, or_right_comm]
      · rw [if_neg he, List.exists_mem_cons_iff, ih,
          List.exists_mem_cons_iff, or_assoc]

/-- Only the stock that is inserted can be new to the set. -/
theorem mem_insert_esi {es : List StockSide} {ss ss' : StockSide}
    (h : ss' ∈ UpdateStocksSet.insert ss es) :
    ss'.esi = ss.esi ∨ ∃ e ∈ es, e.esi = ss'.esi := by
  induction es with
  | nil => exact .inl (congrArg _ (List.mem_singleton.mp h))
  | cons e es ih =>
      unfold UpdateStocksSet.insert at h
      by_cases he : e.esi = ss.esi
      · rw [if_pos he] at h
        rcases List.mem_cons.mp h with rfl | h
        · exact .inl he
        · exact .inr ⟨ss', List.mem_cons_of_mem e h, rfl⟩
      · rw [if_neg he] at h
        rcases List.mem_cons.mp h with rfl | h
        · exact .inr ⟨ss', List.mem_cons_self, rfl⟩
        · rcases ih h with hsame | ⟨e', he', hsame⟩
          · exact .inl hsame
          · exact .inr ⟨e', List.mem_cons_of_mem e he', hsame⟩

end Sides

-- ===================================================================== calls

/-- The quotes as one has them who hears the calls. -/
abbrev Heard := MICIndex → EphemeralSymbolIndex → FullL2Quote

/-- The quote with another side. -/
def withSide (q : FullL2Quote) (q' : L2Quote) : Side → FullL2Quote
  | .buy => { q with bid := q' }
  | .sell => { q with ask := q' }

def hear (r : Heard) : BboUpdate → Heard
  | .side _ mic esi side q =>
      Function.update r mic
        (Function.update (r mic) esi (withSide (r mic esi) q side))
  | .full _ mic esi q =>
      Function.update r mic (Function.update (r mic) esi q)

/-- A call that is news. -/
def News (r : Heard) (u : BboUpdate) : Prop := hear r u ≠ r

/-- From one state to another by calls that each are news, and that bring
one who hears them from the quotes of the one to those of the other. -/
def Told (s s' : L1EquitiesStrategy) : Prop :=
  ∃ us, s'.bboUpdates = s.bboUpdates ++ us ∧
    Lib.run hear s.unsafeBestQuote us = s'.unsafeBestQuote ∧
    Lib.Admits hear News s.unsafeBestQuote us

section Calls

variable {s s' s'' : L1EquitiesStrategy}

/-- Without a call nothing is told. -/
theorem Told.refl (s : L1EquitiesStrategy) : Told s s :=
  ⟨[], (List.append_nil _).symm, rfl, trivial⟩

/-- What is told in two pieces is told in one. -/
theorem Told.trans (h : Told s s') (h' : Told s' s'') : Told s s'' := by
  obtain ⟨us, hus, hrun, hnews⟩ := h
  obtain ⟨us', hus', hrun', hnews'⟩ := h'
  refine ⟨us ++ us', ?_, ?_, ?_⟩
  · rw [hus', hus, List.append_assoc]
  · rw [Lib.run_append, hrun, hrun']
  · rw [Lib.admits_append, hrun]
    exact ⟨hnews, hnews'⟩

/-- One call that is news. -/
theorem Told.one {u : BboUpdate} (hu : s'.bboUpdates = s.bboUpdates ++ [u])
    (hview : hear s.unsafeBestQuote u = s'.unsafeBestQuote)
    (hnews : s'.unsafeBestQuote ≠ s.unsafeBestQuote) : Told s s' :=
  ⟨[u], hu, hview, by rwa [News, hview], trivial⟩

end Calls

-- ================================================================= one stock

/-- What the strategy keeps of a side. -/
def L1EquitiesStrategy.cell (s : L1EquitiesStrategy) (mic : MICIndex)
    (esi : EphemeralSymbolIndex) (side : Side) : L2Quote :=
  quoteOf (s.unsafeBestQuote mic esi) side

namespace L1EquitiesStrategy

section Stock

variable (bits : SideBits) (s : L1EquitiesStrategy) (mic : MICIndex)
  (esi : EphemeralSymbolIndex) (ts : Timestamp)

/-- An entry is one stock of one market. -/
theorem unsafeBestQuote_setEntry (e : QuoteEntry) :
    (s.setEntry mic esi e).unsafeBestQuote
      = Function.update s.unsafeBestQuote mic
          (Function.update (s.unsafeBestQuote mic) esi e.quote) := by
  funext mic' esi'
  unfold unsafeBestQuote setEntry
  dsimp only
  rw [update_update_apply, update_update_apply]
  split <;> rfl

/-- A side that is replaced leaves the other. -/
theorem quoteOf_withSide (q : FullL2Quote) (q' : L2Quote)
    (side side' : Side) :
    quoteOf (withSide q q' side) side'
      = if side' = side then q' else quoteOf q side' := by
  cases side <;> cases side' <;> rfl

/-- One side of one stock of one market is another quote. -/
theorem quoteOf_hear_side (r : Heard) (ts : Timestamp) (mic mic' : MICIndex)
    (esi esi' : EphemeralSymbolIndex) (side side' : Side) (q : L2Quote) :
    quoteOf (hear r (.side ts mic esi side q) mic' esi') side'
      = if mic' = mic ∧ esi' = esi ∧ side' = side then q
        else quoteOf (r mic' esi') side' := by
  unfold hear
  dsimp only
  rw [update_update_apply]
  by_cases hbook : mic' = mic ∧ esi' = esi
  · obtain ⟨rfl, rfl⟩ := hbook
    rw [if_pos ⟨rfl, rfl⟩, quoteOf_withSide]
    simp only [true_and]
  · rw [if_neg hbook, if_neg fun h => hbook ⟨h.1, h.2.1⟩]

/-- What `on_end_of_data` writes into the entry of one side. -/
theorem sideEntry_quote (e : QuoteEntry) (q : L2Quote) (side : Side) :
    (sideEntry e ts q side).quote = withSide e.quote q side := by
  cases side <;> rfl

/-- The quote is kept, and told if it is another. -/
theorem updateSide_spec (side : Side) (q : L2Quote) :
    Told s (s.updateSide mic esi ts side q) ∧
    (∀ mic' esi' side', (s.updateSide mic esi ts side q).cell mic' esi' side'
      = if mic' = mic ∧ esi' = esi ∧ side' = side then q
        else s.cell mic' esi' side') ∧
    (s.updateSide mic esi ts side q).updatedStocks = s.updatedStocks := by
  unfold updateSide
  by_cases hsame : q = quoteOf (s.quotes mic esi).quote side
  · rw [if_neg (not_not_intro hsame)]
    refine ⟨.refl s, fun mic' esi' side' => ?_, rfl⟩
    by_cases hat : mic' = mic ∧ esi' = esi ∧ side' = side
    · rw [if_pos hat]
      obtain ⟨rfl, rfl, rfl⟩ := hat
      exact hsame.symm
    · rw [if_neg hat]
  · rw [if_pos hsame]
    have hview := unsafeBestQuote_setEntry
      (s.onBboUpdate (.side ts mic esi side q)) mic esi
      (sideEntry (s.quotes mic esi) ts q side)
    rw [sideEntry_quote] at hview
    have hcell := fun mic' esi' side' =>
      quoteOf_hear_side s.unsafeBestQuote ts mic mic' esi esi' side side' q
    refine ⟨Told.one (u := .side ts mic esi side q) rfl hview.symm ?_, ?_,
      rfl⟩
    · rw [hview]
      intro hsame'
      have hq := hcell mic esi side
      rw [if_pos ⟨rfl, rfl, rfl⟩] at hq
      exact hsame (hq.symm.trans
        (congrArg (fun r : Heard => quoteOf (r mic esi) side) hsame'))
    · intro mic' esi' side'
      unfold cell
      rw [hview]
      exact hcell mic' esi' side'

/-- A stock with both sides flagged: a call if either quote is another, and
both are kept. -/
theorem updateBoth_spec (q : FullL2Quote) :
    Told s (s.updateBoth mic esi ts q) ∧
    (∀ mic' esi' side', (s.updateBoth mic esi ts q).cell mic' esi' side'
      = if mic' = mic ∧ esi' = esi then quoteOf q side'
        else s.cell mic' esi' side') ∧
    (s.updateBoth mic esi ts q).updatedStocks = s.updatedStocks := by
  unfold updateBoth
  by_cases hsame : q = (s.quotes mic esi).quote
  · rw [if_neg (not_not_intro hsame)]
    refine ⟨.refl s, fun mic' esi' side' => ?_, rfl⟩
    by_cases hat : mic' = mic ∧ esi' = esi
    · rw [if_pos hat]
      obtain ⟨rfl, rfl⟩ := hat
      rw [hsame]
      rfl
    · rw [if_neg hat]
  · rw [if_pos hsame]
    have hview := unsafeBestQuote_setEntry
      (s.onBboUpdate (.full ts mic esi q)) mic esi ⟨q, ts, ts⟩
    refine ⟨Told.one (u := .full ts mic esi q) rfl hview.symm ?_, ?_, rfl⟩
    · rw [hview]
      intro hsame'
      have hq := congrFun (congrFun hsame' mic) esi
      rw [Function.update_self, Function.update_self] at hq
      exact hsame hq
    · intro mic' esi' side'
      unfold cell
      rw [hview, update_update_apply]
      split <;> rfl

/-- The flagged sides of a stock get what the book has. -/
theorem updateStock_spec
    {books : EphemeralSymbolIndex → Option FullL2Quote} {ss : StockSide}
    {best : FullL2Quote} (hbook : books ss.esi = some best) :
    Told s (s.updateStock bits mic books ts ss) ∧
    (∀ mic' esi' side',
      (s.updateStock bits mic books ts ss).cell mic' esi' side'
        = if mic' = mic ∧ esi' = ss.esi ∧
              ss.sideFlags &&& bits.bit side' ≠ 0 then quoteOf best side'
          else s.cell mic' esi' side') ∧
    (s.updateStock bits mic books ts ss).updatedStocks
      = s.updatedStocks := by
  unfold updateStock
  rw [hbook]
  dsimp only
  by_cases hboth : ss.sideFlags &&& bits.both = bits.both
  · rw [if_pos hboth]
    obtain ⟨htold, hcell, hstocks⟩ := updateBoth_spec s mic ss.esi ts best
    refine ⟨htold, fun mic' esi' side' => ?_, hstocks⟩
    rw [hcell]
    simp only [flag_of_both bits hboth side', ne_eq, not_false_eq_true,
      and_true]
  · rw [if_neg hboth]
    -- the bid, and then the ask of what that leaves
    have hbid : ∀ t : L1EquitiesStrategy,
        t = (if ss.sideFlags &&& bits.bit .buy ≠ 0 then
          s.updateSide mic ss.esi ts .buy best.bid else s) →
        Told s t ∧ (∀ mic' esi' side', t.cell mic' esi' side'
          = if mic' = mic ∧ esi' = ss.esi ∧ side' = .buy ∧
                ss.sideFlags &&& bits.bit .buy ≠ 0 then best.bid
            else s.cell mic' esi' side') ∧
        t.updatedStocks = s.updatedStocks := by
      rintro t rfl
      by_cases hflag : ss.sideFlags &&& bits.bit .buy ≠ 0
      · rw [if_pos hflag]
        obtain ⟨htold, hcell, hstocks⟩ :=
          updateSide_spec s mic ss.esi ts .buy best.bid
        refine ⟨htold, fun mic' esi' side' => ?_, hstocks⟩
        rw [hcell]
        simp only [hflag, ne_eq, not_false_eq_true, and_true]
      · rw [if_neg hflag]
        refine ⟨.refl s, fun mic' esi' side' => ?_, rfl⟩
        rw [if_neg fun h => hflag h.2.2.2]
    obtain ⟨htold, hcell, hstocks⟩ := hbid _ rfl
    generalize (if ss.sideFlags &&& bits.bit .buy ≠ 0 then
      s.updateSide mic ss.esi ts .buy best.bid else s) = t at *
    by_cases hflag : ss.sideFlags &&& bits.bit .sell ≠ 0
    · rw [if_pos hflag]
      obtain ⟨htold', hcell', hstocks'⟩ :=
        updateSide_spec t mic ss.esi ts .sell best.ask
      refine ⟨htold.trans htold', fun mic' esi' side' => ?_,
        hstocks'.trans hstocks⟩
      rw [hcell', hcell]
      cases side' with
      | buy => simp [quoteOf]
      | sell => simp [quoteOf, hflag]
    · rw [if_neg hflag]
      refine ⟨htold, fun mic' esi' side' => ?_, hstocks⟩
      rw [hcell]
      cases side' with
      | buy => simp [quoteOf]
      | sell => simp [hflag]

end Stock

-- ============================================================ all the stocks

section Stocks

variable (bits : SideBits) (mic : MICIndex) (ts : Timestamp)

/-- All flagged sides get what their books have. -/
theorem updateStocks_spec
    {books : EphemeralSymbolIndex → Option FullL2Quote}
    {es : List StockSide} (hbooks : ∀ ss ∈ es, (books ss.esi).isSome = true)
    (s : L1EquitiesStrategy) :
    Told s (es.foldl (fun s ss => s.updateStock bits mic books ts ss) s) ∧
    ∀ mic' esi' side',
      (Flagged bits es esi' side' → mic' = mic →
        (es.foldl (fun s ss => s.updateStock bits mic books ts ss) s).cell
            mic' esi' side'
          = quoteOf ((books esi').getD emptyQuote) side') ∧
      (¬ (mic' = mic ∧ Flagged bits es esi' side') →
        (es.foldl (fun s ss => s.updateStock bits mic books ts ss) s).cell
            mic' esi' side'
          = s.cell mic' esi' side') := by
  induction es generalizing s with
  | nil =>
      refine ⟨.refl s, fun _ _ _ => ⟨?_, fun _ => rfl⟩⟩
      rintro ⟨_, hmem, _⟩
      cases hmem
  | cons ss es ih =>
      obtain ⟨best, hbest⟩ := Option.isSome_iff_exists.mp
        (hbooks ss List.mem_cons_self)
      obtain ⟨htold, hcell, -⟩ := updateStock_spec bits s mic ts hbest
      obtain ⟨htold', hrest⟩ :=
        ih (fun ss' h => hbooks ss' (List.mem_cons_of_mem ss h))
          (s.updateStock bits mic books ts ss)
      refine ⟨htold.trans htold', fun mic' esi' side' => ⟨?_, ?_⟩⟩
      · intro hflag hmic
        by_cases hlater : Flagged bits es esi' side'
        · exact (hrest mic' esi' side').1 hlater hmic
        · have hhere : esi' = ss.esi ∧
              ss.sideFlags &&& bits.bit side' ≠ 0 := by
            obtain ⟨ss', hmem, hesi, hbit⟩ := hflag
            rcases List.mem_cons.mp hmem with rfl | hmem
            · exact ⟨hesi.symm, hbit⟩
            · exact absurd ⟨ss', hmem, hesi, hbit⟩ hlater
          rw [List.foldl_cons,
            (hrest mic' esi' side').2 fun h => hlater h.2, hcell,
            if_pos ⟨hmic, hhere⟩, hhere.1, hbest]
          rfl
      · intro hnone
        have hlater : ¬ (mic' = mic ∧ Flagged bits es esi' side') := by
          rintro ⟨hmic, ss', hmem, hflag⟩
          exact hnone ⟨hmic, ss', List.mem_cons_of_mem ss hmem, hflag⟩
        rw [List.foldl_cons, (hrest mic' esi' side').2 hlater, hcell,
          if_neg]
        rintro ⟨hmic, hesi, hbit⟩
        exact hnone ⟨hmic, ss, List.mem_cons_self, hesi.symm, hbit⟩

end Stocks

end L1EquitiesStrategy

-- =================================================================== the run

namespace L1World

/-- What a book has, and what one has that is not there yet. -/
def bookBest (w : L1World) (mic : MICIndex) (esi : EphemeralSymbolIndex) :
    FullL2Quote :=
  (w.books mic esi).getD emptyQuote

/-- What changes in a book: where, on which side, whether the strategy takes
note of it, and the best from then on. -/
structure Change where
  mic : MICIndex
  esi : EphemeralSymbolIndex
  side : Side
  noted : Bool
  best : FullL2Quote

/-- The change that an event tells. -/
def change : L1Event → Option Change
  | .bookAdded mic esi order best => some ⟨mic, esi, order.side, true, best⟩
  | .bookCanceled mic esi order best => some ⟨mic, esi, order.side, true, best⟩
  | .bookModified mic esi order best => some ⟨mic, esi, order.side, true, best⟩
  | .bookExecuted mic esi order best => some ⟨mic, esi, order.side, true, best⟩
  | .l2Update mic esi isBuy isBbo best =>
      some ⟨mic, esi, if isBuy then .buy else .sell, isBbo, best⟩
  | .endOfData _ _ => none

/-- A book changes on the side that the event tells, and its best only if the
event says so. -/
def Announced (w : L1World) (e : L1Event) : Prop :=
  ∀ c ∈ change e,
    (∀ side, side ≠ c.side →
      quoteOf c.best side = quoteOf (w.bookBest c.mic c.esi) side) ∧
    (c.noted = false → c.best = w.bookBest c.mic c.esi)

/-- What holds in every state: what is kept of a side that is not flagged is
what the book has, stocks that are flagged have a book, and the calls tell
what is kept. -/
structure Cached (bits : SideBits) (w : L1World) : Prop where
  cells : ∀ mic esi side,
    ¬ Flagged bits (w.l1.updatedStocks mic) esi side →
      w.l1.cell mic esi side = quoteOf (w.bookBest mic esi) side
  books : ∀ mic, ∀ ss ∈ w.l1.updatedStocks mic,
    (w.books mic ss.esi).isSome = true
  told : Told L1EquitiesStrategy.init w.l1

section Run

variable (bits : SideBits)

/-- In the beginning nothing is kept, and no book is there. -/
theorem cached_init : Cached bits init where
  cells _ _ _ _ := rfl
  books _ _ h := by cases h
  told := .refl _

/-- An event is about one book. -/
theorem bookBest_setBook (w : L1World) (mic mic' : MICIndex)
    (esi esi' : EphemeralSymbolIndex) (best : FullL2Quote) :
    (w.setBook mic esi best).bookBest mic' esi'
      = if mic' = mic ∧ esi' = esi then best else w.bookBest mic' esi' := by
  unfold bookBest setBook
  dsimp only
  rw [update_update_apply]
  split <;> rfl

/-- A book that was defined stays so. -/
theorem isSome_setBook (w : L1World) (mic mic' : MICIndex)
    (esi esi' : EphemeralSymbolIndex) (best : FullL2Quote)
    (h : (mic' = mic ∧ esi' = esi) ∨ (w.books mic' esi').isSome = true) :
    ((w.setBook mic esi best).books mic' esi').isSome = true := by
  unfold setBook
  dsimp only
  rw [update_update_apply]
  split
  case isTrue => rfl
  case isFalse hother => exact h.resolve_left hother

/-- A change of a book, noted or not. -/
theorem step_change {e : L1Event} {c : Change} (hc : change e = some c)
    (w : L1World) :
    w.step bits e = { w.setBook c.mic c.esi c.best with
      l1 := if c.noted then w.l1.stockUpdated bits c.mic c.esi c.side
        else w.l1 } := by
  cases e with
  | endOfData mic ts => cases hc
  | l2Update mic esi isBuy isBbo best =>
      cases hc
      rfl
  | _ =>
      cases hc
      rfl

variable {bits}

/-- The step lemma for an event of a book: the side that may have changed is
flagged. -/
theorem Cached.change {w : L1World} (h : Cached bits w) {e : L1Event}
    {c : Change} (hc : change e = some c) (he : w.Announced e) :
    Cached bits (w.step bits e) := by
  obtain ⟨hother, hquiet⟩ := he c hc
  rw [step_change bits hc]
  cases hnoted : c.noted with
  | false =>
      rw [if_neg (by decide)]
      refine ⟨fun mic esi side hflag => ?_, fun mic ss hss => ?_, h.told⟩
      · have hbest := bookBest_setBook w c.mic mic c.esi esi c.best
        have hcell : w.l1.cell mic esi side
            = quoteOf ((w.setBook c.mic c.esi c.best).bookBest mic esi)
                side := by
          rw [hbest, h.cells mic esi side hflag]
          by_cases hat : mic = c.mic ∧ esi = c.esi
          · rw [if_pos hat, hat.1, hat.2, hquiet hnoted]
          · rw [if_neg hat]
        exact hcell
      · exact isSome_setBook w _ _ _ _ _ (.inr (h.books mic ss hss))
  | true =>
      rw [if_pos rfl]
      refine ⟨fun mic esi side hflag => ?_, fun mic ss hss => ?_, h.told⟩
      · have hbest := bookBest_setBook w c.mic mic c.esi esi c.best
        unfold L1EquitiesStrategy.stockUpdated at hflag
        dsimp only at hflag
        have hcell : w.l1.cell mic esi side
            = quoteOf ((w.setBook c.mic c.esi c.best).bookBest mic esi)
                side := by
          rw [hbest]
          by_cases hmic : mic = c.mic
          · subst hmic
            rw [Function.update_self, flagged_insert] at hflag
            obtain ⟨hbefore, hnot⟩ := not_or.mp hflag
            rw [h.cells _ esi side hbefore]
            by_cases hesi : esi = c.esi
            · rw [if_pos ⟨rfl, hesi⟩, hesi]
              exact (hother side fun hside => hnot ⟨hesi, hside⟩).symm
            · rw [if_neg fun h => hesi h.2]
          · rw [Function.update_of_ne hmic] at hflag
            rw [if_neg fun h => hmic h.1, h.cells mic esi side hflag]
        exact hcell
      · unfold L1EquitiesStrategy.stockUpdated at hss
        dsimp only at hss
        by_cases hmic : mic = c.mic
        · subst hmic
          rw [Function.update_self] at hss
          rcases mem_insert_esi hss with hesi | ⟨e', he', hesi⟩
          · exact isSome_setBook w _ _ _ _ _ (.inl ⟨rfl, hesi⟩)
          · exact isSome_setBook w _ _ _ _ _
              (.inr (hesi ▸ h.books _ e' he'))
        · rw [Function.update_of_ne hmic] at hss
          exact isSome_setBook w _ _ _ _ _ (.inr (h.books mic ss hss))

/-- And for the end of a packet, which visits the flagged sides and takes the
flags off. -/
theorem Cached.endOfData {w : L1World} (h : Cached bits w) (mic : MICIndex)
    (ts : Timestamp) : Cached bits (w.step bits (.endOfData mic ts)) := by
  obtain ⟨htold, hcells⟩ := L1EquitiesStrategy.updateStocks_spec bits mic ts
    (h.books mic) w.l1
  have hstocks : ∀ (es : List StockSide) (s : L1EquitiesStrategy),
      (∀ ss ∈ es, (w.books mic ss.esi).isSome = true) →
      (es.foldl (fun s ss => s.updateStock bits mic (w.books mic) ts ss)
        s).updatedStocks = s.updatedStocks := by
    intro es
    induction es with
    | nil => exact fun _ _ => rfl
    | cons ss es ih =>
        intro s hbooks
        obtain ⟨best, hbest⟩ := Option.isSome_iff_exists.mp
          (hbooks ss List.mem_cons_self)
        rw [List.foldl_cons,
          ih _ fun ss' h => hbooks ss' (List.mem_cons_of_mem ss h),
          (L1EquitiesStrategy.updateStock_spec bits s mic ts hbest).2.2]
  have hstocks := hstocks _ w.l1 (h.books mic)
  refine ⟨fun mic' esi side hflag => ?_, fun mic' ss hss => ?_,
    h.told.trans htold⟩
  · have hcell := hcells mic' esi side
    by_cases hnow : mic' = mic ∧
        Flagged bits (w.l1.updatedStocks mic) esi side
    · obtain ⟨rfl, hflag'⟩ := hnow
      exact hcell.1 hflag' rfl
    · refine (hcell.2 hnow).trans (h.cells mic' esi side ?_)
      intro hflag'
      by_cases hmic : mic' = mic
      · subst hmic
        exact hnow ⟨rfl, hflag'⟩
      · apply hflag
        unfold step L1EquitiesStrategy.onEndOfData
        dsimp only
        rwa [Function.update_of_ne hmic, hstocks]
  · unfold step L1EquitiesStrategy.onEndOfData at hss
    dsimp only at hss
    by_cases hmic : mic' = mic
    · subst hmic
      rw [Function.update_self] at hss
      cases hss
    · rw [Function.update_of_ne hmic, hstocks] at hss
      exact h.books mic' ss hss

/-- Over any event. -/
theorem Cached.step {w : L1World} (h : Cached bits w) {e : L1Event}
    (he : w.Announced e) : Cached bits (w.step bits e) := by
  cases hc : L1World.change e with
  | some c => exact h.change hc he
  | none =>
      cases e with
      | endOfData mic ts => exact h.endOfData mic ts
      | _ => cases hc

/-- The run lemma, from the start of the day. -/
theorem cached_run {es : List L1Event}
    (h : Lib.Admits (step bits) Announced init es) :
    Cached bits (Lib.run (step bits) init es) :=
  Lib.run_invariant (I := Cached bits) (fun _ _ hw he => hw.step he)
    (cached_init bits) h

end Run

/-- Bits as the tests of the strategy would have them. -/
def demoBits : SideBits where
  bit
    | .buy => 1
    | .sell => 2
  ne_zero side := by cases side <;> decide
  apart := by decide

end L1World

end TradingEngine.TS
