/-
From the price levels of the venues to the consolidated book.

# The consolidated book

The calls of `on_bbo_update` that a packet ends with are what the
consolidated book is made of. While no ask is passed over (`AskHeard`), the
book holds what is kept of the venues' quotes, less the sentinels, and
nothing else (`Copies`).

# Price levels

`L2Book::replace` returns whether the top of the book is another, and if the
event says just that (`m_is_bbo`), every change of the best is announced
(`announced_step`). What is kept is then the best of the last sizes.
-/
import TradingEngine.MD.Proofs.L2Book
import TradingEngine.TS.Proofs.L1EquitiesStrategy
import TradingEngine.TS.Proofs.NBBOEquitiesStrategy

namespace TradingEngine.TS

open MD (BookBase FullL2Quote L2BookHalf L2Quote Side)
open OE (Timestamp)
open NBBOEquitiesStrategy (AskHeard Consolidated Event Tracks makeNewOrder
  makeRefnum monitor quoteOrder tracks_init)

-- ====================================================== the consolidated book

/-- A call, as the subclass has it. -/
def callEvent : BboUpdate → Event
  | .side _ mic esi side q => .bboUpdate mic esi side q
  | .full _ mic esi q => .fullBboUpdate mic esi q

/-- The prices of a quote that is not there are the sentinels. -/
structure Sentinels (base : BookBase) : Prop where
  bid : base.emptyBidPrice = 0
  ask : base.emptyAskPrice = 18446744073709551615

/-- All venues count, with the quotes of one who hears the calls. -/
structure Copies (m : Market) (x : NBBOEquitiesStrategy × Venues)
    (r : Heard) : Prop where
  tracks : Tracks m x
  enabled : ∀ mic esi, x.2.enabled mic esi = true
  last : ∀ mic esi side, x.2.last mic esi side
    = Venues.heard m.base side (quoteOf (r mic esi) side)

section Consolidated

variable {m : Market}

/-- In the beginning nothing was heard. -/
theorem copies_init (hbase : Sentinels m.base) :
    Copies m (NBBOEquitiesStrategy.init m, Venues.init)
      (fun _ _ => emptyQuote) where
  tracks := tracks_init m
  enabled _ _ := rfl
  last mic esi side := by
    unfold Venues.heard
    cases side with
    | buy => exact (if_pos hbase.bid.symm).symm
    | sell => exact (if_pos hbase.ask.symm).symm

/-- A call with both sides is one with the bid and one with the ask, to one
who hears it. -/
theorem hear_full (r : Heard) (ts : Timestamp) (mic : MICIndex)
    (esi : EphemeralSymbolIndex) (q : FullL2Quote) :
    hear r (.full ts mic esi q)
      = hear (hear r (.side ts mic esi .buy q.bid))
          (.side ts mic esi .sell q.ask) := by
  unfold hear
  dsimp only
  rw [Function.update_idem, Function.update_self, Function.update_idem,
    Function.update_self]
  rfl

/-- Another quote of a venue, in what was said and in what was heard. -/
theorem last_record {v : Venues} {r : Heard}
    (h : ∀ mic esi side, v.last mic esi side
      = Venues.heard m.base side (quoteOf (r mic esi) side))
    (ts : Timestamp) (mic : MICIndex) (esi : EphemeralSymbolIndex)
    (side : Side) (q : L2Quote) (mic' : MICIndex)
    (esi' : EphemeralSymbolIndex) (side' : Side) :
    (v.record mic esi side (Venues.heard m.base side q)).last mic' esi' side'
      = Venues.heard m.base side'
          (quoteOf (hear r (.side ts mic esi side q) mic' esi') side') := by
  rw [L1EquitiesStrategy.quoteOf_hear_side]
  unfold Venues.record
  dsimp only
  by_cases hat : mic' = mic ∧ esi' = esi ∧ side' = side
  · rw [if_pos hat, if_pos hat, hat.2.2]
  · rw [if_neg hat, if_neg hat, h]

/-- The step lemma: what one call says, the book holds. -/
theorem Copies.step (hbest : m.base.SidesApart)
    {x : NBBOEquitiesStrategy × Venues} {r : Heard} (h : Copies m x r)
    {u : BboUpdate} (hu : AskHeard m x.1 (callEvent u)) :
    Copies m (monitor m x (callEvent u)) (hear r u) where
  tracks := h.tracks.monitor hbest hu
  enabled := by
    cases u with
    | side ts mic esi side q => exact h.enabled
    | full ts mic esi q => exact h.enabled
  last := by
    cases u with
    | side ts mic esi side q => exact last_record h.last ts mic esi side q
    | full ts mic esi q =>
        rw [hear_full]
        exact last_record (last_record h.last ts mic esi .buy q.bid)
          ts mic esi .sell q.ask

/-- And over all the calls of a day. -/
theorem copies_run (hbest : m.base.SidesApart) (us : List BboUpdate)
    {x : NBBOEquitiesStrategy × Venues} {r : Heard} (h : Copies m x r)
    (hus : Lib.Admits (NBBOEquitiesStrategy.step m) (AskHeard m) x.1
      (us.map callEvent)) :
    ∃ v, Copies m
      (Lib.run (NBBOEquitiesStrategy.step m) x.1 (us.map callEvent), v)
      (Lib.run hear r us) := by
  induction us generalizing x r with
  | nil => exact ⟨x.2, h⟩
  | cons u us ih => exact ih (h.step hbest hus.1) hus.2

/-- The book of a stock, from what is heard of its venues. -/
theorem Copies.books {s : NBBOEquitiesStrategy} {v : Venues} {r : Heard}
    (h : Copies m (s, v) r) (esi : EphemeralSymbolIndex) :
    (∀ (mic : MICIndex) side, s.books esi (makeRefnum mic side)
      = quoteOrder m.base mic side (quoteOf (r mic esi) side)) ∧
    ∀ refnum, (∀ (mic : MICIndex) side, refnum ≠ makeRefnum mic side) →
      s.books esi refnum = none := by
  refine ⟨fun mic side => ?_, h.tracks.consolidated.nothingElse esi⟩
  have hon : v.enabled mic esi = true := h.enabled mic esi
  have hheld := h.tracks.consolidated.holds esi mic side
  unfold Venues.held at hheld
  rw [if_pos hon, h.last] at hheld
  exact hheld

/-- Not with both sides. -/
def oneSided : BboUpdate → Bool
  | .side .. => true
  | .full .. => false

/-- An ask that comes alone is heard. -/
theorem asksHeard_of_oneSided {us : List BboUpdate}
    (h : us.all oneSided = true) (s : NBBOEquitiesStrategy) :
    Lib.Admits (NBBOEquitiesStrategy.step m) (AskHeard m) s
      (us.map callEvent) := by
  apply Lib.Admits.of_forall_mem
  intro e he s
  obtain ⟨u, hu, rfl⟩ := List.mem_map.mp he
  cases u with
  | side ts mic esi side q => trivial
  | full ts mic esi q => cases List.all_eq_true.mp h _ hu

/-- A side that is visited alone is told alone. -/
theorem oneSided_updateSide {s : L1EquitiesStrategy}
    (h : s.bboUpdates.all oneSided = true) (mic : MICIndex)
    (esi : EphemeralSymbolIndex) (ts : Timestamp) (side : Side)
    (q : L2Quote) :
    (s.updateSide mic esi ts side q).bboUpdates.all oneSided = true := by
  unfold L1EquitiesStrategy.updateSide
  dsimp only
  split
  · unfold L1EquitiesStrategy.setEntry L1EquitiesStrategy.onBboUpdate
    dsimp only
    rw [List.all_append, h]
    rfl
  · exact h

/-- A stock that is not flagged on both sides is told of one by one. -/
theorem oneSided_updateStock (bits : SideBits) {s : L1EquitiesStrategy}
    {ss : StockSide} (hss : ss.sideFlags &&& bits.both ≠ bits.both)
    (h : s.bboUpdates.all oneSided = true) (mic : MICIndex)
    (books : EphemeralSymbolIndex → Option FullL2Quote) (ts : Timestamp) :
    (s.updateStock bits mic books ts ss).bboUpdates.all oneSided = true := by
  unfold L1EquitiesStrategy.updateStock
  split
  · exact h
  · rw [if_neg hss]
    dsimp only
    split
    · split
      · exact oneSided_updateSide (oneSided_updateSide h ..) ..
      · exact oneSided_updateSide h ..
    · split
      · exact oneSided_updateSide h ..
      · exact h

end Consolidated

-- =============================================================== price levels

/-- A price level of a book, or the end of a packet. -/
inductive LevelEvent
  | replace (mic : MICIndex) (esi : EphemeralSymbolIndex) (side : Side)
      (p : MD.Price) (s : MD.Size) (n : MD.NumOrders) (ts : Timestamp)
  | endOfData (mic : MICIndex) (ts : Timestamp)

/-- Books of price levels, both sides of each. -/
abbrev L2Books :=
  MICIndex → EphemeralSymbolIndex → (side : Side) → L2BookHalf side

/-- The books, and the strategy that listens to them. -/
structure LevelFeed where
  books : L2Books
  world : L1World

namespace LevelFeed

/-- `L2Book::best`, of the two halves. -/
def bestQuotes (base : BookBase) (b : (side : Side) → L2BookHalf side) :
    FullL2Quote :=
  ⟨(b .buy).bestQuote base, (b .sell).bestQuote base⟩

/-- New books, whatever their flags are. -/
def init (added deleted existed reduced : Bool) : LevelFeed where
  books _ _ _ := L2BookHalf.new added deleted existed reduced
  world := .init

/-- The book after `replace` on one side. -/
def replaced (b : (side : Side) → L2BookHalf side) (side : Side)
    (p : MD.Price) (s : MD.Size) (n : MD.NumOrders) (ts : Timestamp) :
    (side : Side) → L2BookHalf side :=
  Function.update b side ((b side).replace p s n ts).1

/-- What the strategy is called with, on a book that has the level
replaced: `m_is_bbo` is what `replace` returned. -/
def levelEvent (base : BookBase) (books : L2Books) : LevelEvent → L1Event
  | .replace mic esi side p s n ts =>
      .l2Update mic esi (side = .buy)
        ((books mic esi side).replace p s n ts).2
        (bestQuotes base (replaced (books mic esi) side p s n ts))
  | .endOfData mic ts => .endOfData mic ts

def step (bits : SideBits) (base : BookBase) (f : LevelFeed)
    (e : LevelEvent) : LevelFeed where
  books :=
    match e with
    | .replace mic esi side p s n ts =>
        Function.update f.books mic (Function.update (f.books mic) esi
          (replaced (f.books mic esi) side p s n ts))
    | .endOfData _ _ => f.books
  world := f.world.step bits (levelEvent base f.books e)

/-- The last sizes of all books. -/
abbrev LevelSizes :=
  MICIndex → EphemeralSymbolIndex → Side → L2BookHalf.LastSizes

/-- A level, in the last sizes of its side. -/
def sizesStep (l : LevelSizes) : LevelEvent → LevelSizes
  | .replace mic esi side p s n ts => fun mic' esi' side' =>
      if mic' = mic ∧ esi' = esi ∧ side' = side then
        (l mic esi side).step (.replace p s n ts)
      else l mic' esi' side'
  | .endOfData _ _ => l

/-- The best of the books is what the events said it is, and the levels are
those of the last sizes. -/
structure Fed (base : BookBase) (f : LevelFeed) (l : LevelSizes) :
    Prop where
  best : ∀ mic esi, f.world.bookBest mic esi = bestQuotes base (f.books mic esi)
  levels : ∀ mic esi side (p : MD.Price),
    ((f.books mic esi side).bookhalfStorage[p]?).map
      (fun level => (level.size, level.numOrders)) = l mic esi side p

section Levels

variable (bits : SideBits) {base : BookBase}

/-- In the beginning there are no levels. -/
theorem fed_init (hbase : Sentinels base)
    (added deleted existed reduced : Bool) :
    Fed base (init added deleted existed reduced)
      (fun _ _ _ _ => none) where
  best mic esi := by
    have hempty : ∀ side : Side,
        (L2BookHalf.new added deleted existed reduced :
          L2BookHalf side).bestQuote base = ⟨base.emptyPrice side, 0, 0⟩ := by
      intro side
      have hbegin : L2BookHalf.begin? (∅ : MD.BookHalfStorage side) = none :=
        L2BookHalf.begin_eq_none_iff.mpr fun q => by simp
      unfold L2BookHalf.bestQuote L2BookHalf.new
      rw [hbegin]
    show emptyQuote = bestQuotes base fun _ =>
      L2BookHalf.new added deleted existed reduced
    unfold bestQuotes emptyQuote
    rw [hempty, hempty, BookBase.emptyPrice, BookBase.emptyPrice, hbase.bid,
      hbase.ask]
  levels mic esi side p := by simp [init, L2BookHalf.new]

/-- The best of a book is the best of its halves. -/
theorem quoteOf_bestQuotes (b : (side : Side) → L2BookHalf side) (side : Side) :
    quoteOf (bestQuotes base b) side = (b side).bestQuote base := by
  cases side <;> rfl

/-- What `replace` returns announces every change. -/
theorem announced_step {f : LevelFeed} {l : LevelSizes} (h : Fed base f l)
    (e : LevelEvent) :
    f.world.Announced (levelEvent base f.books e) := by
  intro c hc
  cases e with
  | endOfData mic ts => cases hc
  | replace mic esi side p s n ts =>
      cases hc
      have hside : (if (decide (side = .buy)) = true then Side.buy
          else .sell) = side := by
        cases side <;> rfl
      constructor
      · intro side' hne
        dsimp only at hne ⊢
        rw [hside] at hne
        rw [h.best, quoteOf_bestQuotes, quoteOf_bestQuotes, replaced,
          Function.update_of_ne hne]
      · intro hret
        have hsame := L2BookHalf.bestQuote_of_replace_false base
          (f.books mic esi side) p s n ts hret
        dsimp only
        rw [h.best]
        unfold bestQuotes replaced
        cases side with
        | buy =>
            rw [Function.update_self, hsame,
              Function.update_of_ne (by decide)]
        | sell =>
            rw [Function.update_self, hsame,
              Function.update_of_ne (by decide)]

/-- The step lemma: a level replaced, or the end of a packet. -/
theorem Fed.step {f : LevelFeed} {l : LevelSizes} (h : Fed base f l)
    (e : LevelEvent) : Fed base (f.step bits base e) (sizesStep l e) := by
  cases e with
  | endOfData mic ts => exact ⟨h.best, h.levels⟩
  | replace mic esi side p s n ts =>
      constructor
      · intro mic' esi'
        have hbest := L1World.bookBest_setBook f.world mic mic' esi esi'
          (bestQuotes base (replaced (f.books mic esi) side p s n ts))
        refine hbest.trans ?_
        unfold LevelFeed.step
        dsimp only
        rw [update_update_apply, h.best]
        split <;> rfl
      · intro mic' esi' side' q
        unfold LevelFeed.step sizesStep
        dsimp only
        rw [update_update_apply]
        by_cases hbook : mic' = mic ∧ esi' = esi
        · obtain ⟨rfl, rfl⟩ := hbook
          rw [if_pos ⟨rfl, rfl⟩, replaced]
          by_cases hside : side' = side
          · subst hside
            rw [Function.update_self, if_pos ⟨rfl, rfl, rfl⟩]
            exact L2BookHalf.levels_step (h.levels _ _ _)
              (.replace p s n ts) q
          · rw [Function.update_of_ne hside,
              if_neg fun h => hside h.2.2, h.levels]
        · rw [if_neg hbook, if_neg fun h => hbook ⟨h.1, h.2.1⟩, h.levels]

/-- Through a whole run, the strategy is in a state that its invariant
holds of, and the books are those of the last sizes. -/
theorem fed_run (es : List LevelEvent) {f : LevelFeed} {l : LevelSizes}
    (h : Fed base f l) (hw : f.world.Cached bits) :
    Fed base (Lib.run (step bits base) f es) (Lib.run sizesStep l es) ∧
      (Lib.run (step bits base) f es).world.Cached bits := by
  induction es generalizing f l with
  | nil => exact ⟨h, hw⟩
  | cons e es ih =>
      exact ih (h.step bits e) (L1World.Cached.step hw (announced_step h e))

end Levels

end LevelFeed

/-- A packet that touches one side of one stock tells one side at most. -/
private theorem oneSided_packet (changed : Bool) (best : FullL2Quote) :
    ((L1World.init.step L1World.demoBits
        (.l2Update 1 7 true changed best)).step L1World.demoBits
          (.endOfData 1 ⟨1, 0⟩)).l1.bboUpdates.all oneSided = true := by
  cases changed with
  | false => rfl
  | true =>
      let s := L1EquitiesStrategy.init.stockUpdated L1World.demoBits 1 7 .buy
      have hstock := @oneSided_updateStock L1World.demoBits s ⟨7, 1⟩
        (by decide) rfl 1 (Function.update (fun _ => none) 7 (some best))
        ⟨1, 0⟩
      exact hstock

end TradingEngine.TS
