/-
Market data keeps the invariant of the simulated exchange.

# Two ways to settle

What rests in the day's containers is settled `Live`: fills, and the rest
stays. What waits for an auction is settled `Dead`, and only once, because
the condition has it untouched before. Both happen when no packet is being
worked on, so that an acknowledgment which is still due comes first.

# Handler by handler

A handler is a sequence of a few changes: sizes around an order, a container
that is crossed, a record. The first leave what rests of each order alone
(`KeepsSize`), the second are settled as above, and nothing in the invariant
speaks of the third. Each handler is then its own changes in order, and the
events of a packet are handled one after the other.
-/
import TradingEngine.OE.Proofs.L2SimInv

namespace TradingEngine.OE

variable {ω ι : Type} [DecidableEq ω]

namespace L2Sim

open L2SimSession (Cross addSizeBehind reduceSizeFromBack
  reduceSizeFromFront sideContainer plainCross)

-- ================================================================ adjustments

/-- A change of the sizes around an order, not of its own. -/
def KeepsSize (f : SimOrder ω → SimOrder ω) : Prop :=
  ∀ o, (f o).order = o.order ∧ (f o).remains = o.remains

omit [DecidableEq ω] in
/-- Size ahead and behind is not the order's own. -/
theorem keepsSize_addSizeBehind (size : Nat) :
    KeepsSize (addSizeBehind (ω := ω) size) := fun _ => ⟨rfl, rfl⟩

omit [DecidableEq ω] in
/-- Nor is what is taken away in front. -/
theorem keepsSize_reduceSizeFromFront (size : Nat) :
    KeepsSize (reduceSizeFromFront (ω := ω) size) := fun _ => ⟨rfl, rfl⟩

omit [DecidableEq ω] in
/-- Nor behind. -/
theorem keepsSize_reduceSizeFromBack (size : Nat) :
    KeepsSize (reduceSizeFromBack (ω := ω) size) := by
  intro o
  unfold reduceSizeFromBack
  dsimp only
  split <;> exact ⟨rfl, rfl⟩

/-- The books of the sides take part in no auction. -/
theorem sideContainer_auction (side : MD.Side) :
    (sideContainer side).auction = false := by
  cases side <;> rfl

omit [DecidableEq ω] in
/-- A book with the same orders is put in. -/
theorem sameOrders_update (ss : L2SimSession ω ι) {esi : Nat}
    {b : BookEntry ω} (hb : b.orders = (ss.books esi).orders) :
    SameOrders ss { ss with books := Function.update ss.books esi b } := by
  refine ⟨rfl, rfl, rfl, rfl, fun esi' k => ?_⟩
  show (Function.update ss.books esi b esi').orders k = _
  by_cases hesi : esi' = esi
  · rw [hesi, Function.update_self, hb]
  · rw [Function.update_of_ne hesi]

/-- What executions and trades leave in the session's records. -/
theorem simInv_record {s : L2Sim ω ι} {ss : L2SimSession ω ι} {esi : Nat}
    (h : (s.withSession ss).SimInv) (f : Nat → Option Nat) (tradeId : Nat) :
    (s.withSession (({ ss with execThisPkt := f } :
      L2SimSession ω ι).insertTrade esi tradeId)).SimInv := by
  have hexec : (s.withSession { ss with execThisPkt := f }).SimInv :=
    h.same ⟨rfl, rfl, rfl, rfl, fun _ _ => rfl⟩
  exact hexec.same (sameOrders_update _ rfl)

section Market

variable {s : L2Sim ω ι} {ss : L2SimSession ω ι}
  (h : (s.withSession ss).SimInv) {esi : Nat} {k : Container}

include h

/-- A change of places in the queue keeps the invariant. -/
theorem simInv_adjust (hk : k.auction = false)
    {f : SimOrder ω → SimOrder ω} (hf : KeepsSize f) (price : MD.Price) :
    (s.withSession (ss.adjust esi k price f)).SimInv := by
  have hset := settles_adjust (c := (ss.books esi).orders k)
    (fun y hy => h.remains_pos hy) hf (MD.toDouble price)
  have hsettled := h.settled_live (dueAt ss.ts 0) hk hset
    (Nat.le_refl _) nofun nofun
  exact hsettled.same ⟨rfl, rfl, (List.append_nil _).symm, rfl,
    fun _ _ => rfl⟩

/-- So does a modified order of the market. -/
theorem simInv_modifyOrderHelper (hk : k.auction = false)
    (newPrice : MD.Price) (newSize : Nat) (oldPrice : MD.Price)
    (oldSize delta : Nat) :
    (s.withSession (ss.modifyOrderHelper esi k newPrice newSize oldPrice
      oldSize delta)).SimInv := by
  unfold L2SimSession.modifyOrderHelper
  split
  · exact simInv_adjust (simInv_adjust h hk
      (keepsSize_reduceSizeFromBack oldSize) oldPrice) hk
      (keepsSize_addSizeBehind newSize) newPrice
  · split
    · exact simInv_adjust h hk
        (f := fun o => addSizeBehind newSize (reduceSizeFromBack oldSize o))
        (fun o => keepsSize_reduceSizeFromBack oldSize o) oldPrice
    · exact simInv_adjust h hk (keepsSize_reduceSizeFromBack delta) oldPrice

/-- And a change of a level's size. -/
theorem simInv_sizeUpdateHelper (esi : Nat) (hk : k.auction = false)
    (price : MD.Price) (deltaSize : Nat) (reason : DeltaReasonCode)
    (isReduced : Bool) :
    (s.withSession (ss.sizeUpdateHelper esi k price deltaSize reason
      isReduced)).SimInv := by
  cases reason with
  | none => exact h
  | newOrder =>
      exact simInv_adjust h hk (keepsSize_addSizeBehind deltaSize) price
  | cancel =>
      exact simInv_adjust h hk (keepsSize_reduceSizeFromBack deltaSize) price
  | execution =>
      exact simInv_adjust h hk (keepsSize_reduceSizeFromFront deltaSize)
        price
  | multipleEvents =>
      unfold L2SimSession.sizeUpdateHelper
      dsimp only
      split
      · exact simInv_adjust h hk (keepsSize_reduceSizeFromBack deltaSize)
          price
      · exact simInv_adjust h hk (keepsSize_addSizeBehind deltaSize) price

-- ==================================================================== crosses

/-- What waits for the auction is settled dead. -/
theorem settles_auction (hk : k.auction = true) {x : Cross ω}
    (hx : x.cxlRemainder = true) {due : SimEvent.Ordering}
    (huntouched : ∀ y ∈ (ss.books esi).orders k,
      (s.withSession ss).Untouched due y.2.order) :
    Settles Dead ((ss.books esi).orders k)
      (L2SimSession.crossLoop s.order esi x x.avail
        ((ss.books esi).orders k)).1
      (L2SimSession.crossLoop s.order esi x x.avail
        ((ss.books esi).orders k)).2 := by
  refine L2SimSession.settles_cross_dead (fun _ hy => h.remains_pos hy) hx
    (fun y hy _ => ?_) x.avail
  exact (h.whole hk (huntouched y hy)
    (mem_entries.mpr ⟨⟨y.1, hy⟩, rfl⟩)).2.symm

/-- A cross has no events for an order that is somewhere else. -/
theorem event_elsewhere {k' : Container} (hne : k ≠ k')
    {keeps : SimOrder ω → SimOrder ω → List (SimEvent ω) → Prop}
    {c : OrderContainer ω} {es : List (SimEvent ω)}
    (hset : Settles keeps ((ss.books esi).orders k) c es)
    {y : Rat × SimOrder ω} (hy : y ∈ (ss.books esi).orders k')
    {e : SimEvent ω} (he : e ∈ es) : e.order ≠ y.2.order := by
  intro heq
  have hled := (h.views y.2.order).ledger
  have hmine : e ∈ eventsOf es y.2.order := mem_eventsOf.mpr ⟨he, heq⟩
  have hin : y.2 ∈ ((s.withSession ss).view y.2.order).entries esi k' :=
    mem_entries.mpr ⟨⟨y.1, hy⟩, rfl⟩
  rcases View.entry_of_event (v := (s.withSession ss).view y.2.order)
    (hset.order (hled.once esi k)) with hnil | ⟨o, ho, -⟩
  · rw [hnil] at hmine
    cases hmine
  · have hsame := hled.apart esi k esi k' (ho ▸ List.cons_ne_nil _ _)
      (List.ne_nil_of_mem hin)
    exact hne hsame.2

variable (hup : s.updating = none)

include hup

/-- Between packets every acknowledgment that is due comes before what
market data causes. -/
theorem acks_before {a : SimEvent.Ordering × SimEvent ω}
    (ha : a ∈ ss.eventq) (hstate : a.2.state = .acknowledged) :
    a.1 < dueAt (ss.ts + ss.ackLatency) 0 := by
  have hack := h.clock.acks a ha hstate
  have hnone : (s.withSession ss).updating = none := hup
  rw [hnone] at hack
  exact hack

/-- A crossing that leaves the rest in the book. -/
theorem simInv_crossHelper_live (esi : Nat) (hk : k.auction = false)
    {x : Cross ω}
    (hx : x.cxlRemainder = false) :
    (s.withSession (ss.crossHelper s.order esi k x ss.ts).1).SimInv :=
  h.settled_live _ hk
    (L2SimSession.settles_cross_live (fun _ hy => h.remains_pos hy) hx
      x.avail)
    (Nat.le_add_right _ _)
    (fun _ _ _ ha _ hst => acks_before h hup ha hst)
    (fun e he hst => by
      have hfill := L2SimSession.crossLoop_filled hx x.avail he
      rw [hst] at hfill
      cases hfill)

/-- And one that cancels it, if nothing else is on its way for those orders. -/
theorem simInv_crossHelper_dead (hk : k.auction = true) {x : Cross ω}
    (hx : x.cxlRemainder = true)
    (huntouched : ∀ y ∈ (ss.books esi).orders k,
      (s.withSession ss).Untouched (dueAt (ss.ts + ss.ackLatency) 0)
        y.2.order) :
    (s.withSession (ss.crossHelper s.order esi k x ss.ts).1).SimInv :=
  h.settled_dead hk (settles_auction h hk hx huntouched)
    (Nat.le_add_right _ _)
    (fun _ _ _ ha _ hst => acks_before h hup ha hst) huntouched

/-- The first of two crosses leaves the other container untouched. -/
theorem simInv_crossBoth {k' : Container} (hne : k ≠ k')
    (hk : k.auction = true) (hk' : k'.auction = true) {x x' : Cross ω}
    (hx : x.cxlRemainder = true) (hx' : x'.cxlRemainder = true)
    (huntouched : ∀ j, j = k ∨ j = k' → ∀ y ∈ (ss.books esi).orders j,
      (s.withSession ss).Untouched (dueAt (ss.ts + ss.ackLatency) 0)
        y.2.order) :
    (s.withSession (ss.crossBoth s.order ss.ts esi k k' x x')).SimInv := by
  have hset := settles_auction h hk hx (huntouched k (.inl rfl))
  have hfirst := simInv_crossHelper_dead h hup hk hx
    (huntouched k (.inl rfl))
  refine simInv_crossHelper_dead hfirst hup hk' hx' fun y hy => ?_
  have hy : y ∈ (ss.books esi).orders k' := by
    have heq := orders_setOrders esi k (L2SimSession.crossLoop s.order esi x
      x.avail ((ss.books esi).orders k)).1 ss esi k'
    rw [if_neg fun h => hne h.2.symm] at heq
    exact heq ▸ hy
  have hold := huntouched k' (.inr rfl) y hy
  -- events of the order are old
  have heventq : ∀ q ∈ (ss.crossHelper s.order esi k x ss.ts).1.eventq,
      q.2.order = y.2.order → q ∈ ss.eventq := by
    intro q hq heq
    rcases (mem_emplaceAll ..).mp hq with hq | ⟨-, hq⟩
    · exact hq
    · exact absurd heq (event_elsewhere h hne hset hy hq)
  exact ⟨hold.cancelledSize, hold.state,
    fun q hq heq => hold.cancelled q (heventq q hq heq) heq,
    fun q hq heq => hold.rejected q (heventq q hq heq) heq⟩

-- ===================================================================== events

/-- Fills from an execution of the market. -/
theorem simInv_execCross (esi : Nat) (hk : k.auction = false) (check : ω → Bool)
    (ref : Rat) (avail : Nat) :
    (s.withSession ((ss.setOrders esi k
      (L2SimSession.execCrossLoop check esi ref avail
        ((ss.books esi).orders k)).1).emplaceAll
      (dueAt (ss.ts + ss.ackLatency) 0)
      (L2SimSession.execCrossLoop check esi ref avail
        ((ss.books esi).orders k)).2.1)).SimInv := by
  have hpos : ∀ y ∈ (ss.books esi).orders k, 0 < y.2.remains :=
    fun _ hy => h.remains_pos hy
  refine h.settled_live _ hk (L2SimSession.settles_execCross hpos avail)
    (Nat.le_add_right _ _)
    (fun _ _ _ ha _ hst => acks_before h hup ha hst) (fun e he hst => ?_)
  have hfill := L2SimSession.execCrossLoop_filled hpos avail he
  rw [hst] at hfill
  cases hfill

/-- The handler of executions. -/
theorem simInv_onBookExecuted (refnum : Nat) (side : MD.Side)
    (price : MD.Price) (size tradeId : Nat) (execPrice : MD.Price)
    (execSize oldSize : Nat) :
    (s.withSession (ss.onBookExecuted s.order ss.ts esi refnum side price
      size tradeId execPrice execSize oldSize)).SimInv := by
  unfold L2SimSession.onBookExecuted
  split
  case isTrue => exact h
  case isFalse =>
    dsimp only
    have hk := sideContainer_auction side
    have hcross := fun check => simInv_execCross h hup esi hk check
      (MD.toDouble execPrice) execSize
    refine simInv_record ?_ _ tradeId
    split
    · exact simInv_adjust (hcross _) hk (keepsSize_addSizeBehind _) price
    · exact hcross _

/-- The handler of level updates. -/
theorem simInv_onL2Update (isBuy isBbo isReduced : Bool) (price : MD.Price)
    (deltaSize : Nat) (reason : DeltaReasonCode) (best : MD.L2Quote) :
    (s.withSession (ss.onL2Update s.order ss.ts esi isBuy isBbo isReduced
      price deltaSize reason best)).SimInv := by
  unfold L2SimSession.onL2Update
  have hts : ∀ k : Container, (ss.sizeUpdateHelper esi k price deltaSize
      reason isReduced).ts = ss.ts := by
    intro k
    cases reason <;> cases isReduced <;> rfl
  split
  · exact h
  · dsimp only
    split
    · have hsize := simInv_sizeUpdateHelper h esi (k := .bids) rfl
        price deltaSize reason isReduced
      split
      · rw [← hts .bids]
        exact simInv_crossHelper_live hsize hup esi rfl rfl
      · exact hsize
    · have hsize := simInv_sizeUpdateHelper h esi (k := .asks) rfl
        price deltaSize reason isReduced
      split
      · rw [← hts .asks]
        exact simInv_crossHelper_live hsize hup esi rfl rfl
      · exact hsize

/-- A print that crosses auction orders. -/
theorem simInv_onCross (price : MD.Price) (size : Nat) (type : CrossType)
    (huntouched : ∀ k ∈ crossed ss.mic type, ∀ y ∈ (ss.books esi).orders k,
      (s.withSession ss).Untouched (dueAt (ss.ts + ss.ackLatency) 0)
        y.2.order) :
    (s.withSession (match ss.mic with
      | .xnys => ss.handleNyseCross s.order ss.ts esi price size type
      | .xnas => ss.handleNasdaqCross s.order ss.ts esi price size type
      | .other => ss)).SimInv := by
  -- whatever pair of containers is crossed
  have hboth : ∀ {k k' : Container} {x x' : Cross ω}, k ≠ k' →
      k.auction = true → k'.auction = true → x.cxlRemainder = true →
      x'.cxlRemainder = true → crossed ss.mic type = [k, k'] →
      (s.withSession (ss.crossBoth s.order ss.ts esi k k' x x')).SimInv := by
    intro k k' x x' hne hk hk' hx hx' hcrossed
    refine simInv_crossBoth h hup hne hk hk' hx hx' fun j hj => ?_
    refine huntouched j ?_
    rw [hcrossed]
    rcases hj with rfl | rfl
    · exact List.mem_cons_self
    · exact List.mem_cons_of_mem _ List.mem_cons_self
  cases hmic : ss.mic with
  | other => exact h
  | xnys =>
      rw [hmic] at hboth
      unfold L2SimSession.handleNyseCross
      dsimp only
      cases type with
      | closing => exact hboth nofun rfl rfl rfl rfl rfl
      | opening => exact hboth nofun rfl rfl rfl rfl rfl
      | other => exact h
  | xnas =>
      rw [hmic] at hboth
      unfold L2SimSession.handleNasdaqCross
      dsimp only
      cases type with
      | closing => exact hboth nofun rfl rfl rfl rfl rfl
      | opening => exact hboth nofun rfl rfl rfl rfl rfl
      | other => exact h

/-- The handler of trades, auctions among them. -/
theorem simInv_onTrade (tradeId : Nat) (price : MD.Price) (size : UInt64)
    (cross : Option CrossType)
    (huntouched : ∀ type, cross = some type →
      tradeId ∉ (ss.books esi).trades →
      ∀ k ∈ crossed ss.mic type, ∀ y ∈ (ss.books esi).orders k,
        (s.withSession ss).Untouched (dueAt (ss.ts + ss.ackLatency) 0)
          y.2.order) :
    (s.withSession (ss.onTrade s.order ss.ts esi tradeId price size
      cross)).SimInv := by
  have hinsert : ∀ {ss' : L2SimSession ω ι},
      (s.withSession ss').SimInv →
      (s.withSession (ss'.insertTrade esi tradeId)).SimInv :=
    fun {ss'} h' => simInv_record h' ss'.execThisPkt tradeId
  unfold L2SimSession.onTrade
  split
  case isTrue => exact h
  case isFalse hnew =>
    dsimp only
    cases cross with
    | some type =>
        exact simInv_onCross h hup price _ type (huntouched type rfl hnew)
    | none =>
        dsimp only
        split
        · have hbids := simInv_crossHelper_live h hup esi
            (k := .bids) rfl (x := plainCross (fun w =>
              L2SimSession.priceGE (MD.toDouble price) (s.order w))
              (MD.toDouble price) (u32 size.toNat)) rfl
          split
          · exact hbids
          · exact hinsert (simInv_crossHelper_live hbids hup esi rfl rfl)
        · exact hinsert h

end Market

omit [DecidableEq ω] in
/-- A book that is found is known, and its place in the session stays as it
is. -/
theorem findBookEntry_spec {ss ss' : L2SimSession ω ι} {esi : Nat}
    (hfind : ss.findBookEntry esi = some ss') :
    esi < ss.booksSize ∧ SameOrders ss ss' ∧ ss'.mic = ss.mic
      ∧ (ss'.books esi).trades = (ss.books esi).trades := by
  unfold L2SimSession.findBookEntry at hfind
  split at hfind
  case isTrue hknown =>
    cases hfind
    refine ⟨hknown, sameOrders_update _ rfl, rfl, ?_⟩
    show (Function.update ss.books esi _ esi).trades = _
    rw [Function.update_self]
  case isFalse => cases hfind

/-- What follows when the book is found. -/
theorem SimInv.onBook {s : L2Sim ω ι} (h : s.SimInv) {esi : Nat}
    {f : L2SimSession ω ι → L2SimSession ω ι}
    (hf : ∀ ss, s.session.findBookEntry esi = some ss →
      (s.withSession ss).SimInv → ss.ts = s.session.ts →
      (s.withSession (f ss)).SimInv) :
    (s.withSession (match s.session.findBookEntry esi with
      | none => s.session
      | some ss => f ss)).SimInv := by
  cases hfind : s.session.findBookEntry esi with
  | none => exact h
  | some ss =>
      obtain ⟨-, hsame, -⟩ := findBookEntry_spec hfind
      exact hf ss hfind (h.same hsame) hsame.ts

/-- The step lemma of market data. -/
theorem simInv_onMarketEvent [DecidableEq ι] {s : L2Sim ω ι} (h : s.SimInv)
    {ts esi : Nat} {e : MarketEvent}
    (hpossible : s.Possible (.market ts esi e))
    (hsound : s.Sound (.market ts esi e)) :
    (s.step (.market ts esi e)).SimInv := by
  obtain ⟨hup, rfl⟩ := hpossible
  show (s.withSession
    (s.session.onMarketEvent s.order s.session.ts esi e)).SimInv
  cases e with
  | tradingStatus session =>
      unfold L2SimSession.onMarketEvent
      dsimp only
      split
      · exact h.same (sameOrders_update _ rfl)
      · exact h
  | nasdaqImbalance direction shares =>
      exact h.same ⟨rfl, rfl, rfl, rfl, fun _ _ => rfl⟩
  | bookAdded side price size =>
      exact h.onBook fun ss _ h' _ => simInv_adjust h'
        (sideContainer_auction side) (keepsSize_addSizeBehind size) price
  | bookCanceled refnum side price size oldSize =>
      exact h.onBook fun ss _ h' _ => simInv_adjust h'
        (sideContainer_auction side) (keepsSize_reduceSizeFromBack _) price
  | bookModified side newPrice newSize oldRefnum oldPrice oldSize =>
      exact h.onBook fun ss _ h' _ => simInv_modifyOrderHelper h'
        (sideContainer_auction side) newPrice newSize oldPrice oldSize _
  | bookExecuted refnum side price size tradeId execPrice execSize oldSize =>
      refine h.onBook fun ss _ h' hts => ?_
      rw [← hts]
      exact simInv_onBookExecuted h' hup refnum side price size tradeId
        execPrice execSize oldSize
  | l2Update isBuy isBbo isReduced price deltaSize reason best =>
      refine h.onBook fun ss _ h' hts => ?_
      rw [← hts]
      exact simInv_onL2Update h' hup isBuy isBbo isReduced price deltaSize
        reason best
  | trade tradeId price size cross =>
      refine h.onBook fun ss hfind h' hts => ?_
      obtain ⟨hknown, hsame, hmic, htrades⟩ := findBookEntry_spec hfind
      rw [← hts]
      refine simInv_onTrade h' hup tradeId price size cross ?_
      intro type hcross hnew k hk y hy
      rw [hcross] at hsound
      rw [hmic] at hk
      rw [htrades] at hnew
      rw [hsame.books] at hy
      have hold := hsound hknown hnew k hk y hy
      rw [hsame.ts, hsame.ackLatency]
      refine ⟨hold.cancelledSize, hold.state, ?_, ?_⟩
      · show ∀ q ∈ ss.eventq, _
        rw [hsame.eventq]
        exact hold.cancelled
      · show ∀ q ∈ ss.eventq, _
        rw [hsame.eventq]
        exact hold.rejected

end L2Sim

end TradingEngine.OE
