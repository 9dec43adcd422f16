/-
Whether a trade is used once.

# Seen

Once a book has a trade's id on record, an event with that id finds the
session as it leaves it (`step_of_seen`), and no step takes an id off the
record (`seen_step`).

# Not recorded

`on_book_executed` always records the id. `on_trade` returns before it does
when the trade is a cross print, and when bids were filled, so that what
carries the id next is used again (`mem_trades_onTrade`). As long as that is
not the id of an event that comes later, every trade is used once
(`trade_used_once`).
-/
import TradingEngine.OE.Proofs.L2SimFrames
import TradingEngine.OE.Proofs.L2Sim

namespace TradingEngine.OE

variable {ω ι : Type}

-- ==================================================================== records

namespace L2SimSession

/-- What is known of a trade stays known. -/
structure KeepsTrades (ss ss' : L2SimSession ω ι) : Prop where
  size : ss.booksSize ≤ ss'.booksSize
  bookP : ∀ esi, (ss.books esi).bookP = true → (ss'.books esi).bookP = true
  trades : ∀ esi, ∀ id ∈ (ss.books esi).trades, id ∈ (ss'.books esi).trades

/-- The books are not touched. -/
theorem KeepsTrades.of_books {ss ss' : L2SimSession ω ι}
    (hsize : ss.booksSize ≤ ss'.booksSize) (hbooks : ss'.books = ss.books) :
    KeepsTrades ss ss' :=
  ⟨hsize, fun _ h => hbooks ▸ h, fun _ _ h => hbooks ▸ h⟩

/-- Nothing is done. -/
theorem KeepsTrades.refl (ss : L2SimSession ω ι) : KeepsTrades ss ss :=
  .of_books (Nat.le_refl _) rfl

/-- Over several steps of a handler. -/
theorem KeepsTrades.trans {ss ss' ss'' : L2SimSession ω ι}
    (h : KeepsTrades ss ss') (h' : KeepsTrades ss' ss'') :
    KeepsTrades ss ss'' where
  size := Nat.le_trans h.size h'.size
  bookP esi hp := h'.bookP esi (h.bookP esi hp)
  trades esi id hid := h'.trades esi id (h.trades esi id hid)

/-- One book is written. -/
theorem keepsTrades_update (ss : L2SimSession ω ι) (esi : Nat)
    {b : BookEntry ω} (hbookP : (ss.books esi).bookP = true → b.bookP = true)
    (htrades : ∀ id ∈ (ss.books esi).trades, id ∈ b.trades) :
    KeepsTrades ss { ss with books := Function.update ss.books esi b } := by
  refine ⟨Nat.le_refl _, fun esi' h => ?_, fun esi' id h => ?_⟩
  · show (Function.update ss.books esi b esi').bookP = true
    by_cases hesi : esi' = esi
    · subst hesi
      rw [Function.update_self]
      exact hbookP h
    · rw [Function.update_of_ne hesi]
      exact h
  · show id ∈ (Function.update ss.books esi b esi').trades
    by_cases hesi : esi' = esi
    · subst hesi
      rw [Function.update_self]
      exact htrades id h
    · rw [Function.update_of_ne hesi]
      exact h

/-- A container is not the record of trades. -/
theorem keepsTrades_setOrders (ss : L2SimSession ω ι) (esi : Nat)
    (k : Container) (c : OrderContainer ω) :
    KeepsTrades ss (ss.setOrders esi k c) :=
  keepsTrades_update ss esi (fun h => h) fun _ h => h

/-- Market data takes no id off the record. -/
theorem marketFrame_keepsTrades (ts esi : Nat) (ks : List Container) :
    MarketFrame ts esi ks (KeepsTrades (ω := ω) (ι := ι)) where
  refl := .refl
  trans := .trans
  thinned ss k c _ _ _ := (keepsTrades_setOrders ss esi k c).trans
    (.of_books (Nat.le_refl _) rfl)
  found ss := keepsTrades_update ss esi (fun _ => rfl) fun _ h => h
  status ss _ := keepsTrades_update ss esi (fun h => h) fun _ h => h
  seen ss _ := keepsTrades_update ss esi (fun h => h)
    fun _ h => List.mem_cons_of_mem _ h
  executed _ _ := .of_books (Nat.le_refl _) rfl
  imbalance _ _ := .of_books (Nat.le_refl _) rfl

/-- Nor does an arrival. -/
theorem arrivalFrame_keepsTrades (o : Order ι) (ts : Nat)
    (se : SimEvent ω) : ArrivalFrame o ts se KeepsTrades where
  refl := .refl
  trans := .trans
  recorded _ := .of_books (Nat.le_refl _) rfl
  answered _ _ _ _ _ _ _ _ := .of_books (Nat.le_refl _) rfl
  placed ss k _ _ _ _ _ := keepsTrades_setOrders ss se.esi k _

/-- Nor a request. -/
theorem requestFrame_keepsTrades (ts : Nat) (se : SimEvent ω) :
    RequestFrame ts se (KeepsTrades (ω := ω) (ι := ι)) where
  trans := .trans
  thinned ss k c _ _ := keepsTrades_setOrders ss se.esi k c
  rejected _ := .of_books (Nat.le_refl _) rfl
  cancelled _ _ := .of_books (Nat.le_refl _) rfl

end L2SimSession

namespace L2Sim

open L2SimSession (AvailSize Cross KeepsTrades crossEntry crossLoop
  arrivalFrame_keepsTrades marketFrame_keepsTrades
  requestFrame_keepsTrades plainCross priceGE
  sideContainer)

variable [DecidableEq ω] [DecidableEq ι]

/-- No input forgets a trade. -/
theorem keepsTrades_step (s : L2Sim ω ι) (i : Input ω ι) :
    KeepsTrades s.session (s.step i).session :=
  SessionFrame.step
    { market := marketFrame_keepsTrades
      arrival := arrivalFrame_keepsTrades
      request := requestFrame_keepsTrades
      erased := fun _ _ => .of_books (Nat.le_refl _) rfl
      emplaced := fun _ _ _ => .of_books (Nat.le_refl _) rfl
      clock := fun _ _ _ => .of_books (Nat.le_refl _) rfl
      symbol := fun _ _ _ => .of_books (Nat.le_max_left _ _) rfl } s i

-- ====================================================================== seen

/-- The book is known, and has the trade on record. -/
structure Seen (s : L2Sim ω ι) (esi id : Nat) : Prop where
  known : esi < s.session.booksSize
  bookP : (s.session.books esi).bookP = true
  recorded : id ∈ (s.session.books esi).trades

/-- What is seen stays seen. -/
theorem seen_step {s : L2Sim ω ι} {esi id : Nat} (h : s.Seen esi id)
    (i : Input ω ι) : (s.step i).Seen esi id := by
  have hkeeps := keepsTrades_step s i
  exact ⟨Nat.lt_of_lt_of_le h.known hkeeps.size, hkeeps.bookP esi h.bookP,
    hkeeps.trades esi id h.recorded⟩

/-- The event carries the trade's id. -/
def carries (id : Nat) : MarketEvent → Bool
  | .bookExecuted _ _ _ _ tradeId _ _ _ => tradeId = id
  | .trade tradeId _ _ _ => tradeId = id
  | _ => false

/-- It is an execution or a trade with the id, for the book. -/
def Uses (esi id : Nat) : Input ω ι → Bool
  | .market _ esi' e => esi' = esi && carries id e
  | _ => false

/-- A trade that was seen is not used again. -/
theorem step_of_seen {s : L2Sim ω ι} {esi id : Nat} (h : s.Seen esi id)
    {i : Input ω ι} (hi : Uses esi id i) : s.step i = s := by
  cases i with
  | market ts esi' e =>
      unfold Uses at hi
      rw [Bool.and_eq_true, decide_eq_true_eq] at hi
      obtain ⟨rfl, hcarries⟩ := hi
      -- marking the book once more changes nothing
      have hfound : s.session.findBookEntry esi' = some s.session := by
        unfold L2SimSession.findBookEntry
        rw [if_pos h.known, ← h.bookP, Function.update_eq_self]
      show { s with
        session := s.session.onMarketEvent s.order ts esi' e } = s
      suffices hsame : s.session.onMarketEvent s.order ts esi' e
          = s.session by rw [hsame]
      unfold L2SimSession.onMarketEvent
      cases e with
      | bookExecuted refnum side price size tradeId execPrice execSize
          oldSize =>
          obtain rfl : tradeId = id := of_decide_eq_true hcarries
          rw [hfound]
          exact if_pos h.recorded
      | trade tradeId price size cross =>
          obtain rfl : tradeId = id := of_decide_eq_true hcarries
          rw [hfound]
          exact if_pos h.recorded
      | _ => cases hcarries
  | _ => cases hi

-- ============================================================== not recorded

/-- The trade fills a bid: one at least as good as its price, with nobody
ahead of it. -/
def FillsBid (s : L2Sim ω ι) (esi : Nat) (price : MD.Price) (size : UInt64) :
    Prop :=
  u32 size.toNat ≠ 0 ∧ ∃ y ∈ (s.session.books esi).orders .bids,
    priceGE (MD.toDouble price) (s.order y.2.order) = true
      ∧ y.2.sizeAhead = 0 ∧ y.2.remains ≠ 0

/-- `on_trade` returns before it records the trade: it is a cross print, or
fills a bid. -/
def LeavesOut (s : L2Sim ω ι) : Input ω ι → Prop
  | .market _ esi (.trade tradeId price size cross) =>
      tradeId ∉ (s.session.books esi).trades
        ∧ (cross.isSome = true ∨ s.FillsBid esi price size)
  | _ => False

/-- What the events fill. -/
def filled (es : List (SimEvent ω)) : Nat :=
  ((es.filter fun e => e.state = .filled).map fun e => e.size).sum

omit [DecidableEq ω] [DecidableEq ι] in
/-- What is filled by two lists of events. -/
theorem filled_append (es es' : List (SimEvent ω)) :
    filled (es ++ es') = filled es + filled es' := by
  unfold filled
  rw [List.filter_append, List.map_append, List.sum_append]

section Fills

variable (order : ω → Order ι) (esi : Nat) (check : ω → Bool) (ref : Rat)
  (m : Nat)

omit [DecidableEq ω] [DecidableEq ι] in
/-- A pass of a cross in the day. -/
theorem crossEntry_plain (avail : Nat) (o : SimOrder ω) :
    filled (crossEntry order esi (plainCross check ref m) ⟨avail, 0⟩ o).2.1
        = (if check o.order = true ∧ avail ≠ 0 ∧ o.sizeAhead = 0 then
            min o.remains avail else 0)
      ∧ (crossEntry order esi (plainCross check ref m) ⟨avail, 0⟩ o).2.2
        = ⟨avail - (if check o.order = true ∧ avail ≠ 0
            ∧ o.sizeAhead = 0 then min o.remains avail else 0), 0⟩ := by
  unfold crossEntry plainCross AvailSize.get AvailSize.remove filled
  by_cases hcheck : check o.order = true <;> by_cases havail : avail = 0 <;>
    by_cases hahead : o.sizeAhead = 0 <;>
    simp [hcheck, havail, hahead] <;> split <;> simp

omit [DecidableEq ω] [DecidableEq ι] in
/-- A cross in the day fills nothing exactly if it finds nothing to
fill. -/
theorem crossLoop_fills_iff (avail : Nat) (c : OrderContainer ω) :
    filled (crossLoop order esi (plainCross check ref m) ⟨avail, 0⟩ c).2 ≠ 0
      ↔ avail ≠ 0 ∧ ∃ y ∈ c, check y.2.order = true ∧ y.2.sizeAhead = 0
        ∧ y.2.remains ≠ 0 := by
  induction c with
  | nil => simp [crossLoop, filled]
  | cons y c ih =>
      obtain ⟨p, o⟩ := y
      obtain ⟨hfilled, hleft⟩ :=
        crossEntry_plain order esi check ref m avail o
      unfold crossLoop
      dsimp only
      rw [filled_append, hfilled, hleft]
      by_cases hfill : check o.order = true ∧ avail ≠ 0 ∧ o.sizeAhead = 0
          ∧ o.remains ≠ 0
      · -- this one is filled
        obtain ⟨hcheck, havail, hahead, hremains⟩ := hfill
        rw [if_pos ⟨hcheck, havail, hahead⟩]
        refine iff_of_true (by omega) ⟨havail, (p, o), List.mem_cons_self,
          hcheck, hahead, hremains⟩
      · -- and else nothing is taken
        have hzero : (if check o.order = true ∧ avail ≠ 0 ∧ o.sizeAhead = 0
            then min o.remains avail else 0) = 0 := by
          split
          case isTrue h =>
            have hremains : o.remains = 0 := by
              by_contra hne
              exact hfill ⟨h.1, h.2.1, h.2.2, hne⟩
            rw [hremains]
            exact Nat.zero_min _
          case isFalse => rfl
        rw [hzero, Nat.zero_add, Nat.sub_zero, ih]
        refine and_congr_right fun havail => ?_
        simp only [List.mem_cons, exists_eq_or_imp]
        refine (or_iff_right ?_).symm
        rintro ⟨hcheck, hahead, hremains⟩
        exact hfill ⟨hcheck, havail, hahead, hremains⟩

end Fills

omit [DecidableEq ω] [DecidableEq ι] in
/-- A cross records nothing. -/
theorem trades_crossHelper (ss : L2SimSession ω ι) (order : ω → Order ι)
    (esi : Nat) (k : Container) (x : Cross ω) (ts : Nat) :
    ((ss.crossHelper order esi k x ts).1.books esi).trades
      = (ss.books esi).trades := by
  show (Function.update ss.books esi _ esi).trades = _
  rw [Function.update_self]

omit [DecidableEq ω] [DecidableEq ι] in
/-- Nor does one of two containers. -/
theorem trades_crossBoth (ss : L2SimSession ω ι) (order : ω → Order ι)
    (esi ts : Nat) (k k' : Container) (bidCross askCross : Cross ω) :
    ((ss.crossBoth order ts esi k k' bidCross askCross).books esi).trades
      = (ss.books esi).trades :=
  (trades_crossHelper ..).trans (trades_crossHelper ..)

omit [DecidableEq ω] [DecidableEq ι] in
/-- An id that is inserted is on record. -/
theorem mem_insertTrade (ss : L2SimSession ω ι) (esi tradeId : Nat) :
    tradeId ∈ ((ss.insertTrade esi tradeId).books esi).trades := by
  show tradeId ∈ (Function.update ss.books esi _ esi).trades
  rw [Function.update_self]
  exact List.mem_cons_self

omit [DecidableEq ω] [DecidableEq ι] in
/-- `on_trade` records the id, or returns before it. -/
theorem mem_trades_onTrade (ss : L2SimSession ω ι) (order : ω → Order ι)
    (ts esi tradeId : Nat) (price : MD.Price) (size : UInt64)
    (cross : Option CrossType) :
    tradeId ∈ ((ss.onTrade order ts esi tradeId price size cross).books
        esi).trades
      ↔ tradeId ∈ (ss.books esi).trades ∨ (cross = none
        ∧ ¬ (u32 size.toNat ≠ 0 ∧ ∃ y ∈ (ss.books esi).orders .bids,
          priceGE (MD.toDouble price) (order y.2.order) = true
            ∧ y.2.sizeAhead = 0 ∧ y.2.remains ≠ 0)) := by
  unfold L2SimSession.onTrade
  by_cases hseen : tradeId ∈ (ss.books esi).trades
  · rw [if_pos hseen]
    exact iff_of_true hseen (.inl hseen)
  rw [if_neg hseen, or_iff_right hseen]
  dsimp only
  cases cross with
  | some type =>
      refine iff_of_false ?_ nofun
      dsimp only
      split
      · unfold L2SimSession.handleNyseCross
        cases type <;> dsimp only
        · rwa [trades_crossBoth]
        · rwa [trades_crossBoth]
        · exact hseen
      · unfold L2SimSession.handleNasdaqCross
        cases type <;> dsimp only
        · rwa [trades_crossBoth]
        · rwa [trades_crossBoth]
        · exact hseen
      · exact hseen
  | none =>
      rw [and_iff_right rfl]
      have hfills := crossLoop_fills_iff order esi
        (fun w => priceGE (MD.toDouble price) (order w)) (MD.toDouble price)
        (u32 size.toNat) (u32 size.toNat) ((ss.books esi).orders .bids)
      dsimp only
      split
      case isTrue =>
        split
        case isTrue hsum =>
          rw [trades_crossHelper]
          exact iff_of_false hseen (not_not.mpr (hfills.mp hsum))
        case isFalse hsum =>
          exact iff_of_true (mem_insertTrade ..) fun h =>
            hsum (hfills.mpr h)
      case isFalse hempty =>
        refine iff_of_true (mem_insertTrade ..) ?_
        rintro ⟨-, y, hy, -⟩
        exact hempty (.inl (List.ne_nil_of_mem hy))

/-- An execution or a trade that is not left out is on record
afterwards. -/
theorem seen_of_use {s : L2Sim ω ι} {esi id : Nat}
    (hknown : esi < s.session.booksSize) {i : Input ω ι}
    (hi : Uses esi id i) (hrecords : ¬ s.LeavesOut i) :
    (s.step i).Seen esi id := by
  cases i with
  | market ts esi' e =>
      unfold Uses at hi
      rw [Bool.and_eq_true, decide_eq_true_eq] at hi
      obtain ⟨rfl, hcarries⟩ := hi
      -- the book is found, and marked
      obtain ⟨ss, hfound, hsize, hbook⟩ : ∃ ss,
          s.session.findBookEntry esi' = some ss
            ∧ ss.booksSize = s.session.booksSize
            ∧ ss.books esi' = { s.session.books esi' with bookP := true } :=
        ⟨_, if_pos hknown, rfl, Function.update_self ..⟩
      have hseen : ∀ ss', KeepsTrades ss ss' → id ∈ (ss'.books esi').trades →
          s.session.onMarketEvent s.order ts esi' e = ss' →
          (s.step (.market ts esi' e)).Seen esi' id := by
        rintro ss' hkeeps hid hss'
        show Seen { s with
          session := s.session.onMarketEvent s.order ts esi' e } esi' id
        rw [hss']
        refine ⟨?_, hkeeps.bookP esi' ?_, hid⟩
        · exact Nat.lt_of_lt_of_le hknown (hsize ▸ hkeeps.size)
        · rw [hbook]
      unfold L2SimSession.onMarketEvent at hseen
      cases e with
      | bookExecuted refnum side price size tradeId execPrice execSize
          oldSize =>
          obtain rfl : tradeId = id := of_decide_eq_true hcarries
          rw [hfound] at hseen
          refine hseen _ ((marketFrame_keepsTrades ts esi'
            [.bids, .asks]).onBookExecuted (by rintro ⟨⟩ <;> simp
              [sideContainer]) ss _ _ _ _ _ _ _ _) ?_ rfl
          unfold L2SimSession.onBookExecuted
          split
          case isTrue h => exact h
          case isFalse => exact mem_insertTrade ..
      | trade tradeId price size cross =>
          obtain rfl : tradeId = id := of_decide_eq_true hcarries
          rw [hfound] at hseen
          refine hseen _ ((marketFrame_keepsTrades ts esi' _).onTrade ss _ _
            _ _ fun _ h => h) ?_ rfl
          rw [mem_trades_onTrade, hbook]
          by_contra hnot
          rw [not_or] at hnot
          refine hrecords ⟨hnot.1, ?_⟩
          cases cross with
          | some type => exact .inl rfl
          | none => exact .inr (not_not.mp fun h => hnot.2 ⟨rfl, h⟩)
      | _ => cases hcarries
  | _ => cases hi

-- ==================================================================== a run

/-- An event with this id that finds its book is not left out. -/
def RecordsId (esi id : Nat) (s : L2Sim ω ι) (i : Input ω ι) : Prop :=
  Uses esi id i → esi < s.session.booksSize → ¬ s.LeavesOut i

/-- A trade is used once, if the events of its id are not left out: later
executions and trades with the id change nothing at all. -/
theorem trade_used_once {s : L2Sim ω ι} {esi id : Nat}
    {before between : List (Input ω ι)} {i j : Input ω ι}
    (hrecords : Lib.Admits step (RecordsId esi id) s
      (before ++ i :: between))
    (hknown : esi < (Lib.run step s before).session.booksSize)
    (hi : Uses esi id i) (hj : Uses esi id j) :
    Lib.run step s (before ++ i :: between ++ [j])
      = Lib.run step s (before ++ i :: between) := by
  obtain ⟨-, hrest⟩ := Lib.admits_append.mp hrecords
  have hfirst : ((Lib.run step s before).step i).Seen esi id :=
    seen_of_use hknown hi (hrest.1 hi hknown)
  have hseen : (Lib.run step s (before ++ i :: between)).Seen esi id := by
    rw [Lib.run_append, Lib.run_cons]
    exact Lib.run_induction (I := fun s : L2Sim ω ι => s.Seen esi id)
      (fun _ i h => seen_step h i) hfirst
  rw [Lib.run_append, Lib.run_cons, Lib.run_nil]
  exact step_of_seen hseen hj

instance (s : L2Sim ω ι) (esi : Nat) (price : MD.Price) (size : UInt64) :
    Decidable (s.FillsBid esi price size) :=
  inferInstanceAs (Decidable (_ ∧ _))

instance (s : L2Sim ω ι) (i : Input ω ι) : Decidable (s.LeavesOut i) :=
  match i with
  | .market _ _ (.trade _ _ _ _) => inferInstanceAs (Decidable (_ ∧ _))
  | .market _ _ (.tradingStatus _) => .isFalse nofun
  | .market _ _ (.bookAdded ..) => .isFalse nofun
  | .market _ _ (.bookCanceled ..) => .isFalse nofun
  | .market _ _ (.bookModified ..) => .isFalse nofun
  | .market _ _ (.bookExecuted ..) => .isFalse nofun
  | .market _ _ (.l2Update ..) => .isFalse nofun
  | .market _ _ (.nasdaqImbalance ..) => .isFalse nofun
  | .send _ _ => .isFalse nofun
  | .cancel _ _ => .isFalse nofun
  | .startOfData _ => .isFalse nofun
  | .turn _ _ => .isFalse nofun
  | .endOfUpdate => .isFalse nofun
  | .symbolDefinition _ _ => .isFalse nofun

instance (esi id : Nat) (s : L2Sim ω ι) (i : Input ω ι) :
    Decidable (RecordsId esi id s i) :=
  inferInstanceAs (Decidable (_ → _ → ¬ _))

/-- A bid of ten at 10, with nobody ahead of it. -/
def demoBid : List (Input Nat Nat) :=
  demoSend ++ [.turn 0 noOffer, .turn 0 noOffer, .endOfUpdate]

/-- An execution and then a trade with its id, while the bid rests. -/
theorem trade_used_once_demo :
    Lib.run step (start (.plain fun _ : Nat => demoParams 10 .limit)
        (.create [66] .xnas 1 1 fun _ => false))
      (demoBid ++ .market 10 0 (.bookExecuted 1 .sell 100000 0 7 100000 4 4)
        :: [] ++ [.market 10 0 (.trade 7 100000 4 none)])
    = Lib.run step (start (.plain fun _ : Nat => demoParams 10 .limit)
        (.create [66] .xnas 1 1 fun _ => false))
      (demoBid ++ .market 10 0 (.bookExecuted 1 .sell 100000 0 7 100000 4 4)
        :: []) :=
  @trade_used_once Nat Nat _ _ _ 0 7 _ _ _ _ (by decide +kernel)
    (by decide +kernel) (by decide +kernel) (by decide +kernel)

/-- A trade that fills a bid fills it again when it comes again. -/
theorem trade_used_twice :
    ¬ ∀ (c : OrderManagerConf Nat Nat) (name : Bytes) (mic : SimMarket)
      (ackLatency cxlLatency : Nat) (imbalanceOnly : Nat → Bool)
      (before between : List (Input Nat Nat)) (i j : Input Nat Nat)
      (esi id : Nat),
      Lib.Admits step Possible (start c (.create name mic ackLatency
        cxlLatency imbalanceOnly)) (before ++ i :: between ++ [j]) →
      esi < (Lib.run step (start c (.create name mic ackLatency cxlLatency
        imbalanceOnly)) before).session.booksSize →
      Uses esi id i → Uses esi id j →
      (Lib.run step (start c (.create name mic ackLatency cxlLatency
        imbalanceOnly)) (before ++ i :: between ++ [j])).session.eventq
      = (Lib.run step (start c (.create name mic ackLatency cxlLatency
        imbalanceOnly)) (before ++ i :: between)).session.eventq := by
  intro h
  have htwice := h (.plain fun _ => demoParams 10 .limit) [66] .xnas 1 1
    (fun _ => false) demoBid [] (.market 10 0 (.trade 7 100000 4 none))
    (.market 10 0 (.trade 7 100000 4 none)) 0 7 (by decide +kernel)
    (by decide +kernel) (by decide +kernel) (by decide +kernel)
  revert htwice
  decide +kernel

end L2Sim

end TradingEngine.OE
