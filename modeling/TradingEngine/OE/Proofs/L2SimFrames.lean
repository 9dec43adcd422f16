/-
What market data may do to a simulated session.

Every handler is a sequence of a few changes: a container is gone through,
with events for what it traded, or one of the session's records is written.
`MarketFrame` lists them, and a relation that holds across each holds
across every handler (`MarketFrame.onMarketEvent`), so that a fact about
all of market data is proved change by change.

A handler goes through containers of one book only, and `touched` says
which.

# The other inputs

What arrives, requests for cancels, and inputs of the session are listed the
same way (`ArrivalFrame`, `RequestFrame`, `SessionFrame`). A module that
needs a fact about all inputs shows it for each change, and has it for every
run: the clock, the record of trades and the places of orders go this way.
-/
import TradingEngine.OE.Proofs.L2SimMarket

namespace TradingEngine.OE

open TradingEngine.MD (L2Quote)

variable {ω ι : Type}

-- ============================================================== a container

/-- The prices of a container, with the orders there. -/
def keys (c : OrderContainer ω) : List (Rat × ω) :=
  c.map fun x => (x.1, x.2.order)

/-- A container is gone through: orders may go, none comes, and the events
are fills and cancels of orders that were there. -/
structure Thins (c c' : OrderContainer ω) (es : List (SimEvent ω)) :
    Prop where
  keys : (keys c').Sublist (keys c)
  events : ∀ e ∈ es, (e.state = .filled ∨ e.state = .cancelled)
    ∧ ∃ p, (p, e.order) ∈ OE.keys c
  positive : (∀ x ∈ c, 0 < x.2.remains) → ∀ x ∈ c', 0 < x.2.remains

/-- An entry, by its price and order. -/
theorem mem_keys {c : OrderContainer ω} {p : Rat} {w : ω} :
    (p, w) ∈ keys c ↔ ∃ o, (p, o) ∈ c ∧ o.order = w := by
  unfold keys
  rw [List.mem_map]
  constructor
  · rintro ⟨⟨p', o⟩, hmem, heq⟩
    cases heq
    exact ⟨o, hmem, rfl⟩
  · rintro ⟨o, hmem, rfl⟩
    exact ⟨(p, o), hmem, rfl⟩

/-- Nothing goes. -/
theorem Thins.refl (c : OrderContainer ω) : Thins c c [] :=
  ⟨.refl _, nofun, fun h => h⟩

/-- One entry stays as the order it is of. -/
theorem Thins.kept {c c' : OrderContainer ω} {es' : List (SimEvent ω)}
    (h : Thins c c' es') (es : List (SimEvent ω)) {p : Rat}
    {o o' : SimOrder ω}
    (horder : o'.order = o.order)
    (hes : ∀ e ∈ es, (e.state = .filled ∨ e.state = .cancelled)
      ∧ e.order = o.order)
    (hpos : 0 < o.remains → 0 < o'.remains) :
    Thins ((p, o) :: c) ((p, o') :: c') (es ++ es') where
  keys := by
    unfold OE.keys
    rw [List.map_cons, List.map_cons, horder]
    exact h.keys.cons_cons _
  events e he := by
    rcases List.mem_append.mp he with he | he
    · exact ⟨(hes e he).1, p, mem_keys.mpr
        ⟨o, List.mem_cons_self, (hes e he).2.symm⟩⟩
    · obtain ⟨hstate, p', hmem⟩ := h.events e he
      exact ⟨hstate, p', List.mem_cons_of_mem _ hmem⟩
  positive hall x hx := by
    rcases List.mem_cons.mp hx with rfl | hx
    · exact hpos (hall _ List.mem_cons_self)
    · exact h.positive (fun y hy => hall y (List.mem_cons_of_mem _ hy)) x hx

/-- Or it goes. -/
theorem Thins.gone {c c' : OrderContainer ω} {es' : List (SimEvent ω)}
    (h : Thins c c' es') (es : List (SimEvent ω)) {p : Rat} {o : SimOrder ω}
    (hes : ∀ e ∈ es, (e.state = .filled ∨ e.state = .cancelled)
      ∧ e.order = o.order) :
    Thins ((p, o) :: c) c' (es ++ es') where
  keys := h.keys.cons _
  events e he := by
    rcases List.mem_append.mp he with he | he
    · exact ⟨(hes e he).1, p, mem_keys.mpr
        ⟨o, List.mem_cons_self, (hes e he).2.symm⟩⟩
    · obtain ⟨hstate, p', hmem⟩ := h.events e he
      exact ⟨hstate, p', List.mem_cons_of_mem _ hmem⟩
  positive hall x hx :=
    h.positive (fun y hy => hall y (List.mem_cons_of_mem _ hy)) x hx

/-- The entry at a price is changed, or erased. -/
theorem thins_updateAt {c : OrderContainer ω} {price : Rat}
    {f : SimOrder ω → Option (SimOrder ω)}
    (hf : ∀ o o', c.find price = some o → f o = some o' →
      o'.order = o.order ∧ (0 < o.remains → 0 < o'.remains)) :
    Thins c (c.updateAt price f) [] := by
  induction c with
  | nil => exact .refl _
  | cons x c ih =>
      obtain ⟨p, o⟩ := x
      unfold OrderContainer.find at hf ih
      unfold OrderContainer.updateAt
      by_cases hp : p = price
      · rw [if_pos hp]
        cases hfo : f o with
        | none => exact (Thins.refl c).gone [] (List.forall_mem_nil _)
        | some o' =>
            obtain ⟨horder, hpos⟩ := hf o o' (by simp [hp]) hfo
            exact (Thins.refl c).kept [] horder (List.forall_mem_nil _) hpos
      · rw [if_neg hp]
        have hrest : Thins c (OrderContainer.updateAt price f c) [] := by
          refine ih fun o o' hfind hfo => hf o o' ?_ hfo
          rw [List.lookup_cons, beq_false_of_ne (Ne.symm hp)]
          exact hfind
        exact hrest.kept [] rfl (List.forall_mem_nil _) fun h => h

namespace L2SimSession

open L2Sim (crossed KeepsSize keepsSize_addSizeBehind
  keepsSize_reduceSizeFromBack keepsSize_reduceSizeFromFront)

variable {order : ω → Order ι} {esi : Nat}

variable (order esi) in
/-- A pass of `cross_helper`. -/
theorem crossEntry_thins (x : Cross ω) (a : AvailSize) (o : SimOrder ω) :
    (∀ e ∈ (crossEntry order esi x a o).2.1,
      (e.state = .filled ∨ e.state = .cancelled) ∧ e.order = o.order)
    ∧ ∀ o', (crossEntry order esi x a o).1 = some o' →
      o'.order = o.order ∧ (0 < o.remains → 0 < o'.remains) := by
  have hfill : ∀ n, ∀ e ∈ [(⟨.filled, o.order, esi, n, x.ref⟩ : SimEvent ω)],
      (e.state = .filled ∨ e.state = .cancelled) ∧ e.order = o.order := by
    intro n e he
    rw [List.mem_singleton.mp he]
    exact ⟨.inl rfl, rfl⟩
  have hcancel : ∀ n, ∀ e ∈ [(⟨.cancelled, o.order, esi, n, 0⟩ : SimEvent ω)],
      (e.state = .filled ∨ e.state = .cancelled) ∧ e.order = o.order := by
    intro n e he
    rw [List.mem_singleton.mp he]
    exact ⟨.inr rfl, rfl⟩
  have hkept : ∀ n, o.remains - n ≠ 0 → ∀ o' : SimOrder ω,
      some { o with remains := o.remains - n } = some o' →
      o'.order = o.order ∧ (0 < o.remains → 0 < o'.remains) := by
    rintro n hrest o' ⟨⟩
    exact ⟨rfl, fun _ => Nat.pos_of_ne_zero hrest⟩
  have hsame : ∀ o' : SimOrder ω, some o = some o' →
      o'.order = o.order ∧ (0 < o.remains → 0 < o'.remains) := by
    rintro o' ⟨⟩
    exact ⟨rfl, id⟩
  obtain ⟨r, hr⟩ : ∃ r, crossEntry order esi x a o = r := ⟨_, rfl⟩
  rw [hr]
  unfold crossEntry at hr
  by_cases hahead : o.sizeAhead = 0
  · simp only [if_pos hahead] at hr
    split at hr
    case isTrue =>
      split at hr
      case isTrue => exact hr ▸ ⟨hfill _, nofun⟩
      case isFalse hrest =>
        split at hr
        case isTrue =>
          refine hr ▸ ⟨fun e he => ?_, hkept _ hrest⟩
          rcases List.mem_append.mp he with he | he
          · exact hfill _ e he
          · exact hcancel _ e he
        case isFalse => exact hr ▸ ⟨hfill _, hkept _ hrest⟩
    case isFalse =>
      split at hr
      case isTrue => exact hr ▸ ⟨hcancel _, hsame⟩
      case isFalse => exact hr ▸ ⟨nofun, hsame⟩
  · simp only [if_neg hahead] at hr
    split at hr
    case isTrue =>
      split at hr
      case isTrue => exact hr ▸ ⟨nofun, nofun⟩
      case isFalse hrest =>
        split at hr
        case isTrue => exact hr ▸ ⟨hcancel _, hkept _ hrest⟩
        case isFalse => exact hr ▸ ⟨nofun, hkept _ hrest⟩
    case isFalse =>
      split at hr
      case isTrue => exact hr ▸ ⟨hcancel _, hsame⟩
      case isFalse => exact hr ▸ ⟨nofun, hsame⟩

/-- A crossing lets entries go and leaves events behind for them. -/
theorem thins_crossLoop (x : Cross ω) (a : AvailSize)
    (c : OrderContainer ω) :
    Thins c (crossLoop order esi x a c).1 (crossLoop order esi x a c).2 := by
  induction c generalizing a with
  | nil => exact .refl _
  | cons y c ih =>
      obtain ⟨p, o⟩ := y
      obtain ⟨hes, hkept⟩ := crossEntry_thins order esi x a o
      have hrest := ih (crossEntry order esi x a o).2.2
      unfold crossLoop
      dsimp only
      cases hr : (crossEntry order esi x a o).1 with
      | none => exact hrest.gone _ hes
      | some o' =>
          obtain ⟨horder, hpos⟩ := hkept o' hr
          exact hrest.kept _ horder hes hpos

/-- The fills of an entry are of its order. -/
theorem mem_execFills {w : ω} {ref : Rat} {avail remains : Nat}
    {e : SimEvent ω} (he : e ∈ execFills w esi ref avail remains) :
    e.state = .filled ∧ e.order = w := by
  induction remains using Nat.strongRecOn with
  | ind remains ih =>
      unfold execFills at he
      dsimp only at he
      split at he
      case isTrue =>
        rw [List.mem_singleton.mp he]
        exact ⟨rfl, rfl⟩
      case isFalse hrest =>
        rcases List.mem_cons.mp he with rfl | he
        · exact ⟨rfl, rfl⟩
        · exact ih _ (by omega) he

/-- The same for fills from an execution. -/
theorem thins_execCrossLoop (check : ω → Bool) (ref : Rat) (avail : Nat)
    (c : OrderContainer ω) :
    Thins c (execCrossLoop check esi ref avail c).1
      (execCrossLoop check esi ref avail c).2.1 := by
  induction c generalizing avail with
  | nil => exact .refl _
  | cons y c ih =>
      obtain ⟨p, o⟩ := y
      unfold execCrossLoop
      split
      case isFalse => exact .refl _
      case isTrue =>
        dsimp only
        split
        case isTrue =>
          refine (ih _).gone _ fun e he => ?_
          obtain ⟨hstate, horder⟩ := mem_execFills he
          exact ⟨.inl hstate, horder⟩
        case isFalse => exact (ih _).kept [] rfl (List.forall_mem_nil _) fun h => h

-- ==================================================================== frames

/-- A relation that holds across every change that market data of a time
makes to a session, if it goes through these containers of the book. -/
structure MarketFrame (ts esi : Nat) (ks : List Container)
    (R : L2SimSession ω ι → L2SimSession ω ι → Prop) : Prop where
  refl : ∀ ss, R ss ss
  trans : ∀ {ss ss' ss''}, R ss ss' → R ss' ss'' → R ss ss''
  /-- A container is gone through. -/
  thinned : ∀ ss k c es, k ∈ ks → Thins ((ss.books esi).orders k) c es →
    R ss ((ss.setOrders esi k c).emplaceAll (dueAt (ts + ss.ackLatency) 0)
      es)
  found : ∀ ss, R ss { ss with
    books := Function.update ss.books esi
      { ss.books esi with bookP := true } }
  status : ∀ ss session, R ss { ss with
    books := Function.update ss.books esi
      { ss.books esi with session := session } }
  seen : ∀ ss tradeId, R ss (ss.insertTrade esi tradeId)
  executed : ∀ ss f, R ss { ss with execThisPkt := f }
  imbalance : ∀ ss f, R ss { ss with lastNoii := f }

/-- The containers that an event goes through. -/
def touched (mic : SimMarket) : MarketEvent → List Container
  | .tradingStatus _ => []
  | .nasdaqImbalance _ _ => []
  | .trade _ _ _ (some type) => crossed mic type
  | _ => [.bids, .asks]

section Frame

variable {ts : Nat} {ks : List Container}
  {R : L2SimSession ω ι → L2SimSession ω ι → Prop}
  (h : MarketFrame ts esi ks R)

include h

/-- A change of places in the queue. -/
theorem MarketFrame.adjust {k : Container} (hk : k ∈ ks)
    (ss : L2SimSession ω ι) (price : MD.Price) {f : SimOrder ω → SimOrder ω}
    (hf : KeepsSize f) : R ss (ss.adjust esi k price f) := by
  have hthins : Thins ((ss.books esi).orders k)
      (((ss.books esi).orders k).updateAt (MD.toDouble price) fun o =>
        some (f o)) [] := by
    refine thins_updateAt ?_
    rintro o o' - ⟨⟩
    exact ⟨(hf o).1, fun hpos => (hf o).2 ▸ hpos⟩
  have hr := h.thinned ss k _ [] hk hthins
  unfold emplaceAll at hr
  rw [List.map_nil, List.append_nil] at hr
  exact hr

/-- A modified order of the market. -/
theorem MarketFrame.modifyOrderHelper {k : Container} (hk : k ∈ ks)
    (ss : L2SimSession ω ι) (newPrice : MD.Price) (newSize : Nat)
    (oldPrice : MD.Price) (oldSize deltaIfReduced : Nat) :
    R ss (ss.modifyOrderHelper esi k newPrice newSize oldPrice oldSize
      deltaIfReduced) := by
  unfold L2SimSession.modifyOrderHelper
  split
  · exact h.trans (h.adjust hk ss _ (keepsSize_reduceSizeFromBack _))
      (h.adjust hk _ _ (keepsSize_addSizeBehind _))
  · split
    · refine h.adjust hk ss _ fun o => ?_
      obtain ⟨horder, hremains⟩ := keepsSize_reduceSizeFromBack oldSize o
      exact ⟨horder, hremains⟩
    · exact h.adjust hk ss _ (keepsSize_reduceSizeFromBack _)

/-- A change of a level's size. -/
theorem MarketFrame.sizeUpdateHelper {k : Container} (hk : k ∈ ks)
    (ss : L2SimSession ω ι) (price : MD.Price) (deltaSize : Nat)
    (reason : DeltaReasonCode) (isReduced : Bool) :
    R ss (ss.sizeUpdateHelper esi k price deltaSize reason isReduced) := by
  unfold L2SimSession.sizeUpdateHelper
  cases reason with
  | none => exact h.refl ss
  | newOrder => exact h.adjust hk ss _ (keepsSize_addSizeBehind _)
  | cancel => exact h.adjust hk ss _ (keepsSize_reduceSizeFromBack _)
  | execution => exact h.adjust hk ss _ (keepsSize_reduceSizeFromFront _)
  | multipleEvents =>
      dsimp only
      split
      · exact h.adjust hk ss _ (keepsSize_reduceSizeFromBack _)
      · exact h.adjust hk ss _ (keepsSize_addSizeBehind _)

/-- One side crossed. -/
theorem MarketFrame.crossHelper {k : Container} (hk : k ∈ ks)
    (ss : L2SimSession ω ι) (x : Cross ω) :
    R ss (ss.crossHelper order esi k x ts).1 :=
  h.thinned ss k _ _ hk (thins_crossLoop x x.avail _)

/-- Both sides crossed. -/
theorem MarketFrame.crossBoth {k k' : Container} (hk : k ∈ ks)
    (hk' : k' ∈ ks) (ss : L2SimSession ω ι) (bidCross askCross : Cross ω) :
    R ss (ss.crossBoth order ts esi k k' bidCross askCross) :=
  h.trans (h.crossHelper hk ss bidCross) (h.crossHelper hk' _ askCross)

/-- The handler of executions, from the parts. -/
theorem MarketFrame.onBookExecuted (hks : ∀ side, sideContainer side ∈ ks)
    (ss : L2SimSession ω ι) (refnum : Nat) (side : MD.Side)
    (price : MD.Price) (size tradeId : Nat) (execPrice : MD.Price)
    (execSize oldSize : Nat) :
    R ss (ss.onBookExecuted order ts esi refnum side price size tradeId
      execPrice execSize oldSize) := by
  unfold L2SimSession.onBookExecuted
  split
  case isTrue => exact h.refl ss
  case isFalse =>
    dsimp only
    generalize hr : execCrossLoop _ esi _ execSize _ = r
    have hexec := h.thinned ss (sideContainer side) r.1 r.2.1 (hks side)
      (hr ▸ thins_execCrossLoop _ _ execSize _)
    generalize (ss.setOrders esi (sideContainer side) r.1).emplaceAll _ r.2.1
      = ss' at hexec ⊢
    have hsize : R ss' (if size > oldSize then
        ss'.adjust esi (sideContainer side) price
          (addSizeBehind (size - oldSize)) else ss') := by
      split
      · exact h.adjust (hks side) _ _ (keepsSize_addSizeBehind _)
      · exact h.refl ss'
    exact h.trans hexec (h.trans hsize
      (h.trans (h.executed _ _) (h.seen _ tradeId)))

/-- The handler of level updates. -/
theorem MarketFrame.onL2Update (hks : ∀ side, sideContainer side ∈ ks)
    (ss : L2SimSession ω ι) (isBuy isBbo isReduced : Bool)
    (price : MD.Price) (deltaSize : Nat) (reason : DeltaReasonCode)
    (best : L2Quote) :
    R ss (ss.onL2Update order ts esi isBuy isBbo isReduced price deltaSize
      reason best) := by
  unfold L2SimSession.onL2Update
  split
  case isTrue => exact h.refl ss
  case isFalse =>
    dsimp only
    split
    · have hsize := h.sizeUpdateHelper (hks .buy) ss price deltaSize reason
        isReduced
      split
      · exact h.trans hsize (h.crossHelper (hks .sell) _ _)
      · exact hsize
    · have hsize := h.sizeUpdateHelper (hks .sell) ss price deltaSize reason
        isReduced
      split
      · exact h.trans hsize (h.crossHelper (hks .buy) _ _)
      · exact hsize

/-- The handler of trades. -/
theorem MarketFrame.onTrade (ss : L2SimSession ω ι) (tradeId : Nat)
    (price : MD.Price) (size : UInt64) (cross : Option CrossType)
    (hks : ∀ k ∈ touched ss.mic (.trade tradeId price size cross), k ∈ ks) :
    R ss (ss.onTrade order ts esi tradeId price size cross) := by
  unfold L2SimSession.onTrade
  split
  case isTrue => exact h.refl ss
  case isFalse =>
    dsimp only
    cases cross with
    | none =>
        dsimp only
        split
        · split
          · exact h.crossHelper (hks .bids (by simp [touched])) ss _
          · exact h.trans
              (h.crossHelper (hks .bids (by simp [touched])) ss _)
              (h.trans (h.crossHelper (hks .asks (by simp [touched])) _ _)
                (h.seen _ tradeId))
        · exact h.seen ss tradeId
    | some type =>
        dsimp only
        unfold touched at hks
        cases hmic : ss.mic <;> rw [hmic] at hks
        · unfold L2SimSession.handleNyseCross
          dsimp only
          cases type
          · exact h.crossBoth (hks _ (by simp [crossed]))
              (hks _ (by simp [crossed])) ss _ _
          · exact h.crossBoth (hks _ (by simp [crossed]))
              (hks _ (by simp [crossed])) ss _ _
          · exact h.refl ss
        · unfold L2SimSession.handleNasdaqCross
          dsimp only
          cases type
          · exact h.crossBoth (hks _ (by simp [crossed]))
              (hks _ (by simp [crossed])) ss _ _
          · exact h.crossBoth (hks _ (by simp [crossed]))
              (hks _ (by simp [crossed])) ss _ _
          · exact h.refl ss
        · exact h.refl ss

/-- A book that is found is marked. -/
theorem MarketFrame.findBookEntry {ss ss' : L2SimSession ω ι}
    (hfind : ss.findBookEntry esi = some ss') : R ss ss' := by
  unfold L2SimSession.findBookEntry at hfind
  split at hfind
  · cases hfind
    exact h.found ss
  · cases hfind

/-- Where the book is not known nothing happens. -/
theorem MarketFrame.onBook (ss : L2SimSession ω ι)
    (f : L2SimSession ω ι → L2SimSession ω ι)
    (hf : ∀ ss', ss'.mic = ss.mic → R ss' (f ss')) :
    R ss (match ss.findBookEntry esi with
      | none => ss
      | some ss' => f ss') := by
  cases hfind : ss.findBookEntry esi with
  | none => exact h.refl ss
  | some ss' =>
      refine h.trans (h.findBookEntry hfind) (hf ss' ?_)
      unfold L2SimSession.findBookEntry at hfind
      split at hfind
      · cases hfind
        rfl
      · cases hfind

/-- Market data of the book. -/
theorem MarketFrame.onMarketEvent (ss : L2SimSession ω ι)
    (e : MarketEvent) (hks : ∀ k ∈ touched ss.mic e, k ∈ ks) :
    R ss (ss.onMarketEvent order ts esi e) := by
  have hside : touched ss.mic e = [.bids, .asks] →
      ∀ side, sideContainer side ∈ ks := by
    intro htouched side
    rw [htouched] at hks
    cases side
    · exact hks .bids (by simp)
    · exact hks .asks (by simp)
  unfold L2SimSession.onMarketEvent
  cases e with
  | tradingStatus session =>
      dsimp only
      split
      · exact h.status ss session
      · exact h.refl ss
  | bookAdded side price size =>
      exact h.onBook ss _ fun ss' _ => h.adjust (hside rfl side) ss' price
        (keepsSize_addSizeBehind size)
  | bookCanceled refnum side price size oldSize =>
      exact h.onBook ss _ fun ss' _ => h.adjust (hside rfl side) ss' price
        (keepsSize_reduceSizeFromBack _)
  | bookModified side newPrice newSize oldRefnum oldPrice oldSize =>
      exact h.onBook ss _ fun ss' _ => h.modifyOrderHelper (hside rfl side)
        ss' newPrice newSize oldPrice oldSize _
  | bookExecuted refnum side price size tradeId execPrice execSize
      oldSize =>
      exact h.onBook ss _ fun ss' _ => h.onBookExecuted (hside rfl) ss'
        refnum side price size tradeId execPrice execSize oldSize
  | l2Update isBuy isBbo isReduced price deltaSize reason best =>
      exact h.onBook ss _ fun ss' _ => h.onL2Update (hside rfl) ss' isBuy
        isBbo isReduced price deltaSize reason best
  | trade tradeId price size cross =>
      refine h.onBook ss (fun ss' => ss'.onTrade order ts esi tradeId price
        size cross) fun ss' hmic => ?_
      exact h.onTrade ss' tradeId price size cross (hmic ▸ hks)
  | nasdaqImbalance direction shares => exact h.imbalance ss _

end Frame

-- ================================================================== requests

/-- A cancel request takes something of an order, or nothing. -/
theorem thins_reduceHelper [DecidableEq ω] (c : OrderContainer ω)
    (price : Rat) (w : ω) (newqty : Nat) :
    Thins c (reduceHelper c price w newqty).2 [] := by
  unfold reduceHelper
  cases hfind : c.find price with
  | none => exact .refl c
  | some simo =>
      dsimp only
      split
      case isFalse => exact .refl c
      case isTrue =>
        split
        case isTrue => exact thins_updateAt nofun
        case isFalse =>
          split
          case isFalse => exact .refl c
          case isTrue hless =>
            refine thins_updateAt ?_
            rintro o o' ho ⟨⟩
            obtain rfl : simo = o := by
              rw [hfind] at ho
              exact Option.some.inj ho
            exact ⟨rfl, fun _ => Nat.sub_pos_of_lt hless⟩

/-- A relation that holds across every change that an arrival makes to a
session. -/
structure ArrivalFrame (o : Order ι) (ts : Nat) (se : SimEvent ω)
    (R : L2SimSession ω ι → L2SimSession ω ι → Prop) : Prop where
  refl : ∀ ss, R ss ss
  trans : ∀ {ss ss' ss''}, R ss ss' → R ss' ss'' → R ss ss''
  recorded : ∀ ss, R ss { ss with
    orders := Function.update ss.orders o.localID (some se.order) }
  /-- An answer, after one of the latencies. -/
  answered : ∀ ss latency index e,
    latency = ss.ackLatency ∨ latency = ss.cxlLatency →
    e.order = se.order → e.state ≠ .sent → e.state ≠ .pendingCancel →
    R ss (ss.emplace (dueAt (ts + latency) index) e)
  /-- The order goes into its container. -/
  placed : ∀ ss k price simo,
    (isAuction o = true → k = auctionContainer o ∧ price = auctionPrice o
      ∧ simo.remains = o.size) →
    (isAuction o = false → k = restingContainer o ∧ price = o.price
      ∧ 0 < simo.remains) →
    simo.order = se.order →
    R ss (ss.setOrders se.esi k
      (((ss.books se.esi).orders k).emplace k.before price simo))

section Arrival

variable {o : Order ι} {ts : Nat} {se : SimEvent ω}
  {R : L2SimSession ω ι → L2SimSession ω ι → Prop}
  (h : ArrivalFrame o ts se R)

include h

/-- An order that cannot rest is cancelled as it arrives. -/
theorem ArrivalFrame.cancelArrival (ss : L2SimSession ω ι) (remains : Nat) :
    R ss (ss.cancelArrival ts se remains) :=
  h.answered ss _ 0 _ (.inr rfl) rfl (by simp) (by simp)

/-- An order that arrives is acknowledged. -/
theorem ArrivalFrame.acknowledgeArrival (ss : L2SimSession ω ι) :
    R ss (ss.acknowledgeArrival ts se) :=
  h.answered ss _ 0 _ (.inl rfl) rfl (by simp) (by simp)

/-- An order arrives. -/
theorem ArrivalFrame.onOrderSent (ss : L2SimSession ω ι) (view : BookView) :
    R ss (ss.onOrderSent o ts se view).1 := by
  refine h.trans (h.recorded ss) ?_
  unfold L2SimSession.onOrderSent
  -- from here on the order is on record
  generalize ({ ss with
    orders := Function.update ss.orders o.localID (some se.order) } :
      L2SimSession ω ι) = ss
  dsimp only
  by_cases hauction : isAuction o = true
  · rw [if_pos hauction]
    by_cases hlate : tooLate o (ss.books se.esi).session = true
    · rw [if_pos hlate]
      exact h.cancelArrival ss _
    · rw [if_neg hlate]
      exact h.trans (h.placed ss _ _ _ (fun _ => ⟨rfl, rfl, rfl⟩)
        (fun hday => absurd hauction (Bool.eq_false_iff.mp hday)) rfl)
        (h.acknowledgeArrival _)
  rw [if_neg hauction]
  by_cases hbook : (ss.books se.esi).bookP = true
  case neg =>
    rw [if_neg hbook]
    exact h.cancelArrival ss _
  rw [if_pos hbook]
  by_cases htaken : priceTaken o (ss.books se.esi) = true
  · rw [if_pos htaken]
    exact h.cancelArrival ss _
  rw [if_neg htaken]
  -- after the fill, if there is one
  generalize (if crosses o view.best then
    min o.size (opposite o view.best).size.toNat else 0) = n
  obtain ⟨s, hs, hfill, hbooks⟩ : ∃ s : L2SimSession ω ι,
      (if crosses o view.best then
        (ss.acknowledgeArrival ts se).emplace (dueAt (ts + ss.ackLatency) 1)
          ⟨.filled, se.order, se.esi, n,
            MD.toDouble (opposite o view.best).price⟩ else ss) = s
      ∧ R ss s ∧ s.books = ss.books := by
    refine ⟨_, rfl, ?_⟩
    split
    · exact ⟨h.trans (h.acknowledgeArrival ss) (h.answered _ _ 1 _
        (.inl rfl) rfl (by simp) (by simp)), rfl⟩
    · exact ⟨h.refl ss, rfl⟩
  rw [hs]
  refine h.trans hfill ?_
  split
  case isTrue => exact h.answered s _ 1 _ (.inr rfl) rfl (by simp) (by simp)
  case isFalse =>
    split
    case isTrue => exact h.refl s
    case isFalse hrest =>
      split
      case isTrue => exact h.cancelArrival s _
      case isFalse =>
        have hremains : 0 < o.size - n := Nat.pos_of_ne_zero hrest
        have hplaced : ∀ s' : L2SimSession ω ι, s'.books = ss.books →
            ∀ sizeAhead, R s' (s'.setOrders se.esi (restingContainer o)
              (((ss.books se.esi).orders (restingContainer o)).emplace
                (restingContainer o).before o.price
                ⟨se.order, sizeAhead, 0, o.size - n⟩)) := by
          intro s' hs' sizeAhead
          rw [← hs']
          exact h.placed s' _ _ _ (fun ha => absurd ha hauction)
            (fun _ => ⟨rfl, rfl, hremains⟩) rfl
        dsimp only
        split
        · exact h.trans (h.acknowledgeArrival s)
            (hplaced (s.acknowledgeArrival ts se) hbooks _)
        · exact hplaced s hbooks _

end Arrival

/-- A relation that holds across every change that a cancel request makes
to a session. -/
structure RequestFrame (ts : Nat) (se : SimEvent ω)
    (R : L2SimSession ω ι → L2SimSession ω ι → Prop) : Prop where
  trans : ∀ {ss ss' ss''}, R ss ss' → R ss' ss'' → R ss ss''
  thinned : ∀ ss k c, k = .bids ∨ k = .asks →
    Thins ((ss.books se.esi).orders k) c [] → R ss (ss.setOrders se.esi k c)
  rejected : ∀ ss, R ss (ss.rejectCancel ts se)
  cancelled : ∀ ss n, R ss (ss.emplace (dueAt (ts + ss.cxlLatency) 0)
    ⟨.cancelled, se.order, se.esi, n, 0⟩)

/-- A cancel request arrives. -/
theorem RequestFrame.onOrderPendingCancel [DecidableEq ω] {ts : Nat}
    {se : SimEvent ω} {R : L2SimSession ω ι → L2SimSession ω ι → Prop}
    (h : RequestFrame ts se R) (ss : L2SimSession ω ι) :
    R ss (ss.onOrderPendingCancel order ts se) := by
  unfold L2SimSession.onOrderPendingCancel
  split
  case h_1 => exact h.rejected ss
  case h_2 w hw =>
    split
    case isFalse => exact h.rejected ss
    case isTrue =>
      have hk : restingContainer (order w) = .bids
          ∨ restingContainer (order w) = .asks := by
        unfold restingContainer
        split
        · exact .inl rfl
        · exact .inr rfl
      have hthinned := h.thinned ss _ _ hk
        (thins_reduceHelper ((ss.books se.esi).orders _) (order w).price w
          se.size)
      dsimp only
      split
      · exact h.trans hthinned (h.rejected _)
      · exact h.trans hthinned (h.cancelled _ _)

end L2SimSession

-- =============================================================== the strategy

namespace L2Sim

variable [DecidableEq ω] [DecidableEq ι]

/-- A send goes to the session if the order manager sends it. -/
theorem send_eq (s : L2Sim ω ι) (w : ω) (validated : Bool) :
    ∃ a, a.sent = s.session.accepts (s.order w)
    ∧ s.send w validated = { s with
      trading := s.trading.step (.send w s.session.name a)
      session := if (s.trading.om.send w s.session.name a).1 then
        s.session.send w (s.order w) else s.session } :=
  ⟨_, rfl, rfl⟩

/-- And a cancel if the request goes out. -/
theorem cancel_eq (s : L2Sim ω ι) (w : ω) (newqty : Nat) :
    ∃ a, s.cancel w newqty = { s with
      trading := s.trading.step (.cancel w newqty a)
      session := if (s.trading.om.cancel w newqty a).1 = .requested then
        s.session.cancel w (s.order w) newqty else s.session } :=
  ⟨_, rfl⟩

-- ===================================================================== a step

open L2SimSession (ArrivalFrame MarketFrame RequestFrame)

variable {R : L2SimSession ω ι → L2SimSession ω ι → Prop}

/-- What holds across an arrival's changes, a request's and a change of the
record holds across the event that is served. -/
theorem serve_frame (s : L2Sim ω ι) {ts : Nat} {se : SimEvent ω}
    (view : BookView) (harrival : ArrivalFrame (s.order se.order) ts se R)
    (hrequest : RequestFrame ts se R)
    (herased : ∀ ss f, R ss { ss with orders := f }) :
    R s.session (s.serve ts se view).session := by
  unfold serve
  split
  case h_1 => exact harrival.onOrderSent s.session view
  case h_2 => exact harrival.refl _
  case h_3 => exact hrequest.onOrderPendingCancel s.session
  case h_4 =>
    unfold onOrderCancelled
    dsimp only
    split
    · exact herased _ _
    · exact harrival.refl _
  case h_5 => exact harrival.refl _
  case h_6 =>
    unfold onOrderFilled
    dsimp only
    split
    · exact herased _ _
    · exact harrival.refl _
  case h_7 => exact harrival.refl _

/-- A relation that holds across every change that an input makes to the
session. -/
structure SessionFrame (R : L2SimSession ω ι → L2SimSession ω ι → Prop) :
    Prop where
  market : ∀ ts esi ks, MarketFrame ts esi ks R
  arrival : ∀ o ts se, ArrivalFrame o ts se R
  request : ∀ ts se, RequestFrame ts se R
  erased : ∀ ss f, R ss { ss with orders := f }
  emplaced : ∀ ss due e, R ss (ss.emplace due e)
  clock : ∀ ss ts eventq, R ss { ss with ts := ts, eventq := eventq }
  symbol : ∀ ss ticker esi, R ss (ss.onSymbolDefinition ticker esi)

/-- The step lemma. -/
theorem SessionFrame.step (h : SessionFrame R) (s : L2Sim ω ι)
    (i : Input ω ι) : R s.session (s.step i).session := by
  have hrefl : ∀ ss, R ss ss := (h.market 0 0 []).refl
  cases i with
  | send w validated =>
      obtain ⟨a, -, heq⟩ := s.send_eq w validated
      show R s.session (s.send w validated).session
      rw [heq]
      dsimp only
      split
      · exact h.emplaced _ _ _
      · exact hrefl _
  | cancel w newqty =>
      obtain ⟨a, heq⟩ := s.cancel_eq w newqty
      show R s.session (s.cancel w newqty).session
      rw [heq]
      dsimp only
      split
      · exact h.emplaced _ _ _
      · exact hrefl _
  | startOfData ts => exact (h.market 0 0 []).executed _ _
  | turn k view =>
      show R s.session (s.turn k view).session
      unfold turn
      split
      · exact hrefl _
      · exact (h.market 0 0 []).trans (h.clock _ _ _)
          (serve_frame _ view (h.arrival _ _ _) (h.request _ _) h.erased)
  | endOfUpdate =>
      unfold L2Sim.step
      dsimp only
      split
      · exact hrefl _
      · exact h.clock _ _ _
  | symbolDefinition ticker esi => exact h.symbol _ _ _
  | market ts esi e =>
      exact (h.market ts esi _).onMarketEvent s.session e fun _ hk => hk

end L2Sim

end TradingEngine.OE
