/-
Whether auction orders trade in their own auction only.

# Routes

An order waits in the container of its side and its auction (`place`), and
a cross print goes through the containers that `crossed` lists. At both
markets these are the ones of the print's own auction
(`auctionContainers`), but for one case.

# Where it goes wrong

`handle_nyse_cross` goes through the closing containers at the opening too.
So what waits for the close trades at the open, and what waits for the open
gets no answer. It takes an opening print of NYSE that finds an auction
order waiting (`own_auction_iff`), and nothing else can go wrong.
-/
import TradingEngine.OE.Proofs.L2SimAuctions

namespace TradingEngine.OE

variable {ω ι : Type}

namespace L2SimSession

open L2Sim (crossed)

-- ===================================================================== routes

/-- The auction that an order is for. -/
def ownCross (o : Order ι) : CrossType :=
  if o.tif = .auctionClose then .closing else .opening

/-- The containers of an auction. -/
def auctionContainers : CrossType → List Container
  | .closing => [.closeBids, .closeAsks]
  | .opening => [.openBids, .openAsks]
  | .other => []

/-- An order waits for its own auction. -/
theorem place_mem_iff {o : Order ι} (hauction : isAuction o = true)
    (type : CrossType) :
    place o ∈ auctionContainers type ↔ ownCross o = type := by
  unfold place ownCross auctionContainer
  rw [if_pos hauction]
  by_cases hside : o.side = .buy <;> by_cases htif : o.tif = .auctionClose <;>
    cases type <;> simp [auctionContainers, hside, htif]

/-- But for openings at NYSE, a print goes through the containers of its
auction. -/
theorem crossed_eq {mic : SimMarket} {type : CrossType}
    (hmic : mic = .xnys ∨ mic = .xnas)
    (hopen : mic = .xnys → type ≠ .opening) :
    crossed mic type = auctionContainers type := by
  rcases hmic with rfl | rfl
  · cases type with
    | closing => rfl
    | opening => exact absurd rfl (hopen rfl)
    | other => rfl
  · cases type <;> rfl

/-- No print goes through any other container. -/
theorem crossed_auction {mic : SimMarket} {type : CrossType} {k : Container}
    (hk : k ∈ crossed mic type) : k.auction = true := by
  cases mic <;> cases type <;> simp [crossed] at hk <;>
    rcases hk with rfl | rfl <;> rfl

/-- And nothing but a print goes through those. -/
theorem touched_auction {mic : SimMarket} {e : MarketEvent} {k : Container}
    (hk : k ∈ touched mic e) (hauction : k.auction = true) :
    ∃ tradeId price size type,
      e = .trade tradeId price size (some type) ∧ k ∈ crossed mic type := by
  have hday : k ∉ [Container.bids, .asks] := by
    intro hin
    simp only [List.mem_cons, List.not_mem_nil, or_false] at hin
    rcases hin with rfl | rfl <;> cases hauction
  cases e with
  | trade tradeId price size cross =>
      cases cross with
      | none => exact absurd hk hday
      | some type => exact ⟨_, _, _, _, rfl, hk⟩
  | tradingStatus => cases hk
  | nasdaqImbalance => cases hk
  | bookAdded => exact absurd hk hday
  | bookCanceled => exact absurd hk hday
  | bookModified => exact absurd hk hday
  | bookExecuted => exact absurd hk hday
  | l2Update => exact absurd hk hday

-- ================================================================== the queue

/-- What comes into the queue is of this kind. -/
def Adds (kind : SimEvent ω → Prop) (ss ss' : L2SimSession ω ι) : Prop :=
  ∃ new, ss'.eventq = ss.eventq ++ new ∧ ∀ q ∈ new, kind q.2

variable {kind kind' : SimEvent ω → Prop} {ss ss' ss'' : L2SimSession ω ι}

theorem Adds.of_eventq (h : ss'.eventq = ss.eventq) : Adds kind ss ss' :=
  ⟨[], by rw [h, List.append_nil], nofun⟩

theorem Adds.trans (h : Adds kind ss ss') (h' : Adds kind ss' ss'') :
    Adds kind ss ss'' := by
  obtain ⟨new, hnew, hkind⟩ := h
  obtain ⟨new', hnew', hkind'⟩ := h'
  refine ⟨new ++ new', ?_, fun q hq => ?_⟩
  · rw [hnew', hnew, List.append_assoc]
  · exact (List.mem_append.mp hq).elim (hkind q) (hkind' q)

theorem Adds.imp (h : Adds kind ss ss') (himp : ∀ e, kind e → kind' e) :
    Adds kind' ss ss' := by
  obtain ⟨new, hnew, hkind⟩ := h
  exact ⟨new, hnew, fun q hq => himp _ (hkind q hq)⟩

theorem adds_emplaceAll (ss : L2SimSession ω ι) (due : SimEvent.Ordering)
    {es : List (SimEvent ω)} (hes : ∀ e ∈ es, kind e) :
    Adds kind ss (ss.emplaceAll due es) := by
  refine ⟨_, rfl, fun q hq => ?_⟩
  obtain ⟨e, he, rfl⟩ := List.mem_map.mp hq
  exact hes e he

theorem adds_emplace (ss : L2SimSession ω ι) (due : SimEvent.Ordering)
    {e : SimEvent ω} (he : kind e) : Adds kind ss (ss.emplace due e) :=
  adds_emplaceAll ss due fun _ he' => List.mem_singleton.mp he' ▸ he

/-- A request is answered to its order. -/
theorem requestFrame_adds (ts : Nat) (se : SimEvent ω) :
    RequestFrame ts se (Adds (ω := ω) (ι := ι) fun e =>
      e.order = se.order) where
  trans := .trans
  thinned _ _ _ _ _ := .of_eventq rfl
  rejected ss := adds_emplace ss _ rfl
  cancelled ss _ := adds_emplace ss _ rfl

/-- So is an arrival. -/
theorem arrivalFrame_adds (o : Order ι) (ts : Nat) (se : SimEvent ω) :
    ArrivalFrame o ts se (Adds fun e => e.order = se.order) where
  refl _ := .of_eventq rfl
  trans := .trans
  recorded _ := .of_eventq rfl
  answered ss _ _ _ _ horder _ _ := adds_emplace ss _ horder
  placed _ _ _ _ _ _ _ := .of_eventq rfl

/-- Orders that were in these containers trade, and nothing is put
anywhere. -/
structure TradesOf (esi : Nat) (ks : List Container)
    (ss ss' : L2SimSession ω ι) : Prop where
  stays : Stays ss ss'
  adds : Adds (fun e => (e.state = .filled ∨ e.state = .cancelled)
    ∧ ∃ k ∈ ks, ∃ p, (p, e.order) ∈ ss.held esi k) ss ss'

theorem marketFrame_tradesOf (ts esi : Nat) (ks : List Container) :
    MarketFrame ts esi ks (TradesOf (ω := ω) (ι := ι) esi ks) where
  refl ss := ⟨.refl ss, .of_eventq rfl⟩
  trans h h' := by
    refine ⟨h.stays.trans h'.stays, h.adds.trans (h'.adds.imp ?_)⟩
    -- what is there later was there before
    rintro e ⟨hstate, k, hk, p, hin⟩
    exact ⟨hstate, k, hk, p, (h.stays.held hin).resolve_right id⟩
  thinned ss k c es hk hthins := by
    refine ⟨(marketFrame_stays ts esi ks).thinned ss k c es hk hthins, ?_⟩
    have hset : Adds (fun e => (e.state = .filled ∨ e.state = .cancelled)
        ∧ ∃ k ∈ ks, ∃ p, (p, e.order) ∈ ss.held esi k) ss
        (ss.setOrders esi k c) := .of_eventq rfl
    refine hset.trans (adds_emplaceAll _ _ fun e he => ?_)
    obtain ⟨hstate, p, hin⟩ := hthins.events e he
    exact ⟨hstate, k, hk, p, hin⟩
  found ss := ⟨(marketFrame_stays ts esi ks).found ss, .of_eventq rfl⟩
  status ss session :=
    ⟨(marketFrame_stays ts esi ks).status ss session, .of_eventq rfl⟩
  seen ss tradeId :=
    ⟨(marketFrame_stays ts esi ks).seen ss tradeId, .of_eventq rfl⟩
  executed ss f :=
    ⟨(marketFrame_stays ts esi ks).executed ss f, .of_eventq rfl⟩
  imbalance ss f :=
    ⟨(marketFrame_stays ts esi ks).imbalance ss f, .of_eventq rfl⟩

-- ==================================================================== a cross

/-- Something comes into the queue for the order. -/
def Answers (w : ω) (ss ss' : L2SimSession ω ι) : Prop :=
  ∃ new, ss'.eventq = ss.eventq ++ new ∧ ∃ q ∈ new, q.2.order = w

section Cross

variable (order : ω → Order ι) (ts esi : Nat) {p : Rat} {w : ω}

/-- A cross of two containers answers every order in them. -/
theorem crossBoth_answers {k k' : Container} (hne : k' ≠ k)
    {bidCross askCross : Cross ω} (hbid : bidCross.cxlRemainder = true)
    (hask : askCross.cxlRemainder = true)
    (hpos : ∀ j, ∀ x ∈ (ss.books esi).orders j, 0 < x.2.remains)
    {j : Container} (hj : j = k ∨ j = k') (hin : (p, w) ∈ ss.held esi j) :
    Answers w ss (ss.crossBoth order ts esi k k' bidCross askCross) := by
  obtain ⟨simo, hmem, rfl⟩ := mem_keys.mp hin
  -- the first cross leaves the second container alone
  have hsecond : (((ss.crossHelper order esi k bidCross ts).1.books
      esi).orders k') = (ss.books esi).orders k' := by
    show ((ss.setOrders esi k _).books esi).orders k' = _
    rw [L2Sim.orders_setOrders, if_neg fun h => hne h.2]
  refine ⟨_, List.append_assoc .., ?_⟩
  simp only [List.mem_append, List.mem_map]
  rcases hj with rfl | rfl
  · obtain ⟨e, he, horder⟩ := crossLoop_enqueues order esi bidCross
      (hpos j) (a := bidCross.avail) hbid _ hmem
    exact ⟨_, .inl ⟨e, he, rfl⟩, horder⟩
  · obtain ⟨e, he, horder⟩ := crossLoop_enqueues order esi askCross
      (hpos j) (a := askCross.avail) hask _ hmem
    rw [hsecond]
    exact ⟨_, .inr ⟨e, he, rfl⟩, horder⟩

/-- A print answers every order in the containers that it goes through. -/
theorem onTrade_answers {tradeId : Nat} {price : MD.Price} {size : UInt64}
    {type : CrossType} (hnew : tradeId ∉ (ss.books esi).trades)
    (hpos : ∀ j, ∀ x ∈ (ss.books esi).orders j, 0 < x.2.remains)
    {k : Container} (hk : k ∈ crossed ss.mic type)
    (hin : (p, w) ∈ ss.held esi k) :
    Answers w ss (ss.onTrade order ts esi tradeId price size
      (some type)) := by
  unfold onTrade
  rw [if_neg hnew]
  dsimp only
  cases hmic : ss.mic with
  | xnys =>
      unfold handleNyseCross
      cases type with
      | closing =>
          rw [hmic] at hk
          exact crossBoth_answers order ts esi (by decide) rfl rfl hpos
            (by simpa [crossed] using hk) hin
      | opening =>
          rw [hmic] at hk
          exact crossBoth_answers order ts esi (by decide) rfl rfl hpos
            (by simpa [crossed] using hk) hin
      | other => simp [crossed, hmic] at hk
  | xnas =>
      unfold handleNasdaqCross
      cases type with
      | closing =>
          rw [hmic] at hk
          exact crossBoth_answers order ts esi (by decide) rfl rfl hpos
            (by simpa [crossed] using hk) hin
      | opening =>
          rw [hmic] at hk
          exact crossBoth_answers order ts esi (by decide) rfl rfl hpos
            (by simpa [crossed] using hk) hin
      | other => simp [crossed, hmic] at hk
  | other => simp [crossed, hmic] at hk

end Cross

end L2SimSession

namespace L2Sim

open L2SimSession (Adds Answers adds_emplace arrivalFrame_adds
  auctionContainer auctionContainers auctionPrice crossed_auction crossed_eq
  isAuction marketFrame_tradesOf onTrade_answers ownCross place placePrice
  place_auction place_mem_iff requestFrame_adds restingContainer tooLate
  touched touched_auction)

variable [DecidableEq ω] [DecidableEq ι]

-- ================================================================ statements

/-- The input is a print of an auction in a book. -/
def Prints (i : Input ω ι) (esi tradeId : Nat) (type : CrossType) : Prop :=
  ∃ ts price size,
    i = .market ts esi (.trade tradeId price size (some type))

/-- The event refuses its order, which arrives. -/
structure Refuses (s : L2Sim ω ι) (i : Input ω ι) (e : SimEvent ω) :
    Prop where
  arrives : ∃ k view q, i = .turn k view ∧ s.session.eventq[k]? = some q
    ∧ q.2.state = .sent ∧ q.2.order = e.order
  cancels : e.state = .cancelled
  whole : e.size = (s.order e.order).size

/-- Auction orders trade in their own auction, all of them do, and nothing
else does. A print that was seen before is no auction of its own. -/
structure OwnAuction (s : L2Sim ω ι) (i : Input ω ι) : Prop where
  own : ∀ q ∈ s.enqueuedBy i,
    q.2.state = .filled ∨ q.2.state = .cancelled →
    isAuction (s.order q.2.order) = true → s.Refuses i q.2
      ∨ ∃ esi tradeId, Prints i esi tradeId (ownCross (s.order q.2.order))
  all : ∀ {esi tradeId type}, Prints i esi tradeId type →
    tradeId ∉ (s.session.books esi).trades →
    ∀ {k p w}, (p, w) ∈ s.session.held esi k →
      isAuction (s.order w) = true → ownCross (s.order w) = type →
      ∃ q ∈ s.enqueuedBy i, q.2.order = w
  only : ∀ {esi tradeId type}, Prints i esi tradeId type →
    ∀ q ∈ s.enqueuedBy i, q.2.state = .filled →
      isAuction (s.order q.2.order) = true

/-- An opening of NYSE finds no auction order waiting. -/
def OpensIdle (s : L2Sim ω ι) (i : Input ω ι) : Prop :=
  s.session.mic = .xnys → ∀ esi tradeId, Prints i esi tradeId .opening →
    tradeId ∉ (s.session.books esi).trades →
    ∀ k, k.auction = true → (s.session.books esi).orders k = []

-- ===================================================================== a turn

/-- Of auction orders, the answer to an event trades none, but that it may
refuse the one that arrives. -/
def AnswersTo (s : L2Sim ω ι) (se e : SimEvent ω) : Prop :=
  e.state = .filled ∨ e.state = .cancelled →
  isAuction (s.order e.order) = true →
    se.state = .sent ∧ se.order = e.order ∧ e.state = .cancelled
      ∧ e.size = (s.order e.order).size

/-- Whatever is served. -/
theorem Placed.adds_serve {s : L2Sim ω ι} (h : s.Placed) (ts : Nat)
    (se : SimEvent ω) (view : BookView) :
    Adds (s.AnswersTo se) s.session (s.serve ts se view).session := by
  have hday : isAuction (s.order se.order) = false →
      ∀ e : SimEvent ω, e.order = se.order → s.AnswersTo se e := by
    intro hday e horder _ hauction
    rw [horder, hday] at hauction
    cases hauction
  have hquiet : ∀ e : SimEvent ω, e.state ≠ .filled → e.state ≠ .cancelled →
      s.AnswersTo se e :=
    fun e hfilled hcancelled hstate => absurd hstate (not_or.mpr
      ⟨hfilled, hcancelled⟩)
  cases hauction : isAuction (s.order se.order) with
  | false =>
      exact (serve_frame s view (arrivalFrame_adds _ ts se)
        (requestFrame_adds ts se) fun _ _ => .of_eventq rfl).imp
          (hday hauction)
  | true =>
      unfold L2Sim.serve
      split
      case h_1 hst =>
        have hrefused : s.AnswersTo se
            ⟨.cancelled, se.order, se.esi, (s.order se.order).size, 0⟩ :=
          fun _ _ => ⟨hst, rfl, rfl, rfl⟩
        have hacknowledged : s.AnswersTo se
            ⟨.acknowledged, se.order, se.esi, 0, 0⟩ :=
          hquiet _ (by simp) (by simp)
        unfold L2SimSession.onOrderSent
        dsimp only
        rw [if_pos hauction]
        split
        · exact (Adds.of_eventq rfl).trans (adds_emplace _ _ hrefused)
        · exact (Adds.of_eventq rfl).trans (adds_emplace _ _ hacknowledged)
      case h_2 => exact .of_eventq rfl
      case h_3 =>
        -- it is looked for where only other orders rest
        have hmissing : ∀ p, (p, se.order) ∉ s.session.held se.esi
            (restingContainer (s.order se.order)) := by
          intro p hin
          have hplace : restingContainer (s.order se.order)
              = place (s.order se.order) := (h.places.routed hin).1
          refine resting_ne_auction (s.order se.order) ?_
          rw [hplace, place_auction, hauction]
        obtain ⟨due, e, heq, hst⟩ := h.request_missing ts hmissing
        refine ⟨[(due, e)], heq, fun q hq => ?_⟩
        rw [List.mem_singleton.mp hq]
        exact hquiet e (by simp [hst]) (by simp [hst])
      case h_4 =>
        unfold onOrderCancelled
        dsimp only
        split <;> exact .of_eventq rfl
      case h_5 => exact .of_eventq rfl
      case h_6 =>
        unfold onOrderFilled
        dsimp only
        split <;> exact .of_eventq rfl
      case h_7 => exact .of_eventq rfl

-- ===================================================================== a step

section Step

variable {s : L2Sim ω ι} (h : s.Placed)

include h

/-- What a turn puts in. -/
theorem Placed.turn_events {k : Nat} {q : SimEvent.Ordering × SimEvent ω}
    (hq : s.session.eventq[k]? = some q) (view : BookView) :
    ∀ x ∈ s.enqueuedBy (.turn k view), s.AnswersTo q.2 x.2 := by
  have hadds := (h.popped (k := k) (q := q)).adds_serve (ofLex q.1).1 q.2 view
  rw [← turn_eq s hq view] at hadds
  obtain ⟨new, hnew, hkind⟩ := hadds
  rw [enqueuedBy_turn hq hnew]
  exact hkind

omit h in
/-- An input that serves no event. -/
theorem events_of_adds {i : Input ω ι} {kind : SimEvent ω → Prop}
    (hi : s.dequeuedBy i = [])
    (hadds : Adds kind s.session (s.step i).session) :
    ∀ q ∈ s.enqueuedBy i, kind q.2 := by
  obtain ⟨new, hnew, hkind⟩ := hadds
  rw [enqueuedBy_eq hi hnew]
  exact hkind

omit h in
/-- Market data: fills and cancels of orders in the containers that it goes
through. -/
theorem market_events (ts esi : Nat) (e : MarketEvent) :
    ∀ q ∈ s.enqueuedBy (.market ts esi e),
      (q.2.state = .filled ∨ q.2.state = .cancelled)
      ∧ ∃ k ∈ touched s.session.mic e,
        ∃ p, (p, q.2.order) ∈ s.session.held esi k :=
  events_of_adds (i := .market ts esi e) rfl ((marketFrame_tradesOf ts esi _
    ).onMarketEvent s.session e fun _ hk => hk).adds

omit h in
/-- A print that was seen before puts nothing in. -/
theorem seen_events (ts : Nat) {esi tradeId : Nat} {price : MD.Price}
    {size : UInt64} {cross : Option CrossType}
    (hseen : tradeId ∈ (s.session.books esi).trades) :
    s.enqueuedBy (.market ts esi (.trade tradeId price size cross)) = [] := by
  refine enqueuedBy_eq rfl ?_
  show (s.session.onMarketEvent s.order ts esi _).eventq = _
  unfold L2SimSession.onMarketEvent
  dsimp only
  rw [List.append_nil]
  cases hfind : s.session.findBookEntry esi with
  | none => rfl
  | some ss =>
      obtain ⟨-, hsame, -, htrades⟩ := findBookEntry_spec hfind
      dsimp only
      unfold L2SimSession.onTrade
      rw [if_pos (htrades ▸ hseen)]
      exact hsame.eventq

/-- A new print has an event for every order in the containers that it goes
through. -/
theorem Placed.print_events (ts : Nat) {esi tradeId : Nat} {price : MD.Price}
    {size : UInt64} {type : CrossType}
    (hnew : tradeId ∉ (s.session.books esi).trades) {k : Container}
    (hk : k ∈ crossed s.session.mic type) {p : Rat} {w : ω}
    (hin : (p, w) ∈ s.session.held esi k) :
    ∃ q ∈ s.enqueuedBy
      (.market ts esi (.trade tradeId price size (some type))),
      q.2.order = w := by
  obtain ⟨ss, hfind⟩ : ∃ ss, s.session.findBookEntry esi = some ss := by
    unfold L2SimSession.findBookEntry
    rw [if_pos (h.books.resting hin)]
    exact ⟨_, rfl⟩
  obtain ⟨-, hsame, hmic, htrades⟩ := findBookEntry_spec hfind
  have hheld : (p, w) ∈ ss.held esi k := by
    unfold L2SimSession.held
    rwa [hsame.books esi k]
  obtain ⟨new, heventq, hanswer⟩ : Answers w ss
      (ss.onTrade s.order ts esi tradeId price size (some type)) :=
    onTrade_answers s.order ts esi (htrades ▸ hnew)
      (fun j => hsame.books esi j ▸ h.places.positive esi j) (hmic ▸ hk) hheld
  have hevents : (s.step (.market ts esi
      (.trade tradeId price size (some type)))).session.eventq
      = s.session.eventq ++ new := by
    show (s.session.onMarketEvent s.order ts esi _).eventq = _
    unfold L2SimSession.onMarketEvent
    rw [hfind, ← hsame.eventq]
    exact heventq
  rw [enqueuedBy_eq rfl hevents]
  exact hanswer

/-- So what is put in for an auction order refuses it, or is of a new print
that goes through where it waits. -/
theorem Placed.auction_events (i : Input ω ι) :
    ∀ q ∈ s.enqueuedBy i, q.2.state = .filled ∨ q.2.state = .cancelled →
      isAuction (s.order q.2.order) = true → s.Refuses i q.2
      ∨ ∃ esi tradeId type p, Prints i esi tradeId type
        ∧ tradeId ∉ (s.session.books esi).trades
        ∧ (p, q.2.order)
          ∈ s.session.held esi (place (s.order q.2.order))
        ∧ place (s.order q.2.order) ∈ crossed s.session.mic type := by
  have hnone : s.dequeuedBy i = [] →
      Adds (fun e => e.state ≠ .filled ∧ e.state ≠ .cancelled) s.session
        (s.step i).session →
      ∀ q ∈ s.enqueuedBy i,
        ¬ (q.2.state = .filled ∨ q.2.state = .cancelled) :=
    fun hi hadds q hq => not_or.mpr (events_of_adds hi hadds q hq)
  intro q hq hstate hauction
  cases i with
  | turn k view =>
      refine .inl ?_
      cases htop : s.session.eventq[k]? with
      | none =>
          have htaken : s.dequeuedBy (.turn k view) = [] := by
            show (s.session.eventq[k]?).toList = []
            rw [htop]
            rfl
          refine absurd hstate (hnone htaken (.of_eventq ?_) q hq)
          show (s.turn k view).session.eventq = _
          unfold turn
          rw [htop]
      | some top =>
          obtain ⟨hst, horder, hcancels, hwhole⟩ :=
            h.turn_events htop view q hq hstate hauction
          exact ⟨⟨k, view, top, rfl, htop, hst, horder⟩, hcancels, hwhole⟩
  | market ts esi e =>
      refine .inr ?_
      obtain ⟨-, k, hk, p, hin⟩ := market_events ts esi e q hq
      obtain rfl := (h.places.routed hin).1
      obtain ⟨tradeId, price, size, type, rfl, hcrossed⟩ :=
        touched_auction hk ((place_auction _).trans hauction)
      refine ⟨esi, tradeId, type, p, ⟨ts, price, size, rfl⟩, fun hseen => ?_,
        hin, hcrossed⟩
      rw [seen_events ts hseen] at hq
      cases hq
  | send w validated =>
      refine absurd hstate (hnone rfl ?_ q hq)
      obtain ⟨a, -, heq⟩ := s.send_eq w validated
      show Adds _ s.session (s.send w validated).session
      rw [heq]
      dsimp only
      split
      · exact adds_emplace _ _ (by simp)
      · exact .of_eventq rfl
  | cancel w newqty =>
      refine absurd hstate (hnone rfl ?_ q hq)
      obtain ⟨a, heq⟩ := s.cancel_eq w newqty
      show Adds _ s.session (s.cancel w newqty).session
      rw [heq]
      dsimp only
      split
      · exact adds_emplace _ _ (by simp)
      · exact .of_eventq rfl
  | startOfData ts =>
      exact absurd hstate (hnone rfl (.of_eventq rfl) q hq)
  | endOfUpdate =>
      refine absurd hstate (hnone rfl (.of_eventq ?_) q hq)
      unfold step
      dsimp only
      split <;> rfl
  | symbolDefinition ticker esi =>
      exact absurd hstate (hnone rfl (.of_eventq rfl) q hq)

/-- The result for one step. -/
theorem Placed.ownAuction_iff
    (hmic : s.session.mic = .xnys ∨ s.session.mic = .xnas) (i : Input ω ι) :
    s.OwnAuction i ↔ s.OpensIdle i := by
  constructor
  · rintro hown hnyse esi tradeId ⟨ts, price, size, rfl⟩ hnew k hk
    refine List.eq_nil_iff_forall_not_mem.mpr fun x hx => ?_
    have hin : (x.1, x.2.order) ∈ s.session.held esi k :=
      mem_keys.mpr ⟨x.2, hx, rfl⟩
    have hplace : k = place (s.order x.2.order) := (h.places.routed hin).1
    have hauction : isAuction (s.order x.2.order) = true := by
      rw [← place_auction, ← hplace, hk]
    have hclose : crossed s.session.mic .opening
        = auctionContainers .closing := by
      rw [hnyse]
      rfl
    by_cases hopens : ownCross (s.order x.2.order) = .opening
    · -- what is answered waits for the close
      obtain ⟨q, hq, horder⟩ :=
        hown.all ⟨ts, price, size, rfl⟩ hnew hin hauction hopens
      obtain ⟨-, k', hk', p, hin'⟩ := market_events _ _ _ q hq
      rw [horder] at hin'
      rw [(h.places.routed hin').1] at hk'
      have hcloses := (place_mem_iff hauction .closing).mp (hclose ▸ hk')
      rw [hopens] at hcloses
      cases hcloses
    · -- it trades at the open
      have hcloses : ownCross (s.order x.2.order) = .closing := by
        unfold ownCross at hopens ⊢
        split at hopens
        · rw [if_pos ‹_›]
        · exact absurd rfl hopens
      have hcrossed : k ∈ crossed s.session.mic .opening := by
        rw [hclose, hplace, place_mem_iff hauction, hcloses]
      obtain ⟨q, hq, horder⟩ : ∃ q ∈ s.enqueuedBy (.market ts esi
          (.trade tradeId price size (some .opening))),
          q.2.order = x.2.order := h.print_events ts hnew hcrossed hin
      have hstate := (market_events _ _ _ q hq).1
      rcases hown.own q hq hstate (horder ▸ hauction) with hrefuses | hprints
      · obtain ⟨k', view, top, heq, -⟩ := hrefuses.arrives
        cases heq
      · obtain ⟨esi', tradeId', ts', price', size', heq⟩ := hprints
        rw [horder, hcloses] at heq
        cases heq
  · intro hidle
    -- a print goes through its own containers, if an order waits in any
    have hroutes : ∀ {esi tradeId type k x}, Prints i esi tradeId type →
        tradeId ∉ (s.session.books esi).trades →
        x ∈ s.session.held esi k → k.auction = true →
        crossed s.session.mic type = auctionContainers type := by
      intro esi tradeId type k x hprints hnew hin hk
      refine crossed_eq hmic fun hnyse htype => ?_
      subst htype
      have hempty := hidle hnyse esi tradeId hprints hnew k hk
      unfold L2SimSession.held at hin
      rw [hempty] at hin
      cases hin
    refine ⟨fun q hq hstate hauction => ?_, ?_, ?_⟩
    · refine (h.auction_events i q hq hstate hauction).imp_right ?_
      rintro ⟨esi, tradeId, type, p, hprints, hnew, hin, hcrossed⟩
      rw [hroutes hprints hnew hin ((place_auction _).trans hauction),
        place_mem_iff hauction] at hcrossed
      exact ⟨esi, tradeId, hcrossed ▸ hprints⟩
    · intro esi tradeId type hprints hnew k p w hin hauction htype
      obtain rfl : k = place (s.order w) := (h.places.routed hin).1
      have hcrossed : place (s.order w) ∈ crossed s.session.mic type := by
        rw [hroutes hprints hnew hin ((place_auction _).trans hauction),
          place_mem_iff hauction, htype]
      obtain ⟨ts, price, size, rfl⟩ := hprints
      exact h.print_events ts hnew hcrossed hin
    · rintro esi tradeId type ⟨ts, price, size, rfl⟩ q hq -
      obtain ⟨-, k, hk, p, hin⟩ := market_events _ _ _ q hq
      have hplace : k = place (s.order q.2.order) := (h.places.routed hin).1
      rw [← place_auction, ← hplace]
      exact crossed_auction hk

/-- An order that is in time waits from its arrival on exactly if nothing
waits at its price. The one that does not is acknowledged all the same. -/
theorem Placed.waits_iff {k : Nat} {q : SimEvent.Ordering × SimEvent ω}
    (hq : s.session.eventq[k]? = some q) (hst : q.2.state = .sent)
    (hauction : isAuction (s.order q.2.order) = true)
    (htime : tooLate (s.order q.2.order)
      (s.session.books q.2.esi).session = false) (view : BookView) :
    (∃ esi j p, (p, q.2.order) ∈ (s.turn k view).session.held esi j)
      ↔ ∀ w, (placePrice (s.order q.2.order), w)
        ∉ s.session.held q.2.esi (place (s.order q.2.order)) := by
  have hplace : auctionContainer (s.order q.2.order)
      = place (s.order q.2.order) := by
    unfold place
    rw [if_pos hauction]
  have hprice : auctionPrice (s.order q.2.order)
      = placePrice (s.order q.2.order) := by
    unfold placePrice
    rw [if_pos hauction]
  have habsent := (h.arriving hq hst).2.2
  have hheld : ∀ esi j, (s.turn k view).session.held esi j
      = if esi = q.2.esi ∧ j = place (s.order q.2.order) then
          keys (((s.session.books q.2.esi).orders
            (place (s.order q.2.order))).emplace
              (place (s.order q.2.order)).before
              (placePrice (s.order q.2.order))
              ⟨q.2.order, 0, 0, (s.order q.2.order).size⟩)
        else s.session.held esi j := by
    intro esi j
    have harrival := @onOrderSent_auction ω ι (s.popped k q.1) q.2 view
      hauction
    have hintime : ¬ tooLate ((s.popped k q.1).order q.2.order)
        ((s.popped k q.1).session.books q.2.esi).session = true :=
      Bool.eq_false_iff.mp htime
    rw [if_neg hintime] at harrival
    rw [turn_eq s hq]
    unfold L2Sim.serve
    rw [hst]
    dsimp only
    unfold L2SimSession.held
    rw [← hplace, ← hprice]
    refine (congrArg (fun r => keys ((r.1.books esi).orders j))
      harrival).trans ?_
    show keys (((L2SimSession.setOrders _ _ _ _).books esi).orders j) = _
    rw [orders_setOrders]
    split
    case isTrue heq => exact (if_pos heq).symm
    case isFalse hne => exact (if_neg hne).symm
  constructor
  · rintro ⟨esi, j, p, hin⟩ w hw
    rw [hheld] at hin
    split at hin
    · rw [OrderContainer.emplace_of_taken (h.places.sorted _ _) hw] at hin
      exact habsent _ _ _ hin
    · exact habsent _ _ _ hin
  · intro hfree
    refine ⟨q.2.esi, place (s.order q.2.order),
      placePrice (s.order q.2.order), ?_⟩
    rw [hheld, if_pos ⟨rfl, rfl⟩]
    exact OrderContainer.mem_emplace _ hfree

end Step

-- ===================================================================== a run

/-- The session stays at its market. -/
theorem mic_step (s : L2Sim ω ι) (i : Input ω ι) :
    (s.step i).session.mic = s.session.mic :=
  SessionFrame.step (R := fun ss ss' => ss'.mic = ss.mic)
    { market := fun _ _ _ =>
        { refl := fun _ => rfl
          trans := fun h h' => h'.trans h
          thinned := fun _ _ _ _ _ _ => rfl
          found := fun _ => rfl
          status := fun _ _ => rfl
          seen := fun _ _ => rfl
          executed := fun _ _ => rfl
          imbalance := fun _ _ => rfl }
      arrival := fun _ _ _ =>
        { refl := fun _ => rfl
          trans := fun h h' => h'.trans h
          recorded := fun _ => rfl
          answered := fun _ _ _ _ _ _ _ _ => rfl
          placed := fun _ _ _ _ _ _ _ => rfl }
      request := fun _ _ =>
        { trans := fun h h' => h'.trans h
          thinned := fun _ _ _ _ _ => rfl
          rejected := fun _ => rfl
          cancelled := fun _ _ => rfl }
      erased := fun _ _ => rfl
      emplaced := fun _ _ _ => rfl
      clock := fun _ _ _ => rfl
      symbol := fun _ _ _ => rfl } s i

/-- In every run at one of the two markets, auction orders trade in their
own auction, step by step, exactly as long as no opening of NYSE finds an
auction order waiting. -/
theorem own_auction_iff (c : OrderManagerConf ω ι) (name : Bytes)
    {mic : SimMarket} (hmic : mic = .xnys ∨ mic = .xnas)
    (ackLatency cxlLatency : Nat) (imbalanceOnly : ω → Bool)
    (is : List (Input ω ι)) :
    let s := start c (.create name mic ackLatency cxlLatency imbalanceOnly)
    Lib.Admits step OwnAuction s is ↔ Lib.Admits step OpensIdle s is := by
  intro s
  exact Lib.admits_iff_of_step (p := fun _ _ => True)
    (I := fun s : L2Sim ω ι => s.Placed ∧ s.session.mic = mic)
    (fun s i hs _ => hs.1.ownAuction_iff (hs.2 ▸ hmic) i)
    (fun s i hs _ _ => ⟨placed_step hs.1 i, (mic_step s i).trans hs.2⟩)
    ⟨placed_start c name mic ackLatency cxlLatency imbalanceOnly, rfl⟩
    (Lib.Admits.trivial _ is)

-- ====================================================================== demos

/-- A print of ten at 10. -/
def demoPrint (type : CrossType) : Input Nat Nat :=
  .market 10 0 (.trade 7 100000 10 (some type))

theorem own_auction_iff_demo :
    let s := start (.plain fun _ : Nat => demoParamsClose)
      (.create [66] .xnys 1 1 fun _ => false)
    Lib.Admits step OwnAuction s (demoWaits ++ [demoPrint .closing])
      ↔ Lib.Admits step OpensIdle s (demoWaits ++ [demoPrint .closing]) :=
  own_auction_iff (.plain fun _ : Nat => demoParamsClose) [66] (.inl rfl) 1 1
    (fun _ => false) (demoWaits ++ [demoPrint .closing])

/-- A bid for the close of NYSE is filled at the open. -/
theorem closing_bid_filled_at_open :
    ¬ ∀ is : List (Input Nat Nat),
      Lib.Admits step Possible (start (.plain fun _ => demoParamsClose)
        (.create [66] .xnys 1 1 fun _ => false)) is →
      Lib.Admits step OwnAuction (start (.plain fun _ => demoParamsClose)
        (.create [66] .xnys 1 1 fun _ => false)) is := by
  intro h
  obtain ⟨-, hown, -⟩ := Lib.admits_append.mp
    (h (demoWaits ++ [demoPrint .opening]) (by decide +kernel))
  have hfilled : ∃ q ∈ (Lib.run step (start (.plain fun _ =>
        demoParamsClose) (.create [66] .xnys 1 1 fun _ => false))
      demoWaits).enqueuedBy (demoPrint .opening), q.2.state = .filled
      ∧ isAuction ((Lib.run step (start (.plain fun _ => demoParamsClose)
        (.create [66] .xnys 1 1 fun _ => false)) demoWaits).order q.2.order)
        = true
      ∧ ownCross ((Lib.run step (start (.plain fun _ => demoParamsClose)
        (.create [66] .xnys 1 1 fun _ => false)) demoWaits).order q.2.order)
        = .closing := by
    decide +kernel
  obtain ⟨q, hq, hstate, hauction, hcloses⟩ := hfilled
  rcases hown.own q hq (.inl hstate) hauction with hrefuses | hprints
  · obtain ⟨k, view, top, heq, -⟩ := hrefuses.arrives
    cases heq
  · obtain ⟨esi, tradeId, ts, price, size, heq⟩ := hprints
    rw [hcloses] at heq
    cases heq

end L2Sim

end TradingEngine.OE
