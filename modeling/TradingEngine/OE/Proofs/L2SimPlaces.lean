/-
Where the simulated exchange keeps an order.

# Routing

An order that was sent is on its way until it arrives (`travelling`). From
then on it is in one book at most, in the container that its side and time
in force say (`place`), under its price there. An order that leaves its
place, or never got there, does not come back.

# The invariant

`Moves` says what a change of a session may do: nothing comes into a
container or on record but what the change is about. `Places` needs no more
(`Places.moves`), and holds in every run, whatever the order of its inputs.
-/
import TradingEngine.OE.Proofs.L2SimClock
import TradingEngine.OE.Proofs.SentOrders
import Mathlib.Tactic.Order

namespace TradingEngine.OE

variable {ω ι : Type}

-- ================================================================= containers

/-- The better price is on top, and no price is there twice. -/
def Sorted (k : Container) (c : OrderContainer ω) : Prop :=
  (keys c).Pairwise fun x y => k.before x.1 y.1 = true

namespace Container

/-- The order of prices is transitive. -/
theorem before_trans {k : Container} {p q r : Rat} (h : k.before p q = true)
    (h' : k.before q r = true) : k.before p r = true := by
  cases k <;> simp only [before, decide_eq_true_eq] at * <;> order

/-- And asymmetric. -/
theorem before_asymm {k : Container} {p q : Rat} (h : k.before p q = true) :
    k.before q p = false := by
  cases k <;> simp only [before, decide_eq_true_eq, decide_eq_false_iff_not]
    at * <;> order

/-- Of two prices one comes first. -/
theorem before_of_ne {k : Container} {p q : Rat} (hne : p ≠ q)
    (h : k.before p q = false) : k.before q p = true := by
  cases k <;> simp only [before, decide_eq_true_eq, decide_eq_false_iff_not]
    at * <;> order

/-- No price comes before itself. -/
theorem not_before_self (k : Container) (p : Rat) : k.before p p = false := by
  cases k <;> simp [before]

end Container

namespace OrderContainer

variable {c : OrderContainer ω} {k : Container} {price : Rat}
  {o : SimOrder ω}

/-- Only the entry that is put in is new. -/
theorem mem_keys_emplace {before : Rat → Rat → Bool} {x : Rat × ω}
    (hx : x ∈ keys (c.emplace before price o)) :
    x ∈ keys c ∨ x = (price, o.order) := by
  rcases emplace_perm before price o (c := c) with heq | hperm
  · rw [heq] at hx
    exact .inl hx
  · have hmem := (hperm.map fun x => (x.1, x.2.order)).subset hx
    exact (List.mem_cons.mp hmem).symm

/-- It is put in at its price. -/
theorem sorted_emplace (h : Sorted k c) :
    Sorted k (c.emplace k.before price o) := by
  unfold Sorted at h ⊢
  induction c with
  | nil => exact List.pairwise_singleton ..
  | cons x c ih =>
      obtain ⟨p, o'⟩ := x
      obtain ⟨hfirst, hrest⟩ := List.pairwise_cons.mp h
      unfold emplace
      split
      case isTrue => exact h
      case isFalse hne =>
        split
        case isTrue hbefore =>
          refine List.pairwise_cons.mpr ⟨fun y hy => ?_, h⟩
          rcases List.mem_cons.mp hy with rfl | hy
          · exact hbefore
          · exact Container.before_trans hbefore (hfirst y hy)
        case isFalse hbefore =>
          have hafter := Container.before_of_ne (Ne.symm hne)
            (Bool.eq_false_iff.mpr hbefore)
          refine List.pairwise_cons.mpr ⟨fun y hy => ?_, ih hrest⟩
          rcases mem_keys_emplace hy with hy | rfl
          · exact hfirst y hy
          · exact hafter

/-- Whatever is at a price is found there. -/
theorem find_of_mem (h : Sorted k c) (hmem : (price, o) ∈ c) :
    c.find price = some o := by
  unfold Sorted at h
  unfold find
  induction c with
  | nil => cases hmem
  | cons x c ih =>
      obtain ⟨p, o'⟩ := x
      obtain ⟨hfirst, hrest⟩ := List.pairwise_cons.mp h
      rcases List.mem_cons.mp hmem with heq | hmem
      · cases heq
        simp
      · have hbefore := hfirst (price, o.order) (mem_keys.mpr ⟨o, hmem, rfl⟩)
        have hne : price ≠ p := by
          rintro rfl
          rw [Container.not_before_self] at hbefore
          cases hbefore
        rw [List.lookup_cons, beq_false_of_ne hne]
        exact ih hrest hmem

/-- What `find` returns is in the container. -/
theorem mem_of_find (h : c.find price = some o) : (price, o) ∈ c := by
  unfold find at h
  induction c with
  | nil => cases h
  | cons x c ih =>
      obtain ⟨p, o'⟩ := x
      rw [List.lookup_cons] at h
      split at h
      case h_1 heq =>
        cases h
        rw [beq_iff_eq.mp heq]
        exact List.mem_cons_self
      case h_2 => exact List.mem_cons_of_mem _ (ih h)

/-- Where the price is taken nothing comes in. -/
theorem emplace_of_taken (h : Sorted k c) {w : ω} (hw : (price, w) ∈ keys c) :
    c.emplace k.before price o = c := by
  unfold Sorted at h
  induction c with
  | nil => cases hw
  | cons x c ih =>
      obtain ⟨p, o'⟩ := x
      obtain ⟨hfirst, hrest⟩ := List.pairwise_cons.mp h
      unfold emplace
      by_cases hp : p = price
      · rw [if_pos hp]
      · have hin : (price, w) ∈ keys c := by
          rcases List.mem_cons.mp hw with heq | hin
          · exact absurd (congrArg Prod.fst heq).symm hp
          · exact hin
        have hafter := Container.before_asymm (hfirst _ hin)
        rw [if_neg hp, hafter, if_neg Bool.false_ne_true, ih hrest hin]

/-- And where it is not, the order does. -/
theorem mem_emplace (before : Rat → Rat → Bool)
    (h : ∀ w, (price, w) ∉ keys c) :
    (price, o.order) ∈ keys (c.emplace before price o) := by
  induction c with
  | nil => exact List.mem_singleton_self _
  | cons x c ih =>
      obtain ⟨p, o'⟩ := x
      unfold emplace
      split
      case isTrue hp => exact absurd List.mem_cons_self (hp ▸ h o'.order)
      case isFalse =>
        split
        · exact List.mem_cons_self
        · exact List.mem_cons_of_mem _
            (ih fun w hw => h w (List.mem_cons_of_mem _ hw))

end OrderContainer

/-- Entries that go leave the others in order. -/
theorem Thins.sorted {k : Container} {c c' : OrderContainer ω}
    {es : List (SimEvent ω)} (h : Thins c c' es) (hsorted : Sorted k c) :
    Sorted k c' := hsorted.sublist h.keys

namespace L2SimSession

-- ===================================================================== places

/-- The container that an order waits or rests in. -/
def place (o : Order ι) : Container :=
  if isAuction o then auctionContainer o else restingContainer o

/-- And the price it is under. -/
def placePrice (o : Order ι) : Rat :=
  if isAuction o then auctionPrice o else o.price

/-- What an order is sent with says where it belongs. -/
theorem place_of_fixed {o o' : Order ι} (h : o'.fixed = o.fixed) :
    place o' = place o ∧ placePrice o' = placePrice o := by
  simp only [Order.fixed, Prod.mk.injEq] at h
  obtain ⟨-, hprice, -, hside, htif, htype, -⟩ := h
  unfold place placePrice isAuction auctionContainer restingContainer
    auctionPrice
  rw [hprice, hside, htif, htype]
  exact ⟨rfl, rfl⟩

/-- Auction orders have containers of their own. -/
theorem place_auction (o : Order ι) : (place o).auction = isAuction o := by
  unfold place auctionContainer restingContainer
  cases isAuction o <;> simp only [if_true, if_false, Bool.false_eq_true] <;>
    repeat' split
  all_goals rfl

/-- The orders of a container, with their prices. -/
def held (ss : L2SimSession ω ι) (esi : Nat) (k : Container) :
    List (Rat × ω) := keys ((ss.books esi).orders k)

/-- The orders that are to arrive. -/
def arrivals (ss : L2SimSession ω ι) :
    List (SimEvent.Ordering × SimEvent ω) :=
  ss.eventq.filter fun q => decide (q.2.state = .sent)

/-- The arrivals are the events in `SENT`. -/
theorem mem_arrivals {ss : L2SimSession ω ι}
    {q : SimEvent.Ordering × SimEvent ω} :
    q ∈ ss.arrivals ↔ q ∈ ss.eventq ∧ q.2.state = .sent := by
  simp [arrivals]

/-- The orders that were sent and have not arrived. -/
def travelling (ss : L2SimSession ω ι) : List ω :=
  ss.arrivals.map fun q => q.2.order

/-- An order travels as long as its arrival is queued. -/
theorem mem_travelling {ss : L2SimSession ω ι} {w : ω} :
    w ∈ ss.travelling
      ↔ ∃ q ∈ ss.eventq, q.2.state = .sent ∧ q.2.order = w := by
  simp [travelling, mem_arrivals, and_assoc]

/-- What a session has been told of its market. -/
def symbols (ss : L2SimSession ω ι) :
    SimMarket × (ι → Option Nat) × Nat :=
  (ss.mic, ss.indexMap, ss.booksSize)

-- ====================================================================== moves

/-- A change of a session that puts nothing but these into containers and
on record. -/
structure Moves (enters : Nat → Container → Rat × ω → Prop)
    (records : Nat → ω → Prop) (ss ss' : L2SimSession ω ι) : Prop where
  symbols : ss'.symbols = ss.symbols
  arrivals : ss'.arrivals = ss.arrivals
  held : ∀ {esi k x}, x ∈ ss'.held esi k →
    x ∈ ss.held esi k ∨ enters esi k x
  sorted : ∀ esi k, Sorted k ((ss.books esi).orders k) →
    Sorted k ((ss'.books esi).orders k)
  positive : ∀ esi k, (∀ x ∈ (ss.books esi).orders k, 0 < x.2.remains) →
    ∀ x ∈ (ss'.books esi).orders k, 0 < x.2.remains
  orders : ∀ {n w}, ss'.orders n = some w →
    ss.orders n = some w ∨ records n w

/-- A change that puts nothing anywhere. -/
abbrev Stays : L2SimSession ω ι → L2SimSession ω ι → Prop :=
  Moves (fun _ _ _ => False) fun _ _ => False

variable {enters : Nat → Container → Rat × ω → Prop}
  {records : Nat → ω → Prop} {ss ss' ss'' : L2SimSession ω ι}

/-- The index of instruments is not touched. -/
theorem Moves.indexMap (h : Moves enters records ss ss') :
    ss'.indexMap = ss.indexMap := congrArg (fun x => x.2.1) h.symbols

/-- No book comes or goes. -/
theorem Moves.booksSize (h : Moves enters records ss ss') :
    ss'.booksSize = ss.booksSize := congrArg (fun x => x.2.2) h.symbols

/-- Nobody sets out or arrives. -/
theorem Moves.travelling (h : Moves enters records ss ss') :
    ss'.travelling = ss.travelling := by
  unfold L2SimSession.travelling
  rw [h.arrivals]

/-- Enough for a change: symbols, arrivals and containers stay, and new
records are allowed ones. -/
theorem Moves.of_eq (hsymbols : ss'.symbols = ss.symbols)
    (harrivals : ss'.arrivals = ss.arrivals)
    (hbooks : ∀ esi, (ss'.books esi).orders = (ss.books esi).orders)
    (horders : ∀ {n w}, ss'.orders n = some w →
      ss.orders n = some w ∨ records n w) :
    Moves enters records ss ss' where
  symbols := hsymbols
  arrivals := harrivals
  held {esi k x} hx := by
    unfold L2SimSession.held at hx
    rw [hbooks] at hx
    exact .inl hx
  sorted esi k hsorted := by rwa [hbooks]
  positive esi k hpos := by rwa [hbooks]
  orders := horders

/-- Nothing moves. -/
theorem Moves.refl (ss : L2SimSession ω ι) : Moves enters records ss ss :=
  .of_eq rfl rfl (fun _ => rfl) .inl

/-- Over several changes. -/
theorem Moves.trans (h : Moves enters records ss ss')
    (h' : Moves enters records ss' ss'') : Moves enters records ss ss'' where
  symbols := h'.symbols.trans h.symbols
  arrivals := h'.arrivals.trans h.arrivals
  held hx := (h'.held hx).elim h.held .inr
  sorted esi k hsorted := h'.sorted esi k (h.sorted esi k hsorted)
  positive esi k hpos := h'.positive esi k (h.positive esi k hpos)
  orders hn := (h'.orders hn).elim h.orders .inr

/-- What is put nowhere is put nowhere else. -/
theorem Stays.moves (h : Stays ss ss') : Moves enters records ss ss' where
  symbols := h.symbols
  arrivals := h.arrivals
  held hx := (h.held hx).imp_right False.elim
  sorted := h.sorted
  positive := h.positive
  orders hn := (h.orders hn).imp_right False.elim

/-- Events go into the queue that send nothing. -/
theorem moves_emplaceAll (ss : L2SimSession ω ι) (due : SimEvent.Ordering)
    {es : List (SimEvent ω)} (hes : ∀ e ∈ es, e.state ≠ .sent) :
    Moves enters records ss (ss.emplaceAll due es) := by
  refine .of_eq rfl ?_ (fun _ => rfl) .inl
  have hnone : ((es.map fun e => (due, e)).filter fun q =>
      decide (q.2.state = .sent)) = [] := by
    simpa using hes
  unfold arrivals emplaceAll
  rw [List.filter_append, hnone, List.append_nil]

/-- A container is replaced. -/
theorem moves_setOrders {esi : Nat} {k : Container} {c : OrderContainer ω}
    (hheld : ∀ x ∈ keys c, x ∈ ss.held esi k ∨ enters esi k x)
    (hsorted : Sorted k ((ss.books esi).orders k) → Sorted k c)
    (hpos : (∀ x ∈ (ss.books esi).orders k, 0 < x.2.remains) →
      ∀ x ∈ c, 0 < x.2.remains) :
    Moves enters records ss (ss.setOrders esi k c) where
  symbols := rfl
  arrivals := rfl
  held {esi' k' x} hx := by
    unfold held at hx
    rw [L2Sim.orders_setOrders] at hx
    split at hx
    case isTrue heq =>
      obtain ⟨rfl, rfl⟩ := heq
      exact hheld x hx
    case isFalse => exact .inl hx
  sorted esi' k' h := by
    rw [L2Sim.orders_setOrders]
    split
    case isTrue heq =>
      obtain ⟨rfl, rfl⟩ := heq
      exact hsorted h
    case isFalse => exact h
  positive esi' k' h := by
    rw [L2Sim.orders_setOrders]
    split
    case isTrue heq =>
      obtain ⟨rfl, rfl⟩ := heq
      exact hpos h
    case isFalse => exact h
  orders := .inl

/-- A container is gone through. -/
theorem Thins.stays {esi : Nat} {k : Container} {c : OrderContainer ω}
    {es : List (SimEvent ω)}
    (h : Thins ((ss.books esi).orders k) c es) :
    Stays ss (ss.setOrders esi k c) :=
  moves_setOrders (fun _ hx => .inl (h.keys.subset hx)) h.sorted h.positive

/-- No market event puts an order anywhere. -/
theorem marketFrame_stays (ts esi : Nat) (ks : List Container) :
    MarketFrame ts esi ks (Stays (ω := ω) (ι := ι)) where
  refl := .refl
  trans := .trans
  thinned ss k c es _ hthins := by
    refine (Thins.stays hthins).trans (moves_emplaceAll _ _ fun e he => ?_)
    rcases (hthins.events e he).1 with hst | hst <;> simp [hst]
  found ss := .of_eq rfl rfl (fun esi' => by
    by_cases h : esi' = esi <;> simp [h]) .inl
  status ss session := .of_eq rfl rfl (fun esi' => by
    by_cases h : esi' = esi <;> simp [h]) .inl
  seen ss tradeId := .of_eq rfl rfl (fun esi' => by
    by_cases h : esi' = esi <;> simp [h, insertTrade]) .inl
  executed _ _ := .of_eq rfl rfl (fun _ => rfl) .inl
  imbalance _ _ := .of_eq rfl rfl (fun _ => rfl) .inl

/-- Nor does a request for a cancel. -/
theorem requestFrame_stays (ts : Nat) (se : SimEvent ω) :
    RequestFrame ts se (Stays (ω := ω) (ι := ι)) where
  trans := .trans
  thinned ss k c _ hthins := Thins.stays hthins
  rejected ss := moves_emplaceAll ss _ (by simp)
  cancelled ss n := moves_emplaceAll ss _ (by simp)

/-- An order that arrives is put into its place, and on record. -/
theorem arrivalFrame_moves {o : Order ι} (hsize : 0 < o.size) (ts : Nat)
    (se : SimEvent ω) :
    ArrivalFrame o ts se (Moves (ω := ω) (ι := ι)
      (fun esi k x => esi = se.esi ∧ k = place o
        ∧ x = (placePrice o, se.order))
      fun n w => n = o.localID ∧ w = se.order) where
  refl := .refl
  trans := .trans
  recorded ss := by
    refine .of_eq rfl rfl (fun _ => rfl) fun {n w} hn => ?_
    change Function.update ss.orders o.localID (some se.order) n = _ at hn
    by_cases hid : n = o.localID
    · subst hid
      rw [Function.update_self] at hn
      exact .inr ⟨rfl, (Option.some.inj hn).symm⟩
    · rw [Function.update_of_ne hid] at hn
      exact .inl hn
  answered ss _ _ e _ _ hsent _ := by
    refine moves_emplaceAll ss _ fun e' he' => ?_
    rw [List.mem_singleton.mp he']
    exact hsent
  placed ss k price simo hauction hday horder := by
    have hplace : k = place o ∧ price = placePrice o ∧ 0 < simo.remains := by
      unfold place placePrice
      cases ha : isAuction o with
      | true =>
          obtain ⟨hk, hprice, hremains⟩ := hauction ha
          exact ⟨hk, hprice, hremains ▸ hsize⟩
      | false => exact hday ha
    obtain ⟨rfl, rfl, hremains⟩ := hplace
    refine moves_setOrders (fun x hx => ?_) OrderContainer.sorted_emplace
      fun hpos x hx => ?_
    · rw [← horder]
      exact (OrderContainer.mem_keys_emplace hx).imp_right fun h =>
        ⟨rfl, rfl, h⟩
    · rcases emplace_perm (place o).before (placePrice o) simo
        (c := (ss.books se.esi).orders (place o)) with heq | hperm
      · rw [heq] at hx
        exact hpos x hx
      · rcases List.mem_cons.mp (hperm.subset hx) with rfl | hx
        · exact hremains
        · exact hpos x hx

-- ================================================================== invariant

/-- Every order that was sent is on its way or in its place or gone, and
what is on record is where its order is. -/
structure Places (ss : L2SimSession ω ι) (t : Trading ω ι) : Prop where
  once : ss.travelling.Nodup
  sent : ∀ w ∈ ss.travelling, w ∈ t.sent
  absent : ∀ w ∈ ss.travelling, ∀ esi k p, (p, w) ∉ ss.held esi k
  kept : ∀ {esi k p w}, (p, w) ∈ ss.held esi k → w ∈ t.sent
  routed : ∀ {esi k p w}, (p, w) ∈ ss.held esi k →
    k = place (t.om.order w) ∧ p = placePrice (t.om.order w)
  apart : ∀ {esi esi' k k' p p' w}, (p, w) ∈ ss.held esi k →
    (p', w) ∈ ss.held esi' k' → esi = esi'
  sorted : ∀ esi k, Sorted k ((ss.books esi).orders k)
  positive : ∀ esi k, ∀ x ∈ (ss.books esi).orders k, 0 < x.2.remains
  record : ∀ {n v}, ss.orders n = some v → n ≠ 0 ∧ n ≤ t.om.localID
    ∧ ∀ w, (t.om.order w).localID = n → w = v

variable {t : Trading ω ι}

/-- What a change puts into containers is for one book each, and its order
is nowhere else. -/
theorem Places.moves (h : ss.Places t) (hmoves : Moves enters records ss ss')
    (henters : ∀ {esi k p w}, enters esi k (p, w) → w ∈ t.sent
      ∧ w ∉ ss.travelling ∧ (∀ esi k p, (p, w) ∉ ss.held esi k)
      ∧ k = place (t.om.order w) ∧ p = placePrice (t.om.order w))
    (hone : ∀ {esi esi' k k' p p' w}, enters esi k (p, w) →
      enters esi' k' (p', w) → esi = esi')
    (hrecords : ∀ {n v}, records n v → n ≠ 0 ∧ n ≤ t.om.localID
      ∧ ∀ w, (t.om.order w).localID = n → w = v) : ss'.Places t where
  once := hmoves.travelling ▸ h.once
  sent := hmoves.travelling ▸ h.sent
  absent w hw esi k p hin := by
    rw [hmoves.travelling] at hw
    rcases hmoves.held hin with hin | hin
    · exact h.absent w hw esi k p hin
    · exact (henters hin).2.1 hw
  kept hin := (hmoves.held hin).elim h.kept fun hin => (henters hin).1
  routed hin :=
    (hmoves.held hin).elim h.routed fun hin => (henters hin).2.2.2
  apart hin hin' := by
    rcases hmoves.held hin with hin | hin <;>
      rcases hmoves.held hin' with hin' | hin'
    · exact h.apart hin hin'
    · exact absurd hin ((henters hin').2.2.1 _ _ _)
    · exact absurd hin' ((henters hin).2.2.1 _ _ _)
    · exact hone hin hin'
  sorted esi k := hmoves.sorted esi k (h.sorted esi k)
  positive esi k := hmoves.positive esi k (h.positive esi k)
  record hn := (hmoves.orders hn).elim h.record hrecords

/-- Where nothing moves, the invariant holds on. -/
theorem Places.stays (h : ss.Places t) (hstays : Stays ss ss') :
    ss'.Places t := h.moves hstays False.elim False.elim False.elim

/-- Events leave the queue. -/
theorem Places.popped (h : ss.Places t) (ts : Nat)
    {eventq : List (SimEvent.Ordering × SimEvent ω)}
    (hsub : eventq.Sublist ss.eventq) :
    Places { ss with ts := ts, eventq := eventq } t := by
  have htravelling : (travelling { ss with
      ts := ts, eventq := eventq }).Sublist ss.travelling :=
    (hsub.filter _).map _
  exact { h with
    once := h.once.sublist htravelling
    sent := fun w hw => h.sent w (htravelling.subset hw)
    absent := fun w hw => h.absent w (htravelling.subset hw) }

/-- Symbols have books, and orders are of books that there are. -/
structure Known (ss : L2SimSession ω ι) : Prop where
  index : ∀ {ticker esi}, ss.indexMap ticker = some esi →
    esi < ss.booksSize
  arriving : ∀ q ∈ ss.arrivals, q.2.esi < ss.booksSize
  resting : ∀ {esi k x}, x ∈ ss.held esi k → esi < ss.booksSize

/-- Instruments stay known while entries come into books that exist. -/
theorem Known.moves (h : ss.Known) (hmoves : Moves enters records ss ss')
    (henters : ∀ {esi k x}, enters esi k x → esi < ss.booksSize) :
    ss'.Known where
  index hindex := by
    rw [hmoves.booksSize]
    rw [hmoves.indexMap] at hindex
    exact h.index hindex
  arriving := by
    rw [hmoves.booksSize, hmoves.arrivals]
    exact h.arriving
  resting hx := by
    rw [hmoves.booksSize]
    exact (hmoves.held hx).elim h.resting henters

/-- An order is sent of a symbol that there is. -/
theorem Known.send (h : ss.Known) (w : ω) {o : Order ι}
    (hsome : (ss.indexMap o.instrument).isSome) : (ss.send w o).Known where
  index := h.index
  arriving q hq := by
    obtain ⟨hq, hst⟩ := mem_arrivals.mp hq
    rcases List.mem_append.mp hq with hq | hq
    · exact h.arriving q (mem_arrivals.mpr ⟨hq, hst⟩)
    · obtain ⟨esi, hindex⟩ := Option.isSome_iff_exists.mp hsome
      rw [List.mem_singleton.mp hq]
      show (ss.indexMap o.instrument).getD 0 < ss.booksSize
      rw [hindex]
      exact h.index hindex
  resting := h.resting

/-- A symbol may make more books. -/
theorem Known.symbolDefinition [DecidableEq ι] (h : ss.Known) (ticker : ι)
    (esi : Nat) : (ss.onSymbolDefinition ticker esi).Known where
  index {ticker' esi'} hindex := by
    change Function.update ss.indexMap ticker (some esi) ticker' = _ at hindex
    by_cases heq : ticker' = ticker
    · subst heq
      rw [Function.update_self] at hindex
      cases hindex
      exact lt_max_of_lt_right (Nat.lt_succ_self _)
    · rw [Function.update_of_ne heq] at hindex
      exact lt_max_of_lt_left (h.index hindex)
  arriving q hq := lt_max_of_lt_left (h.arriving q hq)
  resting hx := lt_max_of_lt_left (h.resting hx)

section Trading

variable [DecidableEq ω] [DecidableEq ι]

/-- The order manager moves no order. -/
theorem Places.trading (h : ss.Places t) (hn : t.Numbered) (e : Event ω) :
    ss.Places (t.step e) := by
  have hsent : ∀ {w}, w ∈ t.sent → w ∈ (t.step e).sent :=
    fun hw => t.subset_sent e hw
  exact { h with
    sent := fun w hw => hsent (h.sent w hw)
    kept := fun hin => hsent (h.kept hin)
    routed := fun hin => by
      obtain ⟨hplace, hprice⟩ := place_of_fixed (hn.fixed e (h.kept hin))
      rw [hplace, hprice]
      exact h.routed hin
    record := fun {n v} hrec => by
      obtain ⟨hne, hle, hown⟩ := h.record hrec
      refine ⟨hne, Nat.le_trans hle (t.counter_step e), fun w hw => ?_⟩
      rcases t.localID_step e w with heq | hlt
      · exact hown w (heq.symm.trans hw)
      · exact absurd hle (Nat.not_le_of_lt (hw ▸ hlt)) }

/-- An order is sent that was not sent before. -/
theorem Places.send (h : ss.Places t) (hn : t.Numbered) {w : ω}
    (hw : w ∉ t.sent) {e : Event ω} (hsent : w ∈ (t.step e).sent)
    (o : Order ι) : (ss.send w o).Places (t.step e) := by
  have h' := h.trading hn e
  have htravelling : (ss.send w o).travelling = ss.travelling ++ [w] := by
    unfold travelling arrivals L2SimSession.send emplace emplaceAll
    simp
  have hnew : ∀ v, v ∈ (ss.send w o).travelling →
      v ∈ ss.travelling ∨ v = w := by
    intro v hv
    rw [htravelling] at hv
    simpa using hv
  exact { h' with
    once := by
      rw [htravelling]
      refine List.nodup_append.mpr ⟨h.once, List.nodup_singleton w, ?_⟩
      rintro v hv v' hv' rfl
      rw [List.mem_singleton.mp hv'] at hv
      exact hw (h.sent w hv)
    sent := fun v hv => (hnew v hv).elim (h'.sent v) fun heq => heq ▸ hsent
    absent := fun v hv esi k p hin => by
      rcases hnew v hv with hv | rfl
      · exact h.absent v hv esi k p hin
      · exact hw (h.kept hin) }

end Trading

/-- Nothing is taken of an order that is not found. -/
theorem reduceHelper_missing [DecidableEq ω] {c : OrderContainer ω}
    {price : Rat} {w : ω} {n : Nat}
    (hnone : ∀ simo, c.find price = some simo → simo.order ≠ w) :
    (reduceHelper c price w n).1 = 0 := by
  unfold reduceHelper
  cases hfind : c.find price with
  | none => rfl
  | some simo =>
      dsimp only
      rw [if_neg (hnone simo hfind)]

end L2SimSession

namespace L2Sim

open L2SimSession (Moves Stays arrivalFrame_moves cancelable
  marketFrame_stays mem_travelling place placePrice reduceHelper
  reduceHelper_missing requestFrame_stays restingContainer)

variable [DecidableEq ω] [DecidableEq ι]

structure Placed (s : L2Sim ω ι) : Prop where
  numbered : s.trading.Numbered
  places : s.session.Places s.trading
  /-- The session knows the symbol. -/
  known : ∀ w ∈ s.trading.sent,
    (s.session.indexMap (s.order w).instrument).isSome
  books : s.session.Known

/-- The order manager makes a step that sends nothing, or none. -/
def Reports (t t' : Trading ω ι) : Prop :=
  t' = t ∨ ∃ e, t' = t.step e ∧ (t.step e).sent = t.sent

/-- The session is where the orders are, whatever is reported. -/
theorem Placed.reports {s s' : L2Sim ω ι} (h : s.Placed)
    (hplaces : s'.session.Places s.trading)
    (hindexMap : s'.session.indexMap = s.session.indexMap)
    (hbooks : s'.session.Known)
    (htrading : Reports s.trading s'.trading) : s'.Placed := by
  rcases htrading with heq | ⟨e, heq, hsent⟩
  · refine ⟨heq ▸ h.numbered, heq ▸ hplaces, fun w hw => ?_, hbooks⟩
    rw [heq] at hw
    rw [hindexMap]
    show (s.session.indexMap (s'.trading.om.order w).instrument).isSome
    rw [heq]
    exact h.known w hw
  · refine ⟨heq ▸ Trading.numbered_step h.numbered e,
      heq ▸ hplaces.trading h.numbered e, fun w hw => ?_, hbooks⟩
    rw [heq, hsent] at hw
    rw [hindexMap]
    show (s.session.indexMap (s'.trading.om.order w).instrument).isSome
    rw [heq, Order.instrument_of_fixed (h.numbered.fixed e hw)]
    exact h.known w hw

/-- Nothing is put anywhere. -/
theorem Placed.stays {s s' : L2Sim ω ι} (h : s.Placed)
    (hstays : Stays s.session s'.session)
    (htrading : Reports s.trading s'.trading) : s'.Placed :=
  h.reports (h.places.stays hstays) hstays.indexMap
    (h.books.moves hstays False.elim) htrading

-- ===================================================================== a turn

omit [DecidableEq ω] [DecidableEq ι] in
/-- Forgetting an order's record moves nothing. -/
theorem stays_eraseOrder (s : L2Sim ω ι) (w : ω) :
    Stays s.session (s.eraseOrder w).session := by
  refine .of_eq rfl rfl (fun _ => rfl) fun {n v} hn => .inl ?_
  change Function.update s.session.orders _ none n = some v at hn
  by_cases hid : n = (s.order w).localID
  · subst hid
    rw [Function.update_self] at hn
    cases hn
  · rwa [Function.update_of_ne hid] at hn

/-- What is served puts an order into its place if it arrives, and nothing
else anywhere. -/
theorem moves_serve (s : L2Sim ω ι) (ts : Nat) (se : SimEvent ω)
    (view : BookView)
    (hsize : se.state = .sent → 0 < (s.order se.order).size) :
    Moves
      (fun esi k x => se.state = .sent ∧ esi = se.esi
        ∧ k = place (s.order se.order)
        ∧ x = (placePrice (s.order se.order), se.order))
      (fun n w => se.state = .sent ∧ n = (s.order se.order).localID
        ∧ w = se.order)
      s.session (s.serve ts se view).session
    ∧ Reports s.trading (s.serve ts se view).trading := by
  have herase : ∀ b e, Stays s.session
      ((s.deliver se b e).eraseOrder se.order).session :=
    fun b e => stays_eraseOrder (s.deliver se b e) se.order
  unfold serve
  split
  case h_1 hst =>
    have hmoves := (arrivalFrame_moves (hsize hst) ts se).onOrderSent
      s.session view
    exact ⟨{ hmoves with
      held := fun hx => (hmoves.held hx).imp_right fun h => ⟨hst, h⟩
      orders := fun hn => (hmoves.orders hn).imp_right fun h => ⟨hst, h⟩ },
      .inl rfl⟩
  case h_2 => exact ⟨.refl _, .inr ⟨.acknowledged _ _ _ _ _, rfl, rfl⟩⟩
  case h_3 =>
    exact ⟨((requestFrame_stays ts se).onOrderPendingCancel s.session).moves,
      .inl rfl⟩
  case h_4 =>
    unfold onOrderCancelled
    dsimp only
    split
    · exact ⟨(herase _ _).moves, .inr ⟨.cancelled _ _ _ _, rfl, rfl⟩⟩
    · exact ⟨.refl _, .inr ⟨.cancelled _ _ _ _, rfl, rfl⟩⟩
  case h_5 => exact ⟨.refl _, .inr ⟨.cancelRejected _ _ _, rfl, rfl⟩⟩
  case h_6 =>
    unfold onOrderFilled
    dsimp only
    split
    · exact ⟨(herase _ _).moves, .inr ⟨.fill _ _ _ _ _ _, rfl, rfl⟩⟩
    · exact ⟨.refl _, .inr ⟨.fill _ _ _ _ _ _, rfl, rfl⟩⟩
  case h_7 => exact ⟨.refl _, .inl rfl⟩

section Turn

variable {s : L2Sim ω ι} (h : s.Placed) {k : Nat}
  {q : SimEvent.Ordering × SimEvent ω} (hq : s.session.eventq[k]? = some q)

include h hq

omit [DecidableEq ω] [DecidableEq ι] in
/-- An order that is to arrive is nowhere yet, and no longer on its way. -/
theorem Placed.arriving (hst : q.2.state = .sent) :
    q.2.order ∈ s.trading.sent
    ∧ q.2.order ∉ (s.popped k q.1).session.travelling
    ∧ ∀ esi k p, (p, q.2.order) ∉ s.session.held esi k := by
  have hin : q.2.order ∈ s.session.travelling :=
    mem_travelling.mpr ⟨q, List.mem_of_getElem? hq, hst, rfl⟩
  refine ⟨h.places.sent _ hin, fun hagain => ?_, h.places.absent _ hin⟩
  have hperm : s.session.travelling.Perm
      (q.2.order :: (s.popped k q.1).session.travelling) := by
    have hperm := ((popped_perm hq).filter fun q =>
      decide (q.2.state = .sent)).map fun q => q.2.order
    rwa [List.filter_cons, if_pos (by simpa using hst)] at hperm
  exact (List.nodup_cons.mp (hperm.nodup h.places.once)).1 hagain

omit hq [DecidableEq ω] [DecidableEq ι] in
/-- An event may leave the queue. -/
theorem Placed.popped : (s.popped k q.1).Placed where
  numbered := h.numbered
  places := h.places.popped _ (List.eraseIdx_sublist _ k)
  known := h.known
  books :=
    { index := h.books.index
      arriving := fun x hx => h.books.arriving x
        (((List.eraseIdx_sublist _ k).filter _).subset hx)
      resting := h.books.resting }

/-- The turn of an event. -/
theorem Placed.serve (view : BookView) :
    ((s.popped k q.1).serve (ofLex q.1).1 q.2 view).Placed := by
  have harriving := h.arriving hq
  have hp := h.popped (k := k) (q := q)
  have hnumber : ∀ {n v}, q.2.state = .sent →
      n = (s.order q.2.order).localID ∧ v = q.2.order →
      n ≠ 0 ∧ n ≤ s.trading.om.localID
        ∧ ∀ w, (s.trading.om.order w).localID = n → w = v := by
    rintro n v hst ⟨rfl, rfl⟩
    have hne := h.numbered.numbered _ (harriving hst).1
    exact ⟨hne, h.numbered.counted _, fun w hw =>
      h.numbered.apart w _ hw (hw ▸ hne)⟩
  obtain ⟨hmoves, htrading⟩ := moves_serve (s.popped k q.1) (ofLex q.1).1
    q.2 view fun hst => h.numbered.sized _ (harriving hst).1
  have hplaces := hp.places.moves hmoves
    (fun {esi k' p w} henters => by
      obtain ⟨hst, rfl, rfl, heq⟩ := henters
      obtain ⟨rfl, rfl⟩ := Prod.mk.inj heq
      obtain ⟨hsent, hgone, habsent⟩ := harriving hst
      exact ⟨hsent, hgone, habsent, rfl, rfl⟩)
    (fun henters henters' => henters.2.1.trans henters'.2.1.symm)
    (fun hrec => hnumber hrec.1 hrec.2)
  have hbooks := hp.books.moves hmoves fun {esi k' x} henters => by
    obtain ⟨hst, rfl, -⟩ := henters
    exact h.books.arriving q
      (L2SimSession.mem_arrivals.mpr ⟨List.mem_of_getElem? hq, hst⟩)
  exact hp.reports hplaces hmoves.indexMap hbooks htrading

end Turn

-- ====================================================================== a run

/-- What is sent is of a symbol that the session knows. -/
theorem known_accepts {s : L2Sim ω ι} {w : ω} {a : OrderManager.SendAnswer}
    (haccepts : a.sent = s.session.accepts (s.order w))
    (hr : (s.trading.om.send w s.session.name a).1 = true) :
    (s.session.indexMap (s.order w).instrument).isSome := by
  rcases s.trading.om.send_spec w s.session.name a with
    ⟨-, side, hacc⟩ | ⟨hr', -⟩
  · have haccepted := haccepts.symm.trans hacc.sent
    unfold L2SimSession.accepts at haccepted
    exact (Bool.and_eq_true_iff.mp haccepted).2
  · rw [hr] at hr'
    cases hr'

/-- An order that is sent is of an instrument that the session knows. -/
theorem known_send {s : L2Sim ω ι} {w : ω} {a : OrderManager.SendAnswer}
    (haccepts : a.sent = s.session.accepts (s.order w))
    (hr : (s.trading.om.send w s.session.name a).1 = true) :
    (s.session.indexMap ((s.trading.step (.send w s.session.name a)
      ).om.order w).instrument).isSome := by
  show (s.session.indexMap ((s.trading.om.send w s.session.name a
    ).2.order w).instrument).isSome
  rcases s.trading.om.send_spec w s.session.name a with
    ⟨-, side, hacc⟩ | ⟨hr', -⟩
  · rw [hacc.order, Function.update_self]
    exact known_accepts haccepts hr
  · rw [hr] at hr'
    cases hr'

/-- A send puts one order on its way. -/
theorem Placed.send {s : L2Sim ω ι} (h : s.Placed) (w : ω)
    (validated : Bool) : (s.send w validated).Placed := by
  obtain ⟨a, haccepts, heq⟩ := s.send_eq w validated
  rw [heq]
  have hsent := s.trading.mem_sent_send w s.session.name a
  by_cases hr : (s.trading.om.send w s.session.name a).1 = true
  · have hw : w ∉ s.trading.sent := by
      intro hw
      have hagain := (Trading.send_again s.trading.om
        (h.numbered.unsent w hw) s.session.name a).1
      rw [hr] at hagain
      cases hagain
    rw [if_pos hr]
    refine ⟨Trading.numbered_step h.numbered (.send w s.session.name a),
      h.places.send h.numbered hw ((hsent w).mpr (.inr ⟨rfl, hr⟩)) _,
      fun v hv => ?_, h.books.send w (known_accepts haccepts hr)⟩
    show (s.session.indexMap ((s.trading.step (.send w s.session.name
      a)).om.order v).instrument).isSome
    rcases (hsent v).mp hv with hv | ⟨rfl, -⟩
    · have hfixed := h.numbered.fixed (.send w s.session.name a) hv
      rw [Order.instrument_of_fixed hfixed]
      exact h.known v hv
    · exact known_send haccepts hr
  · have hrefused : (s.trading.step (.send w s.session.name a)).sent
        = s.trading.sent := by
      ext v
      rw [hsent]
      exact or_iff_left fun h => hr h.2
    rw [if_neg hr]
    exact h.stays (.refl _)
      (.inr ⟨.send w s.session.name a, rfl, hrefused⟩)

omit [DecidableEq ω] in
/-- A symbol is defined, perhaps again. -/
theorem Placed.symbolDefinition {s : L2Sim ω ι} (h : s.Placed) (ticker : ι)
    (esi : Nat) :
    { s with session := s.session.onSymbolDefinition ticker esi }.Placed where
  numbered := h.numbered
  places :=
    { once := h.places.once
      sent := h.places.sent
      absent := h.places.absent
      kept := h.places.kept
      routed := h.places.routed
      apart := h.places.apart
      sorted := h.places.sorted
      positive := h.places.positive
      record := h.places.record }
  known w hw := by
    show (Function.update s.session.indexMap ticker (some esi)
      (s.order w).instrument).isSome
    by_cases hticker : (s.order w).instrument = ticker
    · rw [hticker, Function.update_self]
      rfl
    · rw [Function.update_of_ne hticker]
      exact h.known w hw
  books := h.books.symbolDefinition ticker esi

/-- Other inputs put nothing anywhere. -/
theorem stays_step (s : L2Sim ω ι) (i : Input ω ι) :
    (∃ w validated, i = .send w validated) ∨ (∃ k view, i = .turn k view)
    ∨ (∃ ticker esi, i = .symbolDefinition ticker esi)
    ∨ Stays s.session (s.step i).session
      ∧ Reports s.trading (s.step i).trading := by
  cases i with
  | send w validated => exact .inl ⟨_, _, rfl⟩
  | turn k view => exact .inr (.inl ⟨_, _, rfl⟩)
  | symbolDefinition ticker esi => exact .inr (.inr (.inl ⟨_, _, rfl⟩))
  | cancel w newqty =>
      refine .inr (.inr (.inr ?_))
      obtain ⟨a, heq⟩ := s.cancel_eq w newqty
      show Stays s.session (s.cancel w newqty).session
        ∧ Reports s.trading (s.cancel w newqty).trading
      rw [heq]
      refine ⟨?_, .inr ⟨.cancel w newqty a, rfl, rfl⟩⟩
      dsimp only
      split
      · exact L2SimSession.moves_emplaceAll _ _ (by simp)
      · exact .refl _
  | startOfData ts =>
      exact .inr (.inr (.inr ⟨.of_eq rfl rfl (fun _ => rfl) .inl, .inl rfl⟩))
  | endOfUpdate =>
      refine .inr (.inr (.inr ?_))
      unfold step
      dsimp only
      split
      · exact ⟨.refl _, .inl rfl⟩
      · exact ⟨.of_eq rfl rfl (fun _ => rfl) .inl, .inl rfl⟩
  | market ts esi e =>
      exact .inr (.inr (.inr ⟨(marketFrame_stays ts esi _).onMarketEvent
        s.session e fun _ hk => hk, .inl rfl⟩))

/-- The step lemma. -/
theorem placed_step {s : L2Sim ω ι} (h : s.Placed) (i : Input ω ι) :
    (s.step i).Placed := by
  rcases stays_step s i with ⟨w, validated, rfl⟩ | ⟨k, view, rfl⟩
    | ⟨ticker, esi, rfl⟩ | ⟨hstays, htrading⟩
  · exact h.send w validated
  · show (s.turn k view).Placed
    cases hq : s.session.eventq[k]? with
    | none =>
        unfold turn
        rw [hq]
        exact h
    | some q =>
        rw [turn_eq s hq]
        exact h.serve hq view
  · exact h.symbolDefinition ticker esi
  · exact h.stays hstays htrading

omit [DecidableEq ω] [DecidableEq ι] in
/-- Before the first input nothing is anywhere. -/
theorem placed_start (c : OrderManagerConf ω ι) (name : Bytes)
    (mic : SimMarket) (ackLatency cxlLatency : Nat)
    (imbalanceOnly : ω → Bool) :
    (start c (.create name mic ackLatency cxlLatency
      imbalanceOnly)).Placed where
  numbered := Trading.numbered_start c
  places :=
    { once := List.nodup_nil
      sent := nofun
      absent := nofun
      kept := nofun
      routed := nofun
      apart := nofun
      sorted := fun _ _ => List.Pairwise.nil
      positive := nofun
      record := nofun }
  known := nofun
  books := ⟨nofun, nofun, nofun⟩

/-- In every run an order is on its way or in its place or gone. -/
theorem placed_run (c : OrderManagerConf ω ι) (name : Bytes)
    (mic : SimMarket) (ackLatency cxlLatency : Nat)
    (imbalanceOnly : ω → Bool) (is : List (Input ω ι)) :
    (Lib.run step (start c (.create name mic ackLatency cxlLatency
      imbalanceOnly)) is).Placed :=
  Lib.run_induction (I := Placed) (fun _ i h => placed_step h i)
    (placed_start c name mic ackLatency cxlLatency imbalanceOnly)

-- =================================================================== requests

section Request

variable {s : L2Sim ω ι} (h : s.Placed) (ts : Nat) {se : SimEvent ω}

include h

omit [DecidableEq ι] in
/-- A request is rejected that is of an order not on record, or not in a
state to be cancelled. -/
theorem Placed.request_denied
    (hnot : ¬ (s.session.orders (s.order se.order).localID = some se.order
      ∧ cancelable (s.order se.order).state = true)) :
    ∃ due e, (s.session.onOrderPendingCancel s.order ts se).eventq
      = s.session.eventq ++ [(due, e)] ∧ e.state = .cancelRejected := by
  unfold L2SimSession.onOrderPendingCancel
  split
  case h_1 => exact ⟨_, _, rfl, rfl⟩
  case h_2 v hrec =>
    obtain rfl : se.order = v := (h.places.record hrec).2.2 _ rfl
    split
    case isFalse => exact ⟨_, _, rfl, rfl⟩
    case isTrue hcancelable => exact absurd ⟨hrec, hcancelable⟩ hnot

omit [DecidableEq ι] in
/-- So is a request of an order that does not rest in the book. -/
theorem Placed.request_missing
    (hnone : ∀ p, (p, se.order) ∉ s.session.held se.esi
      (restingContainer (s.order se.order))) :
    ∃ due e, (s.session.onOrderPendingCancel s.order ts se).eventq
      = s.session.eventq ++ [(due, e)] ∧ e.state = .cancelRejected := by
  unfold L2SimSession.onOrderPendingCancel
  split
  case h_1 => exact ⟨_, _, rfl, rfl⟩
  case h_2 v hrec =>
    obtain rfl : se.order = v := (h.places.record hrec).2.2 _ rfl
    split
    case isFalse => exact ⟨_, _, rfl, rfl⟩
    case isTrue =>
      have hmissing : (reduceHelper ((s.session.books se.esi).orders
          (restingContainer (s.order se.order))) (s.order se.order).price
          se.order se.size).1 = 0 :=
        reduceHelper_missing fun simo hfind horder => hnone _
          (mem_keys.mpr ⟨simo, OrderContainer.mem_of_find hfind, horder⟩)
      dsimp only
      rw [if_pos hmissing]
      exact ⟨_, _, rfl, rfl⟩

end Request

-- =============================================================== what is over

/-- An order that has left its place, or never got there. -/
structure Gone (s : L2Sim ω ι) (w : ω) : Prop where
  sent : w ∈ s.trading.sent
  arrived : w ∉ s.session.travelling
  absent : ∀ esi k p, (p, w) ∉ s.session.held esi k

variable {w : ω}

omit [DecidableEq ω] [DecidableEq ι] in
/-- What nothing is put into, and nothing new is on its way to. -/
theorem Gone.moves {s s' : L2Sim ω ι} (h : s.Gone w)
    {enters : Nat → Container → Rat × ω → Prop} {records : Nat → ω → Prop}
    (hmoves : Moves enters records s.session s'.session)
    (henters : ∀ esi k p, ¬ enters esi k (p, w))
    (hsent : s.trading.sent ⊆ s'.trading.sent) : s'.Gone w where
  sent := hsent h.sent
  arrived := hmoves.travelling ▸ h.arrived
  absent esi k p hin :=
    (hmoves.held hin).elim (h.absent esi k p) (henters esi k p)

/-- A report leaves sent what was sent. -/
theorem Reports.subset {t t' : Trading ω ι} (h : Reports t t') :
    t.sent ⊆ t'.sent := by
  rcases h with heq | ⟨e, heq, hsent⟩
  · rw [heq]
  · rw [heq, hsent]

/-- A send of another order does not bring one back, and one that is gone is
not sent again. -/
theorem Gone.send {s : L2Sim ω ι} (hw : s.Gone w) (h : s.Placed) (v : ω)
    (validated : Bool) : (s.send v validated).Gone w := by
  obtain ⟨a, -, heq⟩ := s.send_eq v validated
  rw [heq]
  refine ⟨s.trading.subset_sent _ hw.sent, ?_, fun esi k p => ?_⟩
  · dsimp only
    split
    case isTrue hr =>
      intro hin
      obtain ⟨q, hq, hst, horder⟩ := mem_travelling.mp hin
      rcases List.mem_append.mp hq with hq | hq
      · exact hw.arrived (mem_travelling.mpr ⟨q, hq, hst, horder⟩)
      · -- it would have been sent again
        obtain rfl : v = w := by
          simp only [List.map_cons, List.map_nil, List.mem_singleton] at hq
          rw [hq] at horder
          exact horder
        have hagain := (Trading.send_again s.trading.om
          (h.numbered.unsent v hw.sent) s.session.name a).1
        rw [hr] at hagain
        cases hagain
    case isFalse => exact hw.arrived
  · dsimp only
    split <;> exact hw.absent esi k p

/-- Nor does a turn. -/
theorem Gone.turn {s : L2Sim ω ι} (hw : s.Gone w) (h : s.Placed) (k : Nat)
    (view : BookView) : (s.turn k view).Gone w := by
  cases hq : s.session.eventq[k]? with
  | none =>
      unfold L2Sim.turn
      rw [hq]
      exact hw
  | some q =>
      rw [turn_eq s hq]
      have hne : q.2.state = .sent → q.2.order ≠ w :=
        fun hst heq => hw.arrived (mem_travelling.mpr
          ⟨q, List.mem_of_getElem? hq, hst, heq⟩)
      have hpopped : (s.popped k q.1).Gone w := by
        refine ⟨hw.sent, fun hin => hw.arrived ?_, hw.absent⟩
        obtain ⟨x, hx, hst, horder⟩ := mem_travelling.mp hin
        exact mem_travelling.mpr
          ⟨x, List.mem_of_mem_eraseIdx hx, hst, horder⟩
      obtain ⟨hmoves, htrading⟩ := moves_serve (s.popped k q.1)
        (ofLex q.1).1 q.2 view fun hst =>
          h.numbered.sized _ (h.arriving hq hst).1
      refine hpopped.moves hmoves (fun esi k' p henters => ?_)
        (Reports.subset htrading)
      obtain ⟨hst, -, -, heq⟩ := henters
      exact hne hst (congrArg Prod.snd heq).symm

/-- An order that is gone does not come back. -/
theorem gone_step {s : L2Sim ω ι} (h : s.Placed) (hw : s.Gone w)
    (i : Input ω ι) : (s.step i).Gone w := by
  rcases stays_step s i with ⟨v, validated, rfl⟩ | ⟨k, view, rfl⟩
    | ⟨ticker, esi, rfl⟩ | ⟨hstays, htrading⟩
  · exact hw.send h v validated
  · exact hw.turn h k view
  · exact ⟨hw.sent, hw.arrived, hw.absent⟩
  · exact hw.moves hstays (fun _ _ _ => id) (Reports.subset htrading)

/-- In no run. -/
theorem gone_run {s : L2Sim ω ι} (h : s.Placed) (hw : s.Gone w)
    (is : List (Input ω ι)) :
    (Lib.run step s is).Placed ∧ (Lib.run step s is).Gone w :=
  Lib.run_induction (I := fun s : L2Sim ω ι => s.Placed ∧ s.Gone w)
    (fun _ i hi => ⟨placed_step hi.1 i, gone_step hi.1 hi.2 i⟩) ⟨h, hw⟩

end L2Sim

end TradingEngine.OE
