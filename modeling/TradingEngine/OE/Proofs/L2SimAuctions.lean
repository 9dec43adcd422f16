/-
Whether a cross settles each order once.

# Where it goes wrong

`cross_helper` erases an order only if it fills it. An order whose remainder
it cancels, or that it cancels whole, stays in its container, and the next
cross enqueues for it again. So a cross settles its orders once exactly if
it fills them all (`auction_settles_iff`): no pool is ever overdrawn, and
what is filled is gone for good.

# Over

An order that a cross has filled is out of its container, and it never comes
back, as it is not sent twice (`Over`). So no later cross enqueues for it, in
any run from there. If one is left in its container after the cross, a print
of the same auction with another id finds it again. What is drawn from a pool
is counted by the same loop that fills, and stays within the pool in either
case.
-/
import TradingEngine.OE.Proofs.L2SimPlaces

namespace TradingEngine.OE

variable {ω ι : Type}

namespace L2SimSession

/-- The sizes of the events of a kind. -/
def sumOf (kind : SimEvent ω → Bool) (es : List (SimEvent ω)) : Nat :=
  ((es.filter kind).map fun e => e.size).sum

@[simp] theorem sumOf_nil (kind : SimEvent ω → Bool) : sumOf kind [] = 0 :=
  rfl

@[simp] theorem sumOf_cons (kind : SimEvent ω → Bool) (e : SimEvent ω)
    (es : List (SimEvent ω)) :
    sumOf kind (e :: es) = (if kind e then e.size else 0) + sumOf kind es := by
  unfold sumOf
  rw [List.filter_cons]
  split <;> simp

@[simp] theorem sumOf_append (kind : SimEvent ω → Bool)
    (es es' : List (SimEvent ω)) :
    sumOf kind (es ++ es') = sumOf kind es + sumOf kind es' := by
  unfold sumOf
  rw [List.filter_append, List.map_append, List.sum_append]

theorem sumOf_eq_zero {kind : SimEvent ω → Bool} {es : List (SimEvent ω)}
    (h : ∀ e ∈ es, kind e = false) : sumOf kind es = 0 := by
  induction es with
  | nil => rfl
  | cons e es ih =>
      rw [sumOf_cons, h e List.mem_cons_self,
        ih fun e he => h e (List.mem_cons_of_mem _ he)]
      rfl

/-- The fills of orders that draw on a pool. -/
def ofPool (imbalanceOnly : ω → Bool) (pool : Bool) (e : SimEvent ω) : Bool :=
  decide (e.state = .filled) && imbalanceOnly e.order == pool

/-- The events of an order, of a kind. -/
def ofOrder [DecidableEq ω] (st : OrderState) (w : ω) (e : SimEvent ω) :
    Bool := decide (e.state = st) && decide (e.order = w)

/-- What the orders that draw on a pool have left. -/
def wanted (imbalanceOnly : ω → Bool) (pool : Bool) (c : OrderContainer ω) :
    Nat :=
  ((c.filter fun y => imbalanceOnly y.2.order == pool).map fun y =>
    y.2.remains).sum

theorem wanted_cons (imbalanceOnly : ω → Bool) (pool : Bool) (p : Rat)
    (o : SimOrder ω) (c : OrderContainer ω) :
    wanted imbalanceOnly pool ((p, o) :: c)
      = (if imbalanceOnly o.order = pool then o.remains else 0)
        + wanted imbalanceOnly pool c := by
  unfold wanted
  rw [List.filter_cons]
  by_cases h : imbalanceOnly o.order = pool <;> simp [h]

theorem AvailSize.get_remove (a : AvailSize) (pool pool' : Bool) (n : Nat) :
    (a.remove pool n).get pool'
      = a.get pool' - if pool = pool' then n else 0 := by
  unfold AvailSize.remove AvailSize.get
  cases pool <;> cases pool' <;> simp

-- ===================================================================== a pass

section Entry

variable (order : ω → Order ι) (esi : Nat) {x : Cross ω} {a : AvailSize}
  {o : SimOrder ω}

/-- The order is filled by a pass. -/
def FillsEntry (x : Cross ω) (a : AvailSize) (o : SimOrder ω) : Prop :=
  x.checkPrice o.order = true ∧ o.sizeAhead = 0
    ∧ o.remains ≤ a.get (x.imbalanceOnly o.order)

/-- A pass erases what it fills. -/
theorem crossEntry_gone_iff (hpos : 0 < o.remains) :
    (crossEntry order esi x a o).1 = none ↔ FillsEntry x a o := by
  unfold crossEntry FillsEntry
  by_cases hcheck : x.checkPrice o.order = true
  case neg => cases x.cxlRemainder <;> simp [hcheck]
  case pos =>
    by_cases havail : a.get (x.imbalanceOnly o.order) = 0
    case pos =>
      have hmore : o.remains ≠ 0 := by omega
      cases x.cxlRemainder <;> simp [hcheck, havail, hmore]
    case neg =>
      by_cases hahead : o.sizeAhead = 0
      case neg =>
        have hrest : o.remains ≠ 0 := by omega
        cases x.cxlRemainder <;> simp [hcheck, havail, hahead, hrest]
      case pos =>
        by_cases hle : o.remains ≤ a.get (x.imbalanceOnly o.order)
        · simp [hcheck, havail, hahead, hle]
        · have hlt : a.get (x.imbalanceOnly o.order) < o.remains := by omega
          have hrest : o.remains - a.get (x.imbalanceOnly o.order) ≠ 0 := by
            omega
          cases x.cxlRemainder <;>
            simp [hcheck, havail, hahead, Nat.min_eq_right hlt.le, hrest, hlt]

/-- Then it enqueues one fill, of all that was left. -/
theorem crossEntry_fills (hpos : 0 < o.remains) (h : FillsEntry x a o) :
    (crossEntry order esi x a o).2
      = ([⟨.filled, o.order, esi, o.remains, x.ref⟩],
        a.remove (x.imbalanceOnly o.order) o.remains) := by
  obtain ⟨hcheck, hahead, hle⟩ := h
  have havail : a.get (x.imbalanceOnly o.order) ≠ 0 := by omega
  unfold crossEntry
  simp [hcheck, hahead, havail, Nat.min_eq_left hle]

/-- With the remainder cancelled, something is enqueued in any case. -/
theorem crossEntry_enqueues (hcxl : x.cxlRemainder = true)
    (hpos : 0 < o.remains) : (crossEntry order esi x a o).2.1 ≠ [] := by
  have hrest : o.remains ≠ 0 := by omega
  unfold crossEntry
  by_cases hahead : o.sizeAhead = 0
  · -- a fill, or the cancel of all
    simp only [hahead, hcxl, if_true]
    repeat' split
    all_goals simp
  · -- nothing is filled, so the remainder is cancelled
    simp only [hahead, hcxl, hrest, if_true, if_false, Nat.sub_zero]
    split <;> simp

/-- What is filled is taken off the pool, which has it. -/
theorem crossEntry_pool (pool : Bool) :
    sumOf (ofPool x.imbalanceOnly pool) (crossEntry order esi x a o).2.1
        ≤ a.get pool
    ∧ (crossEntry order esi x a o).2.2.get pool
      = a.get pool - sumOf (ofPool x.imbalanceOnly pool)
        (crossEntry order esi x a o).2.1 := by
  have hcancel : ∀ n, sumOf (ofPool x.imbalanceOnly pool)
      [(⟨.cancelled, o.order, esi, n, 0⟩ : SimEvent ω)] = 0 := by
    simp [ofPool]
  have hfill : ∀ n, sumOf (ofPool x.imbalanceOnly pool)
      [(⟨.filled, o.order, esi, n, x.ref⟩ : SimEvent ω)]
      = if x.imbalanceOnly o.order = pool then n else 0 := by
    simp [ofPool]
  have hwithin : (if x.imbalanceOnly o.order = pool then
      min o.remains (a.get (x.imbalanceOnly o.order)) else 0)
      ≤ a.get pool := by
    split
    case isTrue hpool => exact hpool ▸ Nat.min_le_right ..
    case isFalse => exact Nat.zero_le _
  unfold crossEntry
  dsimp only
  by_cases hahead : o.sizeAhead = 0
  · simp only [if_pos hahead]
    repeat' split
    all_goals
      simp only [sumOf_append, sumOf_nil, hfill, hcancel, hwithin,
        AvailSize.get_remove, Nat.add_zero, Nat.sub_zero, Nat.zero_le,
        and_self]
  · simp only [if_neg hahead]
    repeat' split
    all_goals
      simp only [sumOf_append, sumOf_nil, hcancel, AvailSize.get_remove,
        ite_self, Nat.add_zero, Nat.sub_zero, Nat.zero_le, and_self]

end Entry

-- ===================================================================== a loop

section Loop

variable (order : ω → Order ι) (esi : Nat) (x : Cross ω)

/-- No pool is overdrawn. -/
theorem crossLoop_pool (pool : Bool) (a : AvailSize) (c : OrderContainer ω) :
    sumOf (ofPool x.imbalanceOnly pool) (crossLoop order esi x a c).2
      ≤ a.get pool := by
  induction c generalizing a with
  | nil => exact Nat.zero_le _
  | cons y c ih =>
      obtain ⟨p, o⟩ := y
      obtain ⟨hle, hrest⟩ := crossEntry_pool order esi pool (x := x) (a := a)
        (o := o)
      have hih := ih (crossEntry order esi x a o).2.2
      unfold crossLoop
      rw [sumOf_append]
      rw [hrest] at hih
      omega

/-- Every order of the container is filled. -/
structure FillsAll (x : Cross ω) (a : AvailSize) (c : OrderContainer ω) :
    Prop where
  crosses : ∀ y ∈ c, x.checkPrice y.2.order = true ∧ y.2.sizeAhead = 0
  wanted : ∀ pool, wanted x.imbalanceOnly pool c ≤ a.get pool

theorem fillsAll_cons {x : Cross ω} {a : AvailSize} {p : Rat}
    {o : SimOrder ω} {c : OrderContainer ω} :
    FillsAll x a ((p, o) :: c) ↔ FillsEntry x a o
      ∧ FillsAll x (a.remove (x.imbalanceOnly o.order) o.remains) c := by
  constructor
  · intro h
    obtain ⟨hcheck, hahead⟩ := h.crosses _ List.mem_cons_self
    have hpool := h.wanted (x.imbalanceOnly o.order)
    rw [wanted_cons, if_pos rfl] at hpool
    refine ⟨⟨hcheck, hahead, by omega⟩,
      fun y hy => h.crosses y (List.mem_cons_of_mem _ hy), fun pool => ?_⟩
    have hwanted := h.wanted pool
    rw [wanted_cons] at hwanted
    rw [AvailSize.get_remove]
    omega
  · rintro ⟨⟨hcheck, hahead, hle⟩, h⟩
    refine ⟨fun y hy => ?_, fun pool => ?_⟩
    · rcases List.mem_cons.mp hy with rfl | hy
      · exact ⟨hcheck, hahead⟩
      · exact h.crosses y hy
    · have hwanted := h.wanted pool
      rw [AvailSize.get_remove] at hwanted
      rw [wanted_cons]
      by_cases hpool : x.imbalanceOnly o.order = pool
      · subst hpool
        rw [if_pos rfl] at hwanted ⊢
        omega
      · rw [if_neg hpool] at hwanted ⊢
        omega

variable {a : AvailSize} {c : OrderContainer ω}
  (hpos : ∀ y ∈ c, 0 < y.2.remains)

include hpos

/-- A loop leaves nothing exactly if it fills everything. -/
theorem crossLoop_empty_iff :
    (crossLoop order esi x a c).1 = [] ↔ FillsAll x a c := by
  induction c generalizing a with
  | nil =>
      refine iff_of_true rfl ⟨nofun, fun pool => ?_⟩
      exact Nat.zero_le _
  | cons y c ih =>
      obtain ⟨p, o⟩ := y
      have ho := hpos _ List.mem_cons_self
      have hih := fun a => ih (a := a) fun y hy =>
        hpos y (List.mem_cons_of_mem _ hy)
      have hgone := crossEntry_gone_iff order esi (x := x) (a := a) ho
      unfold crossLoop
      dsimp only
      rw [List.append_eq_nil_iff, fillsAll_cons, hih, ← hgone]
      cases hentry : (crossEntry order esi x a o).1 with
      | none =>
          rw [crossEntry_fills order esi ho (hgone.mp hentry)]
          simp
      | some o' => simp

/-- And then it enqueues a fill of all of each order. -/
theorem crossLoop_fills (h : FillsAll x a c) :
    (crossLoop order esi x a c).2 = c.map fun y =>
      ⟨.filled, y.2.order, esi, y.2.remains, x.ref⟩ := by
  induction c generalizing a with
  | nil => rfl
  | cons y c ih =>
      obtain ⟨p, o⟩ := y
      obtain ⟨hfills, hrest⟩ := fillsAll_cons.mp h
      unfold crossLoop
      dsimp only
      rw [crossEntry_fills order esi (hpos _ List.mem_cons_self) hfills,
        ih (fun y hy => hpos y (List.mem_cons_of_mem _ hy)) hrest]
      rfl

/-- With the remainders cancelled, every order gets an event. -/
theorem crossLoop_enqueues (hcxl : x.cxlRemainder = true) :
    ∀ y ∈ c, ∃ e ∈ (crossLoop order esi x a c).2, e.order = y.2.order := by
  induction c generalizing a with
  | nil => exact nofun
  | cons y c ih =>
      obtain ⟨p, o⟩ := y
      intro z hz
      unfold crossLoop
      rcases List.mem_cons.mp hz with rfl | hz
      · obtain ⟨e, he⟩ := List.exists_mem_of_ne_nil _
          (crossEntry_enqueues order esi (a := a) hcxl
            (hpos _ List.mem_cons_self))
        exact ⟨e, List.mem_append_left _ he,
          ((crossEntry_thins order esi x a o).1 e he).2⟩
      · obtain ⟨e, he, horder⟩ := ih (a := (crossEntry order esi x a o).2.2)
          (fun y hy => hpos y (List.mem_cons_of_mem _ hy)) z hz
        exact ⟨e, List.mem_append_right _ he, horder⟩

end Loop

/-- What is filled of one order, where no order is twice. -/
theorem sumOf_fills [DecidableEq ω] (esi : Nat) (ref : Rat)
    {c : OrderContainer ω} (honce : ((keys c).map Prod.snd).Nodup) :
    ∀ y ∈ c, sumOf (ofOrder .filled y.2.order) (c.map fun y =>
      ⟨.filled, y.2.order, esi, y.2.remains, ref⟩) = y.2.remains := by
  induction c with
  | nil => exact nofun
  | cons z c ih =>
      obtain ⟨hfirst, hrest⟩ := List.nodup_cons.mp honce
      have hother : ∀ y ∈ c, y.2.order ≠ z.2.order := by
        intro y hy heq
        exact hfirst (List.mem_map.mpr
          ⟨(y.1, z.2.order), mem_keys.mpr ⟨y.2, hy, heq⟩, rfl⟩)
      intro y hy
      rw [List.map_cons, sumOf_cons]
      rcases List.mem_cons.mp hy with rfl | hy
      · have hnone : sumOf (ofOrder .filled y.2.order) (c.map fun z =>
            ⟨.filled, z.2.order, esi, z.2.remains, ref⟩) = 0 := by
          refine sumOf_eq_zero fun e he => ?_
          obtain ⟨z, hz, rfl⟩ := List.mem_map.mp he
          simp [ofOrder, hother z hz]
        rw [hnone]
        simp [ofOrder]
      · have hne := (hother y hy).symm
        rw [ih hrest y hy]
        simp [ofOrder, hne]

/-- No order is twice in a container. -/
theorem Places.orders_nodup {ss : L2SimSession ω ι} {t : Trading ω ι}
    (h : ss.Places t) (esi : Nat) (k : Container) :
    ((ss.held esi k).map Prod.snd).Nodup := by
  refine List.pairwise_map.mpr ((h.sorted esi k).imp_of_mem ?_)
  intro x y hx hy hbefore heq
  -- two entries of an order are under one price
  obtain ⟨-, hpx⟩ := h.routed hx
  obtain ⟨-, hpy⟩ := h.routed hy
  rw [hpx, hpy, heq, Container.not_before_self] at hbefore
  cases hbefore

end L2SimSession

namespace L2Sim

open L2SimSession (Cross FillsAll Stays crossLoop crossLoop_empty_iff
  crossLoop_enqueues crossLoop_fills crossLoop_pool marketFrame_stays ofOrder
  ofPool plainCross priceGE sumOf sumOf_eq_zero sumOf_fills
  thins_crossLoop)

variable [DecidableEq ω] [DecidableEq ι]

-- ================================================================ statements

/-- After a cross of a container. -/
def afterCross (s : L2Sim ω ι) (esi : Nat) (k : Container) (x : Cross ω)
    (ts : Nat) : L2Sim ω ι :=
  s.withSession (s.session.crossHelper s.order esi k x ts).1

/-- The events that it enqueues. -/
def crossEvents (s : L2Sim ω ι) (esi : Nat) (k : Container) (x : Cross ω)
    (ts : Nat) : List (SimEvent ω) :=
  ((s.afterCross esi k x ts).session.eventq.drop
    s.session.eventq.length).map Prod.snd

/-- Whatever happens from here on, no cross enqueues anything for the order,
and a cancel nothing but its rejection. -/
structure Over (s : L2Sim ω ι) (w : ω) : Prop where
  crosses : ∀ is esi k x ts,
    ∀ e ∈ (Lib.run step s is).crossEvents esi k x ts, e.order ≠ w
  cancels : ∀ is ts se, se.order = w →
    let s' := Lib.run step s is
    ∃ due e, (s'.session.onOrderPendingCancel s'.order ts se).eventq
      = s'.session.eventq ++ [(due, e)] ∧ e.state = .cancelRejected

/-- A cross settles each order, within the pools, and once. -/
structure SettlesOnce (s : L2Sim ω ι) (esi : Nat) (k : Container)
    (x : Cross ω) (ts : Nat) : Prop where
  settled : ∀ y ∈ (s.session.books esi).orders k,
    sumOf (ofOrder .filled y.2.order) (s.crossEvents esi k x ts)
      + sumOf (ofOrder .cancelled y.2.order) (s.crossEvents esi k x ts)
      = y.2.remains
  pools : ∀ pool, sumOf (ofPool x.imbalanceOnly pool)
    (s.crossEvents esi k x ts) ≤ x.avail.get pool
  finished : ∀ y ∈ (s.session.books esi).orders k,
    (s.afterCross esi k x ts).Over y.2.order

-- ==================================================================== a cross

section Cross

variable {s : L2Sim ω ι} (esi : Nat) (k : Container) (x : Cross ω) (ts : Nat)

omit [DecidableEq ω] [DecidableEq ι] in
theorem crossEvents_eq : s.crossEvents esi k x ts
    = (crossLoop s.order esi x x.avail ((s.session.books esi).orders k)).2 := by
  have heventq : (s.afterCross esi k x ts).session.eventq
      = s.session.eventq ++ _ := rfl
  unfold crossEvents
  rw [heventq, List.drop_left, List.map_map]
  exact List.map_id _

omit [DecidableEq ω] [DecidableEq ι] in
/-- What it leaves in the container. -/
theorem orders_afterCross :
    ((s.afterCross esi k x ts).session.books esi).orders k
      = (crossLoop s.order esi x x.avail
        ((s.session.books esi).orders k)).1 := by
  show ((s.session.setOrders esi k _).books esi).orders k = _
  rw [orders_setOrders, if_pos ⟨rfl, rfl⟩]

omit [DecidableEq ω] [DecidableEq ι] in
theorem stays_afterCross :
    Stays s.session (s.afterCross esi k x ts).session :=
  (marketFrame_stays ts esi [k]).crossHelper List.mem_cons_self s.session x

/-- Nothing is enqueued for an order that is nowhere. -/
theorem Gone.over (h : s.Placed) {w : ω} (hw : s.Gone w) : s.Over w where
  crosses is esi k x ts e he heq := by
    obtain ⟨-, hgone⟩ := gone_run h hw is
    rw [crossEvents_eq] at he
    obtain ⟨-, p, hin⟩ := (thins_crossLoop x x.avail _).events e he
    exact hgone.absent esi k p (heq ▸ hin)
  cancels is ts se heq := by
    obtain ⟨hplaced, hgone⟩ := gone_run h hw is
    exact hplaced.request_missing ts fun p => heq ▸ hgone.absent _ _ p

variable {k x}

omit [DecidableEq ω] [DecidableEq ι] in
/-- Where a cross leaves nothing, its orders are gone. -/
theorem Placed.gone_of_empty (h : s.Placed)
    (hempty : (crossLoop s.order esi x x.avail
      ((s.session.books esi).orders k)).1 = []) :
    ∀ y ∈ (s.session.books esi).orders k,
      (s.afterCross esi k x ts).Gone y.2.order := by
  intro y hy
  have hin : (y.1, y.2.order) ∈ s.session.held esi k :=
    mem_keys.mpr ⟨y.2, hy, rfl⟩
  have hstays := stays_afterCross (s := s) esi k x ts
  refine ⟨h.places.kept hin, fun htravels => ?_, fun esi' k' p hin' => ?_⟩
  · rw [hstays.travelling] at htravels
    exact h.places.absent _ htravels esi k y.1 hin
  · -- it was in this container only
    have hwas := (hstays.held hin').resolve_right id
    obtain rfl := h.places.apart hwas hin
    obtain rfl : k' = k :=
      (h.places.routed hwas).1.trans (h.places.routed hin).1.symm
    unfold L2SimSession.held at hin'
    rw [orders_afterCross, hempty] at hin'
    cases hin'

/-- The result for one state. -/
theorem Placed.settlesOnce_iff (h : s.Placed) (hcxl : x.cxlRemainder = true) :
    s.SettlesOnce esi k x ts
      ↔ FillsAll x x.avail ((s.session.books esi).orders k) := by
  have hpos := h.places.positive esi k
  have hthins : Thins ((s.session.books esi).orders k)
      (crossLoop s.order esi x x.avail ((s.session.books esi).orders k)).1
      (crossLoop s.order esi x x.avail ((s.session.books esi).orders k)).2 :=
    thins_crossLoop x x.avail _
  constructor
  · intro hsettles
    rw [← crossLoop_empty_iff s.order esi x hpos]
    -- the next cross would find what this one leaves
    refine List.eq_nil_iff_forall_not_mem.mpr fun y hy => ?_
    obtain ⟨z, hz, horder⟩ := mem_keys.mp
      (hthins.keys.subset (mem_keys.mpr ⟨y.2, hy, rfl⟩))
    obtain ⟨e, he, heq⟩ := crossLoop_enqueues
      (s.afterCross esi k x ts).order esi x (hthins.positive hpos) hcxl
      (a := x.avail) y hy
    refine (hsettles.finished _ hz).crosses [] esi k x ts e ?_
      (heq.trans horder.symm)
    rw [Lib.run_nil, crossEvents_eq, orders_afterCross]
    exact he
  · intro hfills
    have hempty := (crossLoop_empty_iff s.order esi x hpos).mpr hfills
    have hevents := crossLoop_fills s.order esi x hpos hfills
    refine ⟨fun y hy => ?_, fun pool => ?_, fun y hy => ?_⟩
    · rw [crossEvents_eq, hevents,
        sumOf_fills esi x.ref (h.places.orders_nodup esi k) y hy]
      have hnone : sumOf (ofOrder .cancelled y.2.order)
          (((s.session.books esi).orders k).map fun y =>
            ⟨.filled, y.2.order, esi, y.2.remains, x.ref⟩) = 0 := by
        refine sumOf_eq_zero fun e he => ?_
        obtain ⟨z, -, rfl⟩ := List.mem_map.mp he
        simp [ofOrder]
      rw [hnone, Nat.add_zero]
    · rw [crossEvents_eq]
      exact crossLoop_pool s.order esi x pool x.avail _
    · have hplaced := h.stays (stays_afterCross esi k x ts) (.inl rfl)
      exact (h.gone_of_empty esi ts hempty y hy).over hplaced

end Cross

/-- In every run, a cross that cancels the remainders settles its orders
once if and only if it fills them all. -/
theorem auction_settles_iff (c : OrderManagerConf ω ι) (name : Bytes)
    (mic : SimMarket) (ackLatency cxlLatency : Nat)
    (imbalanceOnly : ω → Bool) (is : List (Input ω ι)) {s : L2Sim ω ι}
    (hs : s = Lib.run step (start c (.create name mic ackLatency cxlLatency
      imbalanceOnly)) is)
    (esi : Nat) (k : Container) {x : Cross ω} (hcxl : x.cxlRemainder = true)
    (ts : Nat) :
    s.SettlesOnce esi k x ts
      ↔ FillsAll x x.avail ((s.session.books esi).orders k) := by
  subst hs
  exact (placed_run c name mic ackLatency cxlLatency imbalanceOnly
    is).settlesOnce_iff esi ts hcxl

-- ====================================================================== demos

/-- Ten are bid for in the closing auction. -/
def demoParamsClose : OrderParams Nat :=
  { demoParams 10 .limit with tif := .auctionClose }

/-- The bid has arrived and is acknowledged. -/
def demoWaits : List (Input Nat Nat) :=
  demoSend ++ [.turn 0 noOffer, .turn 0 noOffer, .endOfUpdate]

def demoClose : L2Sim Nat Nat :=
  Lib.run step (start (.plain fun _ : Nat => demoParamsClose)
    (.create [66] .xnas 1 1 fun _ => false)) demoWaits

/-- A print at 10. -/
def demoCross (size : Nat) : Cross Nat :=
  { plainCross (fun w => priceGE 10 (demoClose.order w)) 10 size with
    cxlRemainder := true }

theorem auction_settles_iff_demo :
    demoClose.SettlesOnce 0 .closeBids (demoCross 10) 10
      ↔ FillsAll (demoCross 10) (demoCross 10).avail
        ((demoClose.session.books 0).orders .closeBids) :=
  auction_settles_iff (.plain fun _ : Nat => demoParamsClose) [66] .xnas 1 1
    (fun _ => false) demoWaits rfl 0 .closeBids rfl 10

/-- Four of ten are filled and six cancelled, and the next print of the
auction fills four more. -/
theorem auction_settles_twice :
    ¬ ∀ (is : List (Input Nat Nat)) (s : L2Sim Nat Nat) (esi : Nat)
      (k : Container) (x : Cross Nat) (ts : Nat),
      Lib.Admits step Possible (start (.plain fun _ => demoParamsClose)
        (.create [66] .xnas 1 1 fun _ => false)) is →
      s = Lib.run step (start (.plain fun _ => demoParamsClose)
        (.create [66] .xnas 1 1 fun _ => false)) is →
      k.auction = true → x.cxlRemainder = true → s.SettlesOnce esi k x ts := by
  intro h
  have hsettles := h demoWaits demoClose 0 .closeBids (demoCross 4) 10
    (by decide +kernel) rfl rfl rfl
  have hwaits : (10, ⟨0, 0, 0, 10⟩)
      ∈ (demoClose.session.books 0).orders .closeBids := by
    decide +kernel
  have hagain : ∃ e ∈ (demoClose.afterCross 0 .closeBids (demoCross 4)
      10).crossEvents 0 .closeBids (demoCross 4) 10, e.order = 0 := by
    decide +kernel
  obtain ⟨e, he, horder⟩ := hagain
  exact (hsettles.finished _ hwaits).crosses [] 0 .closeBids (demoCross 4) 10 e
    he horder

end L2Sim

end TradingEngine.OE
