/-
Whether an order's place in the queue is tracked.

# A level

One price level of the market's book, with the size displayed there, and
one order of ours that rests at it, alone on its side. Every order event of
the level changes the displayed size and is handled by the session
(`Level.step`).

# The invariant

What is ahead of the order and behind it is no less than what is displayed
(`Covered`). An event that takes `d` off the level takes as much off the two
counters, and then both sides go down alike. But a cancel or a reduction of
an order that was executed in the same packet takes the size that the
execution had on record, each time it comes, and not `d`; and `size_behind`
has 32 bits. `Level.Tracks` is exactly when that does no harm
(`queue_position_iff`).
-/
import TradingEngine.OE.L2SimDetail
import TradingEngine.OE.Proofs.L2SimTrades

namespace TradingEngine.OE

variable {ω ι : Type}

-- =============================================================== the counters

namespace L2SimSession

/-- What `reduce_size_from_back` comes to: it takes the size off both
counters together, and complains if there is not as much. -/
theorem reduceSizeFromBack_spec (deltaSize : Nat) (o : SimOrder ω) :
    (reduceSizeFromBack deltaSize o).sizeAhead
        + (reduceSizeFromBack deltaSize o).sizeBehind
      = o.sizeAhead + o.sizeBehind - deltaSize
    ∧ (reduceSizeFromBack deltaSize o).sizeAhead ≤ o.sizeAhead
    ∧ (reduceSizeFromBack deltaSize o).sizeBehind
      = o.sizeBehind - min o.sizeBehind deltaSize
    ∧ (backAssert deltaSize o = true
      ↔ deltaSize ≤ o.sizeAhead + o.sizeBehind) := by
  obtain ⟨w, ahead, behind, remains⟩ := o
  unfold reduceSizeFromBack backAssert
  dsimp only
  by_cases hmore : behind - min behind deltaSize = 0
      ∧ deltaSize - min behind deltaSize ≠ 0
  · simp only [if_pos hmore, Bool.or_eq_true, bne_iff_ne, beq_iff_eq]
    refine ⟨by omega, by omega, trivial, by omega⟩
  · simp only [if_neg hmore, true_iff]
    refine ⟨by omega, by omega, trivial, by omega⟩

/-- Prices are told apart as doubles. -/
theorem toDouble_injective : Function.Injective MD.toDouble := by
  intro p q h
  unfold MD.toDouble at h
  have hnat : (p.toNat : Rat) = q.toNat := by
    rwa [div_left_inj' (by norm_num)] at h
  exact UInt64.toNat_inj.mp (Nat.cast_injective hnat)

end L2SimSession

-- ==================================================================== a level

/-- The level of a price, and the session with it. -/
structure Level (ω ι : Type) where
  session : L2SimSession ω ι
  /-- The size displayed at the price. -/
  displayed : Nat

namespace Level

inductive Input (ω ι : Type)
  /-- `on_start_of_data`: the executions of the last packet are forgotten. -/
  | startOfData
  | event (order : ω → Order ι) (ts : Nat) (e : MarketEvent)

section Level

variable (esi : Nat) (side : MD.Side) (price : MD.Price)

/-- What an order event makes of the size displayed at the price. -/
def display (displayed : Nat) : MarketEvent → Nat
  | .bookAdded _ _ size => displayed + size
  | .bookCanceled _ _ _ size oldSize => displayed - (oldSize - size)
  | .bookModified _ newPrice newSize _ oldPrice oldSize =>
      displayed - (if oldPrice = price then oldSize else 0)
        + (if newPrice = price then newSize else 0)
  | .bookExecuted _ _ _ _ _ _ execSize _ => displayed - execSize
  | _ => displayed

def step (l : Level ω ι) : Input ω ι → Level ω ι
  | .startOfData =>
      { l with session := { l.session with execThisPkt := fun _ => none } }
  | .event order ts e =>
      { session := l.session.onMarketEvent order ts esi e
        displayed := display price l.displayed e }

/-- An order event of the level, with sizes that are on it. -/
def OfLevel (l : Level ω ι) : Input ω ι → Prop
  | .startOfData => True
  | .event _ _ (.bookAdded side' price' size) =>
      side' = side ∧ price' = price ∧ size < 4294967296
  | .event _ _ (.bookCanceled _ side' price' size oldSize) =>
      side' = side ∧ price' = price ∧ size ≤ oldSize
        ∧ oldSize < 4294967296 ∧ oldSize - size ≤ l.displayed
  | .event _ _ (.bookModified side' newPrice newSize _ oldPrice oldSize) =>
      side' = side ∧ (oldPrice = price ∨ newPrice = price)
        ∧ newSize < 4294967296 ∧ oldSize < 4294967296
        ∧ (oldPrice = price → oldSize ≤ l.displayed)
  | .event _ _ (.bookExecuted _ side' price' size tradeId _ execSize
      oldSize) =>
      side' = side ∧ price' = price ∧ size ≤ oldSize
        ∧ tradeId ∉ (l.session.books esi).trades ∧ execSize ≤ l.displayed
  | _ => False

/-- The order that rests at the price, alone. -/
def Rests (l : Level ω ι) (o : SimOrder ω) : Prop :=
  (l.session.books esi).orders (L2SimSession.sideContainer side)
    = [(MD.toDouble price, o)]

instance [DecidableEq ω] (l : Level ω ι) (o : SimOrder ω) :
    Decidable (l.Rests esi side price o) :=
  inferInstanceAs (Decidable (_ = _))

/-- While the order rests the assertion holds, nobody comes in ahead of it,
and the counters are no less than what is displayed. -/
def Holds (l : Level ω ι) (i : Input ω ι) : Prop :=
  ∀ o o', l.Rests esi side price o →
    (l.step esi price i).Rests esi side price o' →
    (∀ order ts e, i = .event order ts e →
      l.session.backAsserts esi e = true)
    ∧ o'.sizeAhead ≤ o.sizeAhead
    ∧ (l.step esi price i).displayed ≤ o'.sizeAhead + o'.sizeBehind

/-- Size that comes in behind the order, of which `sizeBehind` is left,
fits, or there is more than enough. -/
def Fits (displayed sizeBehind size : Nat) (o : SimOrder ω) : Prop :=
  sizeBehind + size < 4294967296
    ∨ displayed + 4294967296 ≤ o.sizeAhead + o.sizeBehind

/-- What is taken off the counters leaves what is displayed. -/
def Leaves (displayed delta : Nat) (o : SimOrder ω) : Prop :=
  delta + displayed ≤ o.sizeAhead + o.sizeBehind

/-- The condition. -/
def Tracks (l : Level ω ι) (i : Input ω ι) : Prop :=
  ∀ o, l.Rests esi side price o →
    match i with
    | .event _ _ (.bookAdded _ _ size) =>
        Fits l.displayed o.sizeBehind size o
    | .event _ _ (.bookCanceled refnum _ _ size oldSize) =>
        Leaves (l.displayed - (oldSize - size))
          (l.session.deltaSize refnum size oldSize) o
    | .event _ _ (.bookModified _ newPrice newSize oldRefnum oldPrice
        oldSize) =>
        if newPrice ≠ oldPrice then
          newPrice = price → Fits l.displayed o.sizeBehind newSize o
        else if newSize ≥ oldSize then
          Fits l.displayed (o.sizeBehind - min o.sizeBehind oldSize)
            newSize o
        else Leaves (l.displayed - (oldSize - newSize))
          (l.session.deltaSize oldRefnum newSize oldSize) o
    | _ => True

-- ===================================================================== a step

open L2SimSession (addSizeBehind reduceSizeFromBack sideContainer)

variable {esi side price}

/-- What an order event makes of the order, an execution apart. -/
def after (ss : L2SimSession ω ι) (price : MD.Price) (o : SimOrder ω) :
    MarketEvent → SimOrder ω
  | .bookAdded _ _ size => addSizeBehind size o
  | .bookCanceled refnum _ _ size oldSize =>
      reduceSizeFromBack (ss.deltaSize refnum size oldSize) o
  | .bookModified _ newPrice newSize oldRefnum oldPrice oldSize =>
      if newPrice ≠ oldPrice then
        if newPrice = price then addSizeBehind newSize o
        else reduceSizeFromBack oldSize o
      else if newSize ≥ oldSize then
        addSizeBehind newSize (reduceSizeFromBack oldSize o)
      else reduceSizeFromBack (ss.deltaSize oldRefnum newSize oldSize) o
  | _ => o

/-- The orders of a container at a price, after a change there. -/
theorem orders_adjust (ss : L2SimSession ω ι) (k : Container)
    (p : MD.Price) (f : SimOrder ω → SimOrder ω) :
    ((ss.adjust esi k p f).books esi).orders k
      = ((ss.books esi).orders k).updateAt (MD.toDouble p)
        fun o => some (f o) := by
  simp [L2SimSession.adjust, L2SimSession.setOrders]

/-- The only order of a container, after a change at its price. -/
theorem updateAt_here {k : Container} {ss : L2SimSession ω ι}
    {o : SimOrder ω}
    (h : (ss.books esi).orders k = [(MD.toDouble price, o)])
    (f : SimOrder ω → SimOrder ω) :
    ((ss.adjust esi k price f).books esi).orders k
      = [(MD.toDouble price, f o)] := by
  rw [orders_adjust, h]
  simp [OrderContainer.updateAt]

/-- And at another. -/
theorem updateAt_elsewhere {k : Container} {ss : L2SimSession ω ι}
    {o : SimOrder ω}
    (h : (ss.books esi).orders k = [(MD.toDouble price, o)])
    {p : MD.Price} (hp : p ≠ price) (f : SimOrder ω → SimOrder ω) :
    ((ss.adjust esi k p f).books esi).orders k
      = [(MD.toDouble price, o)] := by
  rw [orders_adjust, h]
  have hne : MD.toDouble price ≠ MD.toDouble p :=
    fun heq => hp (L2SimSession.toDouble_injective heq).symm
  simp [OrderContainer.updateAt, hne]

/-- A book that is known is found, with its orders and trades. -/
theorem found {ss : L2SimSession ω ι} (hknown : esi < ss.booksSize) :
    ∃ ss', ss.findBookEntry esi = some ss'
      ∧ (ss'.books esi).orders = (ss.books esi).orders
      ∧ (ss'.books esi).trades = (ss.books esi).trades
      ∧ ss'.execThisPkt = ss.execThisPkt := by
  refine ⟨_, if_pos hknown, ?_, ?_, rfl⟩
  · simp
  · simp

variable {l : Level ω ι} {o : SimOrder ω}

/-- An order event that is no execution. -/
theorem rests_event (hknown : esi < l.session.booksSize)
    (hrests : l.Rests esi side price o) {order : ω → Order ι} {ts : Nat}
    {e : MarketEvent} (he : l.OfLevel esi side price (.event order ts e))
    (hexec : ∀ r s p n t x m q, e ≠ .bookExecuted r s p n t x m q) :
    (l.step esi price (.event order ts e)).Rests esi side price
      (after l.session price o e) := by
  obtain ⟨ss, hfound, horders, -, hpkt⟩ := found hknown
  have hss : (ss.books esi).orders (sideContainer side)
      = [(MD.toDouble price, o)] := by
    rw [horders]
    exact hrests
  show ((l.session.onMarketEvent order ts esi e).books esi).orders
    (sideContainer side) = _
  unfold L2SimSession.onMarketEvent
  cases e with
  | bookAdded side' price' size =>
      obtain ⟨rfl, rfl, -⟩ := he
      rw [hfound]
      exact updateAt_here hss _
  | bookCanceled refnum side' price' size oldSize =>
      obtain ⟨rfl, rfl, -⟩ := he
      rw [hfound]
      simp only [hpkt]
      exact updateAt_here hss _
  | bookModified side' newPrice newSize oldRefnum oldPrice oldSize =>
      obtain ⟨rfl, hprice, -⟩ := he
      rw [hfound]
      simp only [hpkt]
      unfold L2SimSession.modifyOrderHelper after
      dsimp only
      by_cases hmoved : newPrice ≠ oldPrice
      · rw [if_pos hmoved, if_pos hmoved]
        by_cases hin : newPrice = price
        · -- it moves to the level
          subst hin
          rw [if_pos rfl]
          exact updateAt_here (updateAt_elsewhere hss hmoved.symm _) _
        · -- it leaves the level
          obtain rfl : oldPrice = price := hprice.resolve_right hin
          rw [if_neg hin]
          exact updateAt_elsewhere (updateAt_here hss _) hin _
      · obtain rfl : newPrice = oldPrice := not_not.mp hmoved
        obtain rfl : newPrice = price := hprice.elim id id
        rw [if_neg hmoved, if_neg hmoved]
        split
        · exact updateAt_here hss _
        · exact updateAt_here hss _
  | bookExecuted r s p n t x m q => exact absurd rfl (hexec r s p n t x m q)
  | _ => cases he

/-- An execution: the order is filled, or stays behind what is left ahead
of it. -/
theorem rests_execution (hknown : esi < l.session.booksSize)
    (hrests : l.Rests esi side price o) (order : ω → Order ι)
    (ts refnum : Nat) {size tradeId execSize oldSize : Nat}
    (execPrice : MD.Price) (hsize : size ≤ oldSize)
    (hnew : tradeId ∉ (l.session.books esi).trades) :
    ((l.step esi price (.event order ts (.bookExecuted refnum side price size
        tradeId execPrice execSize oldSize))).session.books esi).orders
          (sideContainer side) = []
      ∨ ∃ n ≤ execSize, (l.step esi price (.event order ts (.bookExecuted
        refnum side price size tradeId execPrice execSize oldSize))).Rests
          esi side price { o with sizeAhead := o.sizeAhead - n } := by
  obtain ⟨ss, hfound, horders, htrades, -⟩ := found hknown
  have hss : (ss.books esi).orders (sideContainer side)
      = [(MD.toDouble price, o)] := by
    rw [horders]
    exact hrests
  -- what the loop leaves is what there is in the end
  obtain ⟨check, hloop⟩ : ∃ check : ω → Bool,
      ((ss.onBookExecuted order ts esi refnum side price size tradeId
        execPrice execSize oldSize).books esi).orders (sideContainer side)
      = (L2SimSession.execCrossLoop check esi (MD.toDouble execPrice)
        execSize [(MD.toDouble price, o)]).1 := by
    unfold L2SimSession.onBookExecuted
    rw [htrades, if_neg hnew]
    dsimp only
    rw [if_neg (Nat.not_lt.mpr hsize), hss]
    simp only [L2SimSession.insertTrade, L2SimSession.emplaceAll,
      L2SimSession.setOrders, Function.update_self]
    exact ⟨_, rfl⟩
  unfold Rests
  show ((l.session.onMarketEvent order ts esi _).books esi).orders _ = []
    ∨ ∃ n ≤ execSize, ((l.session.onMarketEvent order ts esi _).books
      esi).orders _ = _
  unfold L2SimSession.onMarketEvent
  rw [hfound]
  dsimp only
  rw [hloop]
  unfold L2SimSession.execCrossLoop
  split
  · dsimp only
    split
    · exact .inl rfl
    · exact .inr ⟨_, min_le_right _ _, rfl⟩
  · exact .inr ⟨0, Nat.zero_le _, rfl⟩

-- ================================================================ arithmetic

/-- Size that comes in behind the order. -/
theorem fits_iff {displayed size : Nat} (hcovered : displayed
      ≤ o.sizeAhead + o.sizeBehind) (hbehind : o.sizeBehind < 4294967296)
    (hsize : size < 4294967296) :
    displayed + size ≤ (addSizeBehind size o).sizeAhead
        + (addSizeBehind size o).sizeBehind
      ↔ Fits displayed o.sizeBehind size o := by
  unfold addSizeBehind Fits u32
  dsimp only
  omega

theorem behind_lt (size : Nat) (o : SimOrder ω) :
    (addSizeBehind size o).sizeBehind < 4294967296 := by
  unfold addSizeBehind
  dsimp only
  exact u32_lt _

/-- Size that is taken off both counters. -/
theorem leaves_iff (displayed delta : Nat) (o : SimOrder ω) :
    (L2SimSession.backAssert delta o = true
      ∧ displayed ≤ (reduceSizeFromBack delta o).sizeAhead
        + (reduceSizeFromBack delta o).sizeBehind)
      ↔ Leaves displayed delta o := by
  obtain ⟨hsum, -, -, hassert⟩ :=
    L2SimSession.reduceSizeFromBack_spec delta o
  rw [hassert, hsum]
  unfold Leaves
  omega

/-- An order that grows in place: its old size goes, and the new one comes
in behind. -/
theorem grows_iff {displayed oldSize newSize : Nat}
    (hcovered : displayed ≤ o.sizeAhead + o.sizeBehind)
    (hbehind : o.sizeBehind < 4294967296) (hold : oldSize ≤ displayed)
    (hnew : newSize < 4294967296) :
    displayed - oldSize + newSize
        ≤ (addSizeBehind newSize (reduceSizeFromBack oldSize o)).sizeAhead
          + (addSizeBehind newSize (reduceSizeFromBack oldSize o)).sizeBehind
      ↔ Fits displayed (o.sizeBehind - min o.sizeBehind oldSize) newSize
        o := by
  obtain ⟨hsum, hahead, hrest, -⟩ :=
    L2SimSession.reduceSizeFromBack_spec oldSize o
  rw [fits_iff (by omega) (by omega) hnew]
  unfold Fits
  omega

/-- While the order rests the counters are no less than what is
displayed. -/
structure Inv (esi : Nat) (side : MD.Side) (price : MD.Price)
    (l : Level ω ι) : Prop where
  known : esi < l.session.booksSize
  covered : (l.session.books esi).orders (sideContainer side) = []
    ∨ ∃ o, l.Rests esi side price o
      ∧ l.displayed ≤ o.sizeAhead + o.sizeBehind
      ∧ o.sizeBehind < 4294967296

/-- The order is found at its price, -/
theorem assertsAt_here (hrests : l.Rests esi side price o) (delta : Nat) :
    l.session.assertsAt esi side price delta
      = L2SimSession.backAssert delta o := by
  unfold L2SimSession.assertsAt OrderContainer.find
  rw [hrests]
  simp

/-- and nowhere else. -/
theorem assertsAt_elsewhere (hrests : l.Rests esi side price o)
    {p : MD.Price} (hp : p ≠ price) (delta : Nat) :
    l.session.assertsAt esi side p delta = true := by
  have hne : (MD.toDouble p == MD.toDouble price) = false :=
    beq_false_of_ne fun heq => hp (L2SimSession.toDouble_injective heq)
  unfold L2SimSession.assertsAt OrderContainer.find
  rw [hrests]
  simp [List.lookup_cons, hne]

/-- What an order event, an execution apart, does to the counters. -/
theorem event_iff (hrests : l.Rests esi side price o)
    (hcovered : l.displayed ≤ o.sizeAhead + o.sizeBehind)
    (hbehind : o.sizeBehind < 4294967296) {order : ω → Order ι} {ts : Nat}
    {e : MarketEvent} (he : l.OfLevel esi side price (.event order ts e))
    (hexec : ∀ r s p n t x m q, e ≠ .bookExecuted r s p n t x m q) :
    ((l.session.backAsserts esi e = true
        ∧ (after l.session price o e).sizeAhead ≤ o.sizeAhead
        ∧ display price l.displayed e ≤ (after l.session price o e).sizeAhead
          + (after l.session price o e).sizeBehind)
      ↔ l.Tracks esi side price (.event order ts e))
    ∧ (after l.session price o e).sizeBehind < 4294967296 := by
  have htracks : ∀ P : SimOrder ω → Prop,
      (∀ o', l.Rests esi side price o' → P o') ↔ P o := by
    intro P
    constructor
    · exact fun h => h o hrests
    · intro h o' hrests'
      have heq := hrests.symm.trans hrests'
      simp only [List.cons.injEq, Prod.mk.injEq, true_and, and_true] at heq
      exact heq ▸ h
  unfold Tracks
  rw [htracks]
  unfold L2SimSession.backAsserts after display
  cases e with
  | bookAdded side' price' size =>
      obtain ⟨rfl, rfl, hsize⟩ := he
      dsimp only
      refine ⟨?_, behind_lt ..⟩
      rw [← fits_iff hcovered hbehind hsize]
      exact ⟨fun h => h.2.2, fun h => ⟨rfl, Nat.le_refl _, h⟩⟩
  | bookCanceled refnum side' price' size oldSize =>
      obtain ⟨rfl, rfl, -⟩ := he
      dsimp only
      obtain ⟨-, hahead, hrest, -⟩ := L2SimSession.reduceSizeFromBack_spec
        (l.session.deltaSize refnum size oldSize) o
      refine ⟨?_, by omega⟩
      rw [← leaves_iff, assertsAt_here hrests]
      exact and_congr_right fun _ => and_iff_right hahead
  | bookModified side' newPrice newSize oldRefnum oldPrice oldSize =>
      obtain ⟨rfl, hprice, hnew, hold, hle⟩ := he
      dsimp only
      by_cases hmoved : newPrice ≠ oldPrice
      · simp only [if_pos hmoved]
        by_cases hin : newPrice = price
        · -- it moves to the level
          subst hin
          rw [if_pos rfl, if_neg hmoved.symm, if_pos rfl, Nat.sub_zero,
            assertsAt_elsewhere hrests hmoved.symm]
          refine ⟨?_, behind_lt ..⟩
          rw [← fits_iff hcovered hbehind hnew]
          exact ⟨fun h _ => h.2.2, fun h => ⟨rfl, Nat.le_refl _, h rfl⟩⟩
        · -- it leaves the level, with no more than is displayed
          obtain rfl : oldPrice = price := hprice.resolve_right hin
          have hle := hle rfl
          obtain ⟨hsum, hahead, hrest, hassert⟩ :=
            L2SimSession.reduceSizeFromBack_spec oldSize o
          rw [if_neg hin, if_pos rfl, if_neg hin, assertsAt_here hrests,
            hassert]
          refine ⟨iff_of_true ⟨by omega, hahead, by omega⟩
            fun h => absurd h hin, by omega⟩
      · obtain rfl : newPrice = oldPrice := not_not.mp hmoved
        obtain rfl : newPrice = price := hprice.elim id id
        have hle := hle rfl
        simp only [if_neg hmoved, if_pos]
        by_cases hgrows : newSize ≥ oldSize
        · obtain ⟨hsum, hahead, hrest, hassert⟩ :=
            L2SimSession.reduceSizeFromBack_spec oldSize o
          simp only [if_pos hgrows]
          refine ⟨?_, behind_lt ..⟩
          rw [← grows_iff hcovered hbehind hle hnew, assertsAt_here hrests,
            hassert]
          exact ⟨fun h => h.2.2, fun h => ⟨by omega, hahead, h⟩⟩
        · simp only [if_neg hgrows]
          obtain ⟨-, hahead, hrest, -⟩ :=
            L2SimSession.reduceSizeFromBack_spec
              (l.session.deltaSize oldRefnum newSize oldSize) o
          refine ⟨?_, by omega⟩
          have hdisplay : l.displayed - oldSize + newSize
              = l.displayed - (oldSize - newSize) := by omega
          rw [hdisplay, ← leaves_iff, assertsAt_here hrests]
          exact and_congr_right fun _ => and_iff_right hahead
  | bookExecuted r s p n t x m q => exact absurd rfl (hexec r s p n t x m q)
  | _ => cases he

-- ==================================================================== a run

/-- Where nothing rests market data puts nothing. -/
theorem marketFrame_empty (ts esi : Nat) (ks : List Container) :
    L2SimSession.MarketFrame ts esi ks fun ss ss' : L2SimSession ω ι =>
      ∀ k, (ss.books esi).orders k = [] → (ss'.books esi).orders k = [] where
  refl _ _ hempty := hempty
  trans h h' k hempty := h' k (h k hempty)
  thinned ss k c es _ hthins k' hempty := by
    show ((ss.setOrders esi k c).books esi).orders k' = []
    by_cases hk : k' = k
    · subst hk
      have hnil := hthins.keys
      rw [hempty] at hnil
      simpa [L2SimSession.setOrders, keys] using hnil
    · simpa [L2SimSession.setOrders, hk] using hempty
  found ss k hempty := by simpa using hempty
  status ss session k hempty := by simpa using hempty
  seen ss tradeId k hempty := by
    simpa [L2SimSession.insertTrade] using hempty
  executed _ _ _ hempty := hempty
  imbalance _ _ _ hempty := hempty

theorem empty_step (hempty : (l.session.books esi).orders
      (sideContainer side) = []) (i : Input ω ι) :
    ((l.step esi price i).session.books esi).orders (sideContainer side)
      = [] := by
  cases i with
  | startOfData => exact hempty
  | event order ts e =>
      exact (marketFrame_empty ts esi _).onMarketEvent l.session e
        (fun _ hk => hk) _ hempty

variable (price) in
/-- A known book stays known. -/
theorem known_step (hknown : esi < l.session.booksSize) (i : Input ω ι) :
    esi < (l.step esi price i).session.booksSize := by
  cases i with
  | startOfData => exact hknown
  | event order ts e =>
      exact Nat.lt_of_lt_of_le hknown
        ((L2SimSession.marketFrame_keepsTrades ts esi _).onMarketEvent
          l.session e fun _ hk => hk).size

/-- One order rests at a time. -/
theorem Rests.unique {o' : SimOrder ω} (h : l.Rests esi side price o)
    (h' : l.Rests esi side price o') : o = o' := by
  have heq := h.symm.trans h'
  simp only [List.cons.injEq, Prod.mk.injEq, true_and, and_true] at heq
  exact heq

/-- An event after which the order still rests. -/
theorem holds_iff {i : Input ω ι} {o' : SimOrder ω}
    (hrests : l.Rests esi side price o)
    (hrests' : (l.step esi price i).Rests esi side price o') :
    l.Holds esi side price i
      ↔ (∀ order ts e, i = .event order ts e →
          l.session.backAsserts esi e = true)
        ∧ o'.sizeAhead ≤ o.sizeAhead
        ∧ (l.step esi price i).displayed ≤ o'.sizeAhead + o'.sizeBehind := by
  constructor
  · exact fun h => h o o' hrests hrests'
  · intro h o₁ o₁' h₁ h₁'
    obtain rfl := hrests.unique h₁
    obtain rfl := hrests'.unique h₁'
    exact h

/-- The step lemma: an event of the level goes well exactly if the condition
holds. -/
theorem holds_iff_tracks (h : l.Inv esi side price) {i : Input ω ι}
    (hi : l.OfLevel esi side price i) :
    (l.Holds esi side price i ↔ l.Tracks esi side price i)
    ∧ (l.Tracks esi side price i →
      (l.step esi price i).Inv esi side price) := by
  have hknown := known_step price h.known i
  rcases h.covered with hempty | ⟨o, hrests, hcovered, hbehind⟩
  · -- nothing rests
    have hnone : ∀ o, ¬ l.Rests esi side price o := by
      intro o hrests
      unfold Rests at hrests
      rw [hempty] at hrests
      cases hrests
    exact ⟨iff_of_true (fun o _ ho => absurd ho (hnone o))
      (fun o ho => absurd ho (hnone o)),
      fun _ => ⟨hknown, .inl (empty_step hempty i)⟩⟩
  cases i with
  | startOfData =>
      rw [holds_iff (i := .startOfData) hrests hrests]
      exact ⟨iff_of_true ⟨nofun, Nat.le_refl _, hcovered⟩ fun _ _ => trivial,
        fun _ => ⟨hknown, .inr ⟨o, hrests, hcovered, hbehind⟩⟩⟩
  | event order ts e =>
      by_cases hexec : ∀ r s p n t x m q, e ≠ .bookExecuted r s p n t x m q
      · -- the counters move
        have hrests' := rests_event h.known hrests hi hexec
        obtain ⟨hiff, hbehind'⟩ :=
          event_iff hrests hcovered hbehind hi hexec
        rw [holds_iff hrests hrests', ← hiff]
        refine ⟨and_congr_left fun _ => ?_, fun htracks => ⟨hknown,
          .inr ⟨_, hrests', htracks.2.2, hbehind'⟩⟩⟩
        constructor
        · exact fun hassert => hassert order ts e rfl
        · rintro hassert order' ts' e' ⟨⟩
          exact hassert
      · -- an execution takes no more than is displayed
        push Not at hexec
        obtain ⟨r, s, p, n, t, x, m, q, rfl⟩ := hexec
        obtain ⟨rfl, rfl, hsize, hnew, hle⟩ := hi
        have htracks : l.Tracks esi s p
            (.event order ts (.bookExecuted r s p n t x m q)) :=
          fun _ _ => trivial
        rcases rests_execution h.known hrests order ts r x hsize hnew with
          hempty | ⟨d, hd, hrests'⟩
        · refine ⟨iff_of_true (fun o₁ o' _ ho' => ?_) htracks,
            fun _ => ⟨hknown, .inl hempty⟩⟩
          unfold Rests at ho'
          rw [hempty] at ho'
          cases ho'
        · have hdisplay : l.displayed - m
              ≤ o.sizeAhead - d + o.sizeBehind := by omega
          rw [holds_iff hrests hrests']
          refine ⟨iff_of_true ⟨?_, Nat.sub_le _ _, hdisplay⟩ htracks,
            fun _ => ⟨hknown, .inr ⟨_, hrests', hdisplay, hbehind⟩⟩⟩
          rintro order' ts' e' ⟨⟩
          rfl

/-- An order's place in the queue is tracked, event by event, exactly as
long as the condition holds at every event. -/
theorem queue_position_iff {ss : L2SimSession ω ι} {w : ω}
    {displayed remains : Nat} (hknown : esi < ss.booksSize)
    (hrests : Rests esi side price ⟨ss, displayed⟩
      ⟨w, displayed, 0, remains⟩) {is : List (Input ω ι)}
    (hlevel : Lib.Admits (step esi price) (OfLevel esi side price)
      ⟨ss, displayed⟩ is) :
    Lib.Admits (step esi price) (Holds esi side price) ⟨ss, displayed⟩ is
      ↔ Lib.Admits (step esi price) (Tracks esi side price)
        ⟨ss, displayed⟩ is := by
  have hinv : Inv esi side price ⟨ss, displayed⟩ :=
    ⟨hknown, .inr ⟨_, hrests, Nat.le_refl _, Nat.zero_lt_succ _⟩⟩
  exact Lib.admits_iff_of_step (I := Inv esi side price)
    (fun l i h hi => (holds_iff_tracks h hi).1)
    (fun l i h hi ht => (holds_iff_tracks h hi).2 ht) hinv hlevel

end Level

-- ====================================================================== demos

/-- A bid of ours at 10, with a hundred ahead of it. -/
def demo : Level Nat Nat where
  session := ((L2SimSession.create [66] .other 1 1 fun _ => false
    ).onSymbolDefinition 0 0).setOrders 0 .bids [(10, ⟨0, 100, 0, 10⟩)]
  displayed := 100

def demoOrder (_ : Nat) : Order Nat :=
  Order.create (OrderParams.dayLimit 0 .buy 10 10)

/-- Fifty come in behind the bid, and sixty of the hundred go. -/
theorem queue_position_iff_demo :
    Lib.Admits (step 0 100000) (Holds 0 .buy 100000) demo
      [.event demoOrder 1 (.bookAdded .buy 100000 50),
        .event demoOrder 1 (.bookCanceled 1 .buy 100000 40 100)]
    ↔ Lib.Admits (step 0 100000) (Tracks 0 .buy 100000) demo
      [.event demoOrder 1 (.bookAdded .buy 100000 50),
        .event demoOrder 1 (.bookCanceled 1 .buy 100000 40 100)] := by
  have hrests : Rests 0 .buy 100000 demo ⟨0, 100, 0, 10⟩ := by
    decide +kernel
  exact queue_position_iff (by decide) hrests ⟨⟨rfl, rfl, by decide⟩,
    ⟨rfl, rfl, by decide, by decide, by decide +kernel⟩, trivial⟩

/-- Forty of an order are executed, at a price that is not the bid's, and
then it is cancelled three times by one in the same packet: each time forty
are taken off, and the third time there are not as many. -/
theorem queue_position_lost :
    ¬ ∀ is : List (Input Nat Nat),
      Lib.Admits (step 0 100000) (OfLevel 0 .buy 100000) demo is →
      Lib.Admits (step 0 100000) (Holds 0 .buy 100000) demo is := by
  intro h
  obtain ⟨-, -, -, hlast, -⟩ := h
    [.event demoOrder 1 (.bookExecuted 1 .buy 100000 60 7 100100 40 100),
      .event demoOrder 1 (.bookCanceled 1 .buy 100000 59 60),
      .event demoOrder 1 (.bookCanceled 1 .buy 100000 58 59),
      .event demoOrder 1 (.bookCanceled 1 .buy 100000 57 58)]
    ⟨⟨rfl, rfl, by decide, by decide +kernel, by decide +kernel⟩,
      ⟨rfl, rfl, by decide, by decide, by decide +kernel⟩,
      ⟨rfl, rfl, by decide, by decide, by decide +kernel⟩,
      ⟨rfl, rfl, by decide, by decide, by decide +kernel⟩, trivial⟩
  have hassert := (hlast ⟨0, 20, 0, 10⟩ ⟨0, 0, 0, 10⟩ (by decide +kernel)
    (by decide +kernel)).1 _ _ _ rfl
  revert hassert
  decide +kernel

end Level

end TradingEngine.OE
