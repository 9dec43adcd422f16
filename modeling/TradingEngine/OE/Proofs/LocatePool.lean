/-
The pool of locates over a day: what is taken for sells, given back by
fills and cancels, and raised by live updates.

What is taken always fits (`locatesAllow`), and every move of one count
moves the other, so remaining and used add up to the locate size whatever
happens. The bounds are another matter. A cover gives back up to the
short position, a cancel its size, and neither asks what was ever taken,
so the pool stays in its bounds exactly if no event gives back more than
is in use (`inPool_step_iff`).

# What was taken

A day that starts flat or long never does. With every open sell filled
the position would be short by at most what is in use
(`Position.Backed`): a sell is let through with that many locates taken,
and each event that gives some back closes as much of the gap. Only an
instrument that is short at the start has shares that nobody took locates
for, and the first cover gives them back.

# The flag

Whether a fill gives back at all hangs on the position's own flag. The
instrument's `norecycle` is not handed on to it, so it is honoured
exactly as long as no buy is filled while the position is short
(`norecycle_honoured_iff`).
-/
import TradingEngine.OE.Proofs.LocateMoves
import TradingEngine.OE.Proofs.LocateUpdates
import TradingEngine.OE.Proofs.PositionLimit

namespace TradingEngine.OE

variable {ω ι : Type}

-- ============================================================== the machine

/-- A trading day with live updates in between. -/
inductive PoolEvent (ω ι : Type)
  | trade (e : Event ω)
  | live (esi : ι) (newLocateSize : Int)

/-- Local and remote quantity, as the code asks for it. -/
def Position.net (pos : Position) : Int := pos.quantity + pos.remoteQuantity

/-- Remaining and used locates add up to the size, and both lie between
zero and it. -/
structure Position.InPool (L : Int) (pos : Position) : Prop where
  sum : pos.locatesRemaining + pos.locatesUsed = L
  used_nonneg : 0 ≤ pos.locatesUsed
  remaining_nonneg : 0 ≤ pos.locatesRemaining
  remaining_le : pos.locatesRemaining ≤ L

namespace Trading

variable [DecidableEq ω] [DecidableEq ι]

def poolStep (t : Trading ω ι) : PoolEvent ω ι → Trading ω ι
  | .trade e => t.step e
  | .live esi newLocateSize =>
      { t with om := t.om.updateLocates esi newLocateSize }

/-- Orderly events, and updates to configured sizes. -/
def PoolOk (t : Trading ω ι) : PoolEvent ω ι → Prop
  | .trade e => t.Orderly e
  | .live _ newLocateSize => ConfiguredSize newLocateSize

/-- The pool of instrument `i` is within its bounds. -/
def InPool (i : ι) (t : Trading ω ι) : Prop :=
  (t.om.desk.position i).InPool (t.om.instrument i).locateSize

/-- No more locates are given back than are in use: by a buy filled, or a
sell cancelled, while the position is short. -/
def GivesBackWithin (i : ι) (t : Trading ω ι) : PoolEvent ω ι → Prop
  | .trade (.fill w size _ _ _ _) =>
      let pos := t.om.desk.position i
      (t.om.order w).instrument = i → (t.om.order w).side = .buy →
        pos.net < 0 → min (size : Int) (-pos.net) ≤ pos.locatesUsed
  | .trade (.cancelled w size _ _) =>
      let pos := t.om.desk.position i
      (t.om.order w).instrument = i →
        EquityInstrument.sells (t.om.order w) = true →
        pos.net < 0 → (size : Int) ≤ pos.locatesUsed
  | _ => True

/-- When a sell is sent, the open ones fit a `Size`, and so do the shares
short with it and them filled. -/
def ShortFits (i : ι) (t : Trading ω ι) : PoolEvent ω ι → Prop
  | .trade (.send w _ _) =>
      let o := t.om.order w
      let pos := t.om.desk.position i
      o.instrument = i → EquityInstrument.sells o = true →
        pos.openShortSize < 4294967296
          ∧ -(EquityInstrument.postPosition pos o - pos.openShortSize)
            < 4294967296
  | _ => True

instance (t : Trading ω ι) (e : PoolEvent ω ι) : Decidable (t.PoolOk e) := by
  cases e <;> unfold PoolOk <;> infer_instance

instance (i : ι) (t : Trading ω ι) (e : PoolEvent ω ι) :
    Decidable (t.GivesBackWithin i e) := by
  unfold GivesBackWithin
  split <;> infer_instance

instance (i : ι) (t : Trading ω ι) (e : PoolEvent ω ι) :
    Decidable (t.ShortFits i e) := by
  unfold ShortFits
  split <;> infer_instance

end Trading

-- ============================================================ one position

namespace Position

variable {L : Int} {pos : Position}

/-- The pool is a matter of the two counts. -/
theorem inPool_congr {pos' : Position}
    (hsame : pos'.locates = pos.locates) :
    pos'.InPool L ↔ pos.InPool L := by
  have hr : pos'.locatesRemaining = pos.locatesRemaining :=
    congrArg Prod.fst hsame
  have hu : pos'.locatesUsed = pos.locatesUsed := congrArg Prod.snd hsame
  constructor
  · rintro ⟨hsum, hused, hremaining, hle⟩
    rw [hr, hu] at hsum
    rw [hu] at hused
    rw [hr] at hremaining hle
    exact ⟨hsum, hused, hremaining, hle⟩
  · rintro ⟨hsum, hused, hremaining, hle⟩
    rw [← hr, ← hu] at hsum
    rw [← hu] at hused
    rw [← hr] at hremaining hle
    exact ⟨hsum, hused, hremaining, hle⟩

theorem InPool.configured (h : pos.InPool L) :
    pos.locatesRemaining ≠ locatesRemainingSentinel := by
  have hpos := h.remaining_nonneg
  unfold locatesRemainingSentinel
  omega

/-- A reservation takes what is there. -/
theorem InPool.reserve (h : pos.InPool L) {o : Order ι}
    (hallow : EquityInstrument.locatesAllow pos o = true) :
    (EquityInstrument.reserveLocates pos o).InPool L := by
  unfold EquityInstrument.locatesAllow at hallow
  simp only [Bool.and_eq_true, decide_eq_true_eq] at hallow
  have hfits := hallow.2
  obtain ⟨hsum, hused, hremaining, -⟩ := h
  unfold EquityInstrument.reserveLocates
  constructor <;> dsimp only <;> omega

/-- What a fill gives back has to be in use. -/
theorem InPool.recycleOnFill_iff (h : pos.InPool L)
    (hrec : pos.norecycle = false) (o : Order ι) (n : Nat) :
    (recycleOnFill pos o n).InPool L
      ↔ (o.side = .buy → pos.net < 0 →
        min (n : Int) (-pos.net) ≤ pos.locatesUsed) := by
  unfold recycleOnFill net
  split
  case isTrue hgive =>
    obtain ⟨hside, hshort, -, -⟩ := hgive
    constructor
    · intro hpool _ _
      have hused : 0 ≤ pos.locatesUsed
        - min (n : Int) (-(pos.quantity + pos.remoteQuantity)) :=
        hpool.used_nonneg
      omega
    · intro hwithin
      have hback := hwithin hside hshort
      obtain ⟨hsum, hused, hremaining, -⟩ := h
      constructor <;> dsimp only <;> omega
  case isFalse hkeep =>
    exact iff_of_true h fun hside hshort =>
      absurd ⟨hside, hshort, hrec, h.configured⟩ hkeep

/-- So has what a cancel gives back. -/
theorem InPool.recycleOnCancel_iff (h : pos.InPool L) (o : Order ι)
    (n : Nat) :
    (recycleOnCancel pos o n).InPool L
      ↔ (EquityInstrument.sells o = true → pos.net < 0 →
        (n : Int) ≤ pos.locatesUsed) := by
  have hsells : EquityInstrument.sells o = true
      ↔ o.side = .short ∨ o.side = .shortExempt ∨ o.side = .sell := by
    unfold EquityInstrument.sells
    simp only [Bool.or_eq_true, beq_iff_eq]
    tauto
  unfold recycleOnCancel net
  split
  case isTrue hgive =>
    obtain ⟨hshort, hside, -⟩ := hgive
    constructor
    · intro hpool _ _
      have hused : 0 ≤ pos.locatesUsed - (n : Int) := hpool.used_nonneg
      omega
    · intro hwithin
      have hback := hwithin (hsells.mpr hside) hshort
      obtain ⟨hsum, hused, hremaining, -⟩ := h
      constructor <;> dsimp only <;> omega
  case isFalse hkeep =>
    exact iff_of_true h fun hs hshort =>
      absurd ⟨hshort, hsells.mp hs, h.configured⟩ hkeep

end Position

variable [DecidableEq ω] [DecidableEq ι]

-- ======================================================== what stays put

/-- What neither open size nor a fill moves, no event moves. -/
theorem book_step_keeps {α : Type} (f : Position → α)
    (hmove : ∀ pos s p n, f (pos.moveOpen s p n) = f pos)
    (hfill : ∀ pos s n price fee,
      f (pos.updateRealizedAndUnrealizedPnl s n price fee) = f pos)
    (t : Trading ω ι) (e : Event ω) (i : ι) :
    f ((t.step e).om.book.position i) = f (t.om.book.position i) := by
  have hopen : ∀ (b : Book ι) esi s p n,
      f ((b.moveOpen esi s p n).position i) = f (b.position i) := by
    intro b esi s p n
    rw [Book.position_moveOpen]
    split
    case isTrue hi => rw [hmove, hi]
    case isFalse => rfl
  have htrade : ∀ (b : Book ι) esi s n price fee,
      f ((b.trade esi s n price fee).position i) = f (b.position i) := by
    intro b esi s n price fee
    rw [Book.position_trade]
    split
    case isTrue hi => rw [hfill, hi]
    case isFalse => rfl
  cases e with
  | send w session a =>
      show f ((t.om.send w session a).2.book.position i) = _
      rcases t.om.send_spec w session a with ⟨-, side, hacc⟩ | ⟨-, href⟩
      · rw [hacc.book, hopen]
      · rw [href.book]
  | cancel w newqty a =>
      show f ((t.om.cancel w newqty a).2.book.position i) = _
      rcases t.om.cancel_cases w newqty a with heq | ⟨-, -, heq⟩
      · rw [heq]
      · rw [heq]
        rfl
  | destroy w onlyIfTerminal sessionDestroys =>
      show f ((t.om.destroy w onlyIfTerminal
        sessionDestroys).2.book.position i) = _
      rcases t.om.destroy_cases w onlyIfTerminal sessionDestroys with
        heq | ⟨-, heq⟩ | ⟨-, heq⟩ <;> rw [heq] <;> rfl
  | acknowledged w exchangeID size ts exts => rfl
  | rejected w ts exts =>
      show f ((t.om.onRejected w ts exts).book.position i) = _
      rw [OrderManager.book_onRejected, hopen]
  | fill w size price ts exts feeCode =>
      show f ((t.om.onFill w size price ts exts feeCode).book.position i) = _
      rw [OrderManager.book_onFill, hopen, htrade]
  | cancelled w size ts exts =>
      show f ((t.om.onCancel w size ts exts).book.position i) = _
      rw [OrderManager.book_onCancel, hopen]
  | cancelRejected w ts exts => rfl

/-- The position's flag and its remote quantity stay as constructed. -/
theorem norecycle_step (t : Trading ω ι) (e : Event ω) (i : ι) :
    ((t.step e).om.desk.position i).norecycle
      = (t.om.desk.position i).norecycle :=
  book_step_keeps Position.norecycle
    (fun pos s p n => by unfold Position.moveOpen; split <;> rfl)
    (fun pos s n price fee => by
      obtain ⟨r, v, h⟩ :=
        pos.updateRealizedAndUnrealizedPnl_shape s n price fee
      rw [h]) t e i

theorem remoteQuantity_step (t : Trading ω ι) (e : Event ω) (i : ι) :
    ((t.step e).om.desk.position i).remoteQuantity
      = (t.om.desk.position i).remoteQuantity :=
  book_step_keeps Position.remoteQuantity
    (fun pos s p n => pos.remoteTradingQuantity_moveOpen s p n)
    (fun pos s n price fee =>
      pos.remoteTradingQuantity_fill s n price fee) t e i

/-- The locate size is not `send`'s to change. -/
theorem locateSize_send (om : OrderManager ω ι) (w : ω) (session : Bytes)
    (a : OrderManager.SendAnswer) (i : ι) :
    ((om.send w session a).2.instrument i).locateSize
      = (om.instrument i).locateSize := by
  have hcheck : ∀ om : OrderManager ω ι,
      ((om.instrumentCheck w).2.instrument i).locateSize
        = (om.instrument i).locateSize := by
    intro om
    obtain ⟨_, _, _, rate, -, -, -, hinst⟩ :=
      (om.instrument (om.order w).instrument).validate_frame
        (om.desk.position (om.order w).instrument) (om.order w)
    show (Function.update om.instrument (om.order w).instrument _ i
      ).locateSize = _
    by_cases hi : i = (om.order w).instrument
    · rw [hi, Function.update_self, hinst]
    · rw [Function.update_of_ne hi]
  unfold OrderManager.send
  dsimp only
  split
  · rfl
  · split
    · rfl
    · split
      · exact hcheck _
      · split
        · exact hcheck _
        · exact hcheck _

theorem locateSize_step (t : Trading ω ι) (e : Event ω) (i : ι) :
    ((t.step e).om.instrument i).locateSize
      = (t.om.instrument i).locateSize := by
  cases e with
  | send w session a => exact locateSize_send t.om w session a i
  | cancel w newqty a =>
      show ((t.om.cancel w newqty a).2.instrument i).locateSize = _
      rcases t.om.cancel_cases w newqty a with heq | ⟨-, -, heq⟩
      · rw [heq]
      · rw [heq]
        rfl
  | destroy w onlyIfTerminal sessionDestroys =>
      show ((t.om.destroy w onlyIfTerminal sessionDestroys).2.instrument
        i).locateSize = _
      rcases t.om.destroy_cases w onlyIfTerminal sessionDestroys with
        heq | ⟨-, heq⟩ | ⟨-, heq⟩ <;> rw [heq] <;> rfl
  | acknowledged w exchangeID size ts exts => rfl
  | rejected w ts exts => rfl
  | fill w size price ts exts feeCode => rfl
  | cancelled w size ts exts => rfl
  | cancelRejected w ts exts => rfl

-- ================================================================== a step

namespace Trading

variable {t : Trading ω ι} {i : ι}

/-- An event of another instrument leaves the pool alone. -/
theorem inPool_step_of_ne (e : Event ω)
    (hi : (t.om.order e.about).instrument ≠ i) :
    (t.step e).InPool i ↔ t.InPool i := by
  unfold InPool
  rw [locateSize_step]
  refine Position.inPool_congr ?_
  have hlocates := congrFun (t.locates_step e) i
  rwa [Function.update_of_ne (Ne.symm hi)] at hlocates

/-- One of its own makes the move. -/
theorem inPool_step_self (e : Event ω)
    (hi : (t.om.order e.about).instrument = i) :
    (t.step e).InPool i
      ↔ (t.movedLocates e).InPool (t.om.instrument i).locateSize := by
  unfold InPool
  rw [locateSize_step]
  refine Position.inPool_congr ?_
  have hlocates := congrFun (t.locates_step e) i
  rwa [hi, Function.update_self] at hlocates

omit [DecidableEq ω] [DecidableEq ι] in
/-- What is sent either reserves what is there, or nothing. -/
theorem InPool.send (h : t.InPool i) {w : ω} {session : Bytes}
    {a : OrderManager.SendAnswer} (hi : (t.om.order w).instrument = i) :
    (t.movedLocates (.send w session a)).InPool
      (t.om.instrument i).locateSize := by
  show (if t.om.reserves w a then _ else _ : Position).InPool _
  subst hi
  split
  case isTrue hreserves =>
    unfold OrderManager.reserves at hreserves
    simp only [Bool.and_eq_true] at hreserves
    exact Position.InPool.reserve h hreserves.2.2
  case isFalse => exact h

/-- One event keeps the pool exactly if it gives back no more than is in
use. -/
theorem inPool_step_iff (h : t.InPool i)
    (hrec : (t.om.desk.position i).norecycle = false) (e : Event ω) :
    (t.step e).InPool i ↔ t.GivesBackWithin i (.trade e) := by
  by_cases hi : (t.om.order e.about).instrument = i
  · rw [inPool_step_self e hi]
    cases e with
    | send w session a => exact iff_of_true (h.send hi) trivial
    | fill w size price ts exts feeCode =>
        subst hi
        exact (h.recycleOnFill_iff hrec (t.om.order w) size).trans
          ⟨fun hgive _ => hgive, fun hgive => hgive rfl⟩
    | cancelled w size ts exts =>
        subst hi
        exact (h.recycleOnCancel_iff (t.om.order w) size).trans
          ⟨fun hgive _ => hgive, fun hgive => hgive rfl⟩
    | _ =>
        subst hi
        exact iff_of_true h trivial
  · rw [inPool_step_of_ne e hi]
    cases e with
    | fill w size price ts exts feeCode =>
        exact iff_of_true h fun heq => absurd heq hi
    | cancelled w size ts exts =>
        exact iff_of_true h fun heq => absurd heq hi
    | _ => exact iff_of_true h trivial

-- ============================================================= live updates

/-- Another instrument's update. -/
theorem poolStep_live_of_ne {esi : ι} (hi : i ≠ esi) (n : Int) :
    (t.poolStep (.live esi n)).om.instrument i = t.om.instrument i
      ∧ (t.poolStep (.live esi n)).om.desk.position i
        = t.om.desk.position i :=
  ⟨Function.update_of_ne hi .., Function.update_of_ne hi ..⟩

/-- An update moves the size and the remaining count together. -/
theorem InPool.live (h : t.InPool i)
    (hL : ConfiguredSize (t.om.instrument i).locateSize) (esi : ι) {n : Int}
    (hn : ConfiguredSize n) :
    (t.poolStep (.live esi n)).InPool i
      ∧ ConfiguredSize ((t.poolStep (.live esi n)).om.instrument
        i).locateSize := by
  unfold InPool
  by_cases hi : i = esi
  · subst hi
    have hset : PoolSet (t.om.instrument i) (t.om.desk.position i) :=
      ⟨fun hno => absurd hL hno,
        fun _ => ⟨h.remaining_nonneg, h.remaining_le⟩⟩
    have hinst : (t.poolStep (.live i n)).om.instrument i
        = ((t.om.instrument i).updateLocatesLive (t.om.desk.position i) n
          true).instrument := Function.update_self ..
    have hpos : (t.poolStep (.live i n)).om.desk.position i
        = ((t.om.instrument i).updateLocatesLive (t.om.desk.position i) n
          true).position := Function.update_self ..
    have hraise := (raisesPool_of_configured hset hL hn).2
    have hsentinel : (t.om.instrument i).locateSize
        ≠ locatesRemainingSentinel := by
      unfold ConfiguredSize at hL
      unfold locatesRemainingSentinel
      omega
    rw [hinst, hpos]
    by_cases hup : (t.om.instrument i).locateSize < n
    · rw [if_pos ⟨hL, hn, hup⟩] at hraise
      rw [hraise.1, hraise.2]
      refine ⟨?_, hn⟩
      obtain ⟨hsum, hused, hremaining, hle⟩ := h
      constructor <;> dsimp only <;> omega
    · rw [if_neg fun hset => hup hset.2.2,
        if_neg fun hset => hsentinel hset.1] at hraise
      rw [hraise.1, hraise.2]
      exact ⟨h, hL⟩
  · obtain ⟨hinst, hpos⟩ := poolStep_live_of_ne (t := t) hi n
    rw [hinst, hpos]
    exact ⟨h, hL⟩

/-- An update moves no other member of a position. -/
theorem poolStep_live_book (t : Trading ω ι) (esi : ι) (n : Int) :
    (t.poolStep (.live esi n)).om.book = t.om.book := by
  refine t.om.desk.book_locates ?_
  obtain ⟨remaining, hpos⟩ := updateLocatesLive_frame
    (t.om.instrument esi) (t.om.desk.position esi) n true
  rw [hpos]
  rfl

-- ==================================================== the run, exactly

/-- The pool of a configured instrument, on a day whose fills give locates
back. -/
structure PoolInv (i : ι) (t : Trading ω ι) : Prop where
  inPool : t.InPool i
  norecycle : (t.om.desk.position i).norecycle = false
  configured : ConfiguredSize (t.om.instrument i).locateSize

omit [DecidableEq ω] [DecidableEq ι] in
theorem poolInv_start {c : OrderManagerConf ω ι} {i : ι}
    (hi : ConfiguredSize (c.instrument i).locateSize) :
    PoolInv i (start c) := by
  obtain ⟨sessions, records, hstart, -⟩ := OrderManager.start_frame c
  have hpos : (start c).om.desk.position i = c.position i := by
    show (OrderManager.start c).desk.position i = _
    rw [hstart]
    rfl
  have hinst : (start c).om.instrument i = c.instrument i := by
    show (OrderManager.start c).instrument i = _
    rw [hstart]
    rfl
  refine ⟨?_, ?_, ?_⟩
  · unfold InPool
    rw [hpos, hinst]
    exact ⟨add_zero _, le_refl _, hi.1, le_refl _⟩
  · rw [hpos]
    rfl
  · rw [hinst]
    exact hi

theorem inPool_poolStep_iff (h : PoolInv i t) {e : PoolEvent ω ι}
    (hok : t.PoolOk e) :
    (t.poolStep e).InPool i ↔ t.GivesBackWithin i e := by
  cases e with
  | trade e => exact inPool_step_iff h.inPool h.norecycle e
  | live esi n =>
      exact iff_of_true (h.inPool.live h.configured esi hok).1 trivial

theorem poolInv_step (h : PoolInv i t) {e : PoolEvent ω ι}
    (hok : t.PoolOk e) (hgive : t.GivesBackWithin i e) :
    PoolInv i (t.poolStep e) := by
  have hpool := (inPool_poolStep_iff h hok).mpr hgive
  cases e with
  | trade e =>
      refine ⟨hpool, (norecycle_step t e i).trans h.norecycle, ?_⟩
      show ConfiguredSize ((t.step e).om.instrument i).locateSize
      rw [locateSize_step]
      exact h.configured
  | live esi n =>
      have hbook := congrFun (congrArg Book.position
        (t.poolStep_live_book esi n)) i
      exact ⟨hpool, (congrArg Position.norecycle hbook).trans h.norecycle,
        (h.inPool.live h.configured esi hok).2⟩

-- ===================================================== what was taken

/-- With every open sell filled, the position is short by no more than the
locates in use. -/
structure Backed [Fintype ι] (i : ι) (t : Trading ω ι) : Prop where
  exposure : ExposureInv t
  remote : (t.om.desk.position i).remoteQuantity = 0
  backed : -(t.om.desk.position i).reach .sell
    ≤ (t.om.desk.position i).locatesUsed

variable [Fintype ι]

/-- Then what an event gives back was taken. -/
theorem Backed.givesBackWithin (h : Backed i t) {e : PoolEvent ω ι}
    (hok : t.PoolOk e) : t.GivesBackWithin i e := by
  obtain ⟨-, hshort, hcover⟩ := h.exposure.covers i
  have hnet : (t.om.desk.position i).net
      = (t.om.desk.position i).tradingQuantity := by
    unfold Position.net
    rw [h.remote]
    exact add_zero _
  have hbacked : -((t.om.desk.position i).tradingQuantity
      - (t.om.desk.position i).openShortSize)
      ≤ (t.om.desk.position i).locatesUsed := h.backed
  cases e with
  | live esi n => trivial
  | trade e =>
      cases e with
      | fill w size price ts exts feeCode =>
          intro _ _ hneg
          rw [hnet] at hneg ⊢
          omega
      | cancelled w size ts exts =>
          intro hi hsells hneg
          rw [hnet] at hneg
          obtain ⟨hsent, hnotrej, hsize⟩ := hok
          have hle := hcover w (Finset.mem_sdiff.mpr ⟨hsent, hnotrej⟩) hi
          have hside := EquityInstrument.ne_buy_of_sells hsells
          rw [if_neg hside] at hle
          omega
      | _ => trivial

omit [DecidableEq ι] [Fintype ι] in
/-- What a sell takes covers it. -/
theorem used_reserveLocates {pos : Position} {o : Order ι}
    (hused : 0 ≤ pos.locatesUsed) (hremote : pos.remoteQuantity = 0)
    (hside : o.side ≠ .buy) (hopen : 0 ≤ pos.openShortSize)
    (hheld : pos.openShortSize < 4294967296)
    (hfits : -(EquityInstrument.postPosition pos o - pos.openShortSize)
      < 4294967296) :
    -(pos.reach .sell) + o.size
      ≤ (EquityInstrument.reserveLocates pos o).locatesUsed := by
  have hpost : EquityInstrument.postPosition pos o
      = pos.tradingQuantity - o.size := by
    unfold EquityInstrument.postPosition
    rw [if_neg hside, hremote]
    exact congrArg (· - (o.size : Int)) (add_zero _)
  have hreach : pos.reach .sell
      = pos.tradingQuantity - pos.openShortSize := rfl
  have hsize : (pos.shortOpenSize : Int) = pos.openShortSize :=
    u32_of_fits hopen hheld
  show _ ≤ pos.locatesUsed
    + (EquityInstrument.requiredLocateSize pos o : Int)
  unfold EquityInstrument.requiredLocateSize
  rw [hpost] at hfits ⊢
  rw [hreach, hsize]
  split
  case isTrue hshort =>
    rw [u32_of_fits (by omega) hfits]
    omega
  case isFalse hlong =>
    rw [Nat.cast_zero]
    omega

omit [DecidableEq ι] [Fintype ι] in
/-- A fill gives back at most its size, and that of a sell nothing. -/
theorem used_recycleOnFill (pos : Position) (o : Order ι) (n : Nat) :
    pos.locatesUsed - (if o.side = .buy then (n : Int) else 0)
      ≤ (recycleOnFill pos o n).locatesUsed := by
  by_cases hside : o.side = .buy
  · rw [if_pos hside]
    unfold recycleOnFill
    split
    · show _ ≤ pos.locatesUsed
        - min (n : Int) (-(pos.quantity + pos.remoteQuantity))
      omega
    · omega
  · rw [if_neg hside]
    unfold recycleOnFill
    rw [if_neg fun h => hside h.1, sub_zero]

omit [DecidableEq ι] [Fintype ι] in
/-- A cancel gives back at most its size, and that of a buy nothing. -/
theorem used_recycleOnCancel (pos : Position) (o : Order ι) (n : Nat) :
    pos.locatesUsed - (if o.side = .buy then 0 else (n : Int))
      ≤ (recycleOnCancel pos o n).locatesUsed := by
  unfold recycleOnCancel
  by_cases hside : o.side = .buy
  · have hnot : ¬(o.side = .short ∨ o.side = .shortExempt
        ∨ o.side = .sell) := by
      rw [hside]
      decide
    rw [if_pos hside, if_neg fun h => hnot h.2.1, sub_zero]
  · rw [if_neg hside]
    split
    · exact le_refl _
    · omega

section OwnInstrument

variable {w : ω} (hi : (t.om.order w).instrument = i)

include hi

omit [Fintype ι]

/-- What the events of the instrument's own orders add to the reach of its
sell side. -/
theorem sellGain_send (session : Bytes) (a : OrderManager.SendAnswer) :
    t.reachGain i .sell (.send w session a)
      = if (t.om.send w session a).1 = true ∧ (t.om.order w).side ≠ .buy then
          -((t.om.order w).size : Int)
        else 0 := by
  subst hi
  simp only [reachGain, Side.Along, Side.signed, reduceCtorEq, iff_false,
    true_and, if_false, ne_eq]

theorem sellGain_fill (size : Nat) (price : Rat) (ts : Timestamp)
    (exts : Nat) (feeCode : FillFeeCode) :
    t.reachGain i .sell (.fill w size price ts exts feeCode)
      = if (t.om.order w).side = .buy then (size : Int) else 0 := by
  subst hi
  simp only [reachGain, Side.Along, Side.signed, reduceCtorEq, iff_false,
    true_and, if_true, if_false, neg_neg]
  by_cases hside : (t.om.order w).side = .buy
  · rw [if_pos hside, if_pos hside, if_neg fun h => h hside, add_zero]
  · rw [if_neg hside, if_neg hside, if_pos hside, neg_add_cancel]

theorem sellGain_cancelled (size : Nat) (ts : Timestamp) (exts : Nat) :
    t.reachGain i .sell (.cancelled w size ts exts)
      = if (t.om.order w).side = .buy then 0 else (size : Int) := by
  subst hi
  simp only [reachGain, Side.Along, Side.signed, reduceCtorEq, iff_false,
    true_and, if_false, neg_neg, ite_not]

theorem sellGain_rejected (ts : Timestamp) (exts : Nat) :
    t.reachGain i .sell (.rejected w ts exts)
      = if (t.om.order w).side = .buy then 0
        else ((t.om.order w).size : Int) := by
  subst hi
  simp only [reachGain, Side.Along, Side.signed, reduceCtorEq, iff_false,
    true_and, if_false, neg_neg, ite_not]

/-- A sell that is let through is backed by what it takes. -/
theorem backed_send (hbacked : -(t.om.desk.position i).reach .sell
      ≤ (t.om.desk.position i).locatesUsed)
    (session : Bytes) (a : OrderManager.SendAnswer)
    (hused : 0 ≤ (t.om.desk.position i).locatesUsed)
    (hremote : (t.om.desk.position i).remoteQuantity = 0)
    (hopen : 0 ≤ (t.om.desk.position i).openShortSize)
    (hfits : t.ShortFits i (.trade (.send w session a))) :
    -((t.om.desk.position i).reach .sell
        + t.reachGain i .sell (.send w session a))
      ≤ (t.movedLocates (.send w session a)).locatesUsed := by
  have hmoved : t.movedLocates (.send w session a)
      = if t.om.reserves w a then
          EquityInstrument.reserveLocates (t.om.desk.position i)
            (t.om.order w)
        else t.om.desk.position i := by
    subst hi
    rfl
  rw [sellGain_send hi, hmoved]
  split
  case isTrue hacc =>
    obtain ⟨hr, hside⟩ := hacc
    have hsells : EquityInstrument.sells (t.om.order w) = true := by
      rcases t.om.send_spec w session a with ⟨-, side, hacc⟩ | ⟨hno, -⟩
      · obtain ⟨-, -, -, hknown⟩ := Order.validateBase_spec hacc.valid
        exact (EquityInstrument.sells_iff_ne_buy hknown).mpr hside
      · rw [hr] at hno
        cases hno
    obtain ⟨hheld, hshort⟩ := hfits hi hsells
    have htake := used_reserveLocates hused hremote hside hopen hheld hshort
    rw [OrderManager.reserves_of_passed
      (OrderManager.passesChecks_of_sent hr), if_pos hsells]
    omega
  case isFalse =>
    rw [add_zero]
    split
    · refine hbacked.trans ?_
      show _ ≤ (t.om.desk.position i).locatesUsed
        + (EquityInstrument.requiredLocateSize _ _ : Int)
      omega
    · exact hbacked

end OwnInstrument

omit [Fintype ι] in
/-- An update of the locates uses none. -/
theorem locatesUsed_poolStep_live (t : Trading ω ι) (esi i : ι) (n : Int) :
    ((t.poolStep (.live esi n)).om.desk.position i).locatesUsed
      = (t.om.desk.position i).locatesUsed := by
  by_cases hi : i = esi
  · subst hi
    show (Function.update t.om.desk.position i _ i).locatesUsed = _
    obtain ⟨remaining, hpos⟩ := updateLocatesLive_frame
      (t.om.instrument i) (t.om.desk.position i) n true
    rw [Function.update_self, hpos]
  · rw [(poolStep_live_of_ne (t := t) hi n).2]

theorem Backed.live (h : Backed i t) (esi : ι) (n : Int) :
    Backed i (t.poolStep (.live esi n)) := by
  have hbook := congrFun (congrArg Book.position
    (t.poolStep_live_book esi n)) i
  refine ⟨?_, ?_, ?_⟩
  · obtain ⟨hseen, hrej, hfresh, hwithin, hknown, hacc⟩ := h.exposure
    refine ⟨hseen, hrej, hfresh, hwithin, hknown, ?_⟩
    rw [poolStep_live_book]
    exact hacc
  · exact (congrArg Position.remoteQuantity hbook).trans h.remote
  · rw [locatesUsed_poolStep_live]
    exact (congrArg (fun pos => -pos.reach .sell) hbook).trans_le h.backed

/-- No event leaves the position short by more than what is in use. -/
theorem Backed.step (h : Backed i t) (hpool : t.InPool i) {e : PoolEvent ω ι}
    (hok : t.PoolOk e) (hfits : t.ShortFits i e) :
    Backed i (t.poolStep e) := by
  cases e with
  | live esi n => exact h.live esi n
  | trade e =>
      have hreach : ((t.step e).om.desk.position i).reach .sell
          = (t.om.desk.position i).reach .sell + t.reachGain i .sell e :=
        reach_step t e i .sell
      have hlocates := congrFun (t.locates_step e) i
      refine ⟨exposureInv_step t e h.exposure hok,
        (remoteQuantity_step t e i).trans h.remote, ?_⟩
      show -((t.step e).om.desk.position i).reach .sell
        ≤ ((t.step e).om.desk.position i).locatesUsed
      rw [hreach]
      by_cases hi : (t.om.order e.about).instrument = i
      · have hused : ((t.step e).om.desk.position i).locatesUsed
            = (t.movedLocates e).locatesUsed := by
          rw [hi, Function.update_self] at hlocates
          exact congrArg Prod.snd hlocates
        have hbacked := h.backed
        rw [hused]
        cases e with
        | send w session a =>
            exact backed_send hi hbacked session a hpool.used_nonneg
              h.remote (h.exposure.covers i).2.1 hfits
        | fill w size price ts exts feeCode =>
            have hi : (t.om.order w).instrument = i := hi
            have hleast := used_recycleOnFill (t.om.desk.position i)
              (t.om.order w) size
            rw [sellGain_fill hi]
            subst hi
            refine le_trans ?_ hleast
            omega
        | cancelled w size ts exts =>
            have hi : (t.om.order w).instrument = i := hi
            have hleast := used_recycleOnCancel (t.om.desk.position i)
              (t.om.order w) size
            rw [sellGain_cancelled hi]
            subst hi
            refine le_trans ?_ hleast
            omega
        | rejected w ts exts =>
            have hi : (t.om.order w).instrument = i := hi
            rw [sellGain_rejected hi]
            subst hi
            refine le_trans ?_ hbacked
            split <;> omega
        | _ =>
            subst hi
            show -(_ + 0) ≤ _
            rw [add_zero]
            exact hbacked
      · have hused : ((t.step e).om.desk.position i).locatesUsed
            = (t.om.desk.position i).locatesUsed := by
          rw [Function.update_of_ne (Ne.symm hi)] at hlocates
          exact congrArg Prod.snd hlocates
        rw [reachGain_of_ne .sell hi, hused, add_zero]
        exact h.backed

theorem backed_start {c : OrderManagerConf ω ι} {i : ι}
    (hstart : 0 ≤ c.startQuantity i) : Backed i (start c) := by
  have hreach : ((start c).om.desk.position i).reach .sell
      = c.startQuantity i := reach_start c i .sell
  have hpos : (start c).om.desk.position i = c.position i := by
    obtain ⟨sessions, records, heq, -⟩ := OrderManager.start_frame c
    show (OrderManager.start c).desk.position i = _
    rw [heq]
    rfl
  refine ⟨exposureInv_start c, ?_, ?_⟩
  · rw [hpos]
    rfl
  · rw [hreach, hpos]
    exact neg_nonpos.mpr hstart

end Trading

-- ==================================================== the pool, over a run

/-- Over a day of orderly events and configured updates, the pool of a
configured instrument keeps its bounds exactly if nothing gives back more
than is in use; which nothing does if the instrument does not start short
and its open sells and its shortage fit their type. -/
theorem pool_bounds_iff [Fintype ι] (c : OrderManagerConf ω ι) (i : ι)
    (hi : ConfiguredSize (c.instrument i).locateSize)
    {es : List (PoolEvent ω ι)}
    (hes : Lib.Admits Trading.poolStep Trading.PoolOk (Trading.start c) es) :
    (Lib.Admits Trading.poolStep (fun t e => (t.poolStep e).InPool i)
          (Trading.start c) es
        ↔ Lib.Admits Trading.poolStep (Trading.GivesBackWithin i)
          (Trading.start c) es)
      ∧ (0 ≤ c.startQuantity i →
        Lib.Admits Trading.poolStep (Trading.ShortFits i)
          (Trading.start c) es →
        Lib.Admits Trading.poolStep (fun t e => (t.poolStep e).InPool i)
          (Trading.start c) es) := by
  have hiff := Lib.admits_iff_of_step (I := Trading.PoolInv i)
    (fun _ _ h hok => Trading.inPool_poolStep_iff h hok)
    (fun _ _ h hok hgive => Trading.poolInv_step h hok hgive)
    (Trading.poolInv_start hi) hes
  refine ⟨hiff, fun hstart hfits => hiff.mpr ?_⟩
  refine Lib.Admits.mono_of
    (I := fun t : Trading ω ι => Trading.PoolInv i t ∧ t.Backed i)
    (fun t e h hok => ?_) (fun t e h hok => ?_)
    ⟨Trading.poolInv_start hi, Trading.backed_start hstart⟩
    (Lib.admits_and.mpr ⟨hes, hfits⟩)
  · exact ⟨Trading.poolInv_step h.1 hok.1 (h.2.givesBackWithin hok.1),
      h.2.step h.1.inPool hok.1 hok.2⟩
  · exact h.2.givesBackWithin hok.1

/-- Five sold short out of four held, two of them cancelled, and the pool
raised by ten. -/
theorem pool_bounds_iff_demo :
    Lib.Admits Trading.poolStep (fun t e => (t.poolStep e).InPool ())
      (Trading.start { OrderManagerConf.plain fun _ : Unit =>
        OrderParams.dayLimit () .sell 9 10 with
          startQuantity := fun _ => 4 })
      [.trade (.send () [66] .taken),
        .trade (.acknowledged () 1 9 ⟨1, 0⟩ 1),
        .trade (.fill () 7 10 ⟨2, 0⟩ 2 .unknown), .live () 1010,
        .trade (.cancelled () 2 ⟨3, 0⟩ 3)] :=
  (pool_bounds_iff _ () (by decide +kernel) (by decide +kernel)).2
    (by decide +kernel) (by decide +kernel)

/-- The day starts ten short, a buy covers, and ten locates come back that
nobody took. -/
theorem cover_raises_pool_above_size :
    ¬ ∀ (c : OrderManagerConf Unit Unit) (i : Unit),
      ConfiguredSize (c.instrument i).locateSize →
      ∀ es : List (PoolEvent Unit Unit),
        Lib.Admits Trading.poolStep Trading.PoolOk (Trading.start c) es →
        Lib.Admits Trading.poolStep (fun t e => (t.poolStep e).InPool i)
          (Trading.start c) es := by
  intro h
  have hrun := h { OrderManagerConf.plain fun _ : Unit =>
        OrderParams.dayLimit () .buy 10 10 with
      startQuantity := fun _ => -10 }
    () (by decide +kernel)
    [.trade (.send () [66] .taken), .trade (.acknowledged () 1 10 ⟨1, 0⟩ 1),
      .trade (.fill () 10 10 ⟨2, 0⟩ 2 .unknown)] (by decide +kernel)
  have hused := hrun.2.2.1.used_nonneg
  exact absurd hused (by decide +kernel)

-- ================================================================ norecycle

/-- A fill takes no locates back into the pool. -/
def Trading.KeepsLocates (i : ι) (t : Trading ω ι) : Event ω → Prop
  | .fill w size price ts exts feeCode =>
      let pos := t.om.desk.position i
      let pos' := (t.step (.fill w size price ts exts feeCode)
        ).om.desk.position i
      pos'.locatesRemaining ≤ pos.locatesRemaining
        ∧ pos.locatesUsed ≤ pos'.locatesUsed
  | _ => True

/-- No share is bought while the position is short. -/
def Trading.NoCover (i : ι) (t : Trading ω ι) : Event ω → Prop
  | .fill w size _ _ _ _ =>
      (t.om.order w).instrument = i → (t.om.order w).side = .buy →
        (t.om.desk.position i).net < 0 → size = 0
  | _ => True

instance (i : ι) (t : Trading ω ι) :
    (e : Event ω) → Decidable (t.NoCover i e)
  | .send .. | .cancel .. | .destroy .. | .acknowledged .. | .rejected ..
  | .fill .. | .cancelled .. | .cancelRejected .. => by
      unfold Trading.NoCover
      infer_instance

/-- A position whose fills recycle, with its locates configured. -/
structure Position.Recycles (pos : Position) : Prop where
  norecycle : pos.norecycle = false
  remaining_nonneg : 0 ≤ pos.locatesRemaining

namespace Trading

variable {t : Trading ω ι} {i : ι}

theorem keepsLocates_iff (h : (t.om.desk.position i).Recycles)
    (e : Event ω) : t.KeepsLocates i e ↔ t.NoCover i e := by
  cases e with
  | fill w size price ts exts feeCode =>
      have hlocates := congrFun
        (t.om.locates_onFill w size ts exts price feeCode) i
      obtain ⟨hrec, hremaining⟩ := h
      have hset : (t.om.desk.position i).locatesRemaining
          ≠ locatesRemainingSentinel := by
        unfold locatesRemainingSentinel
        omega
      show ((t.om.onFill w size price ts exts feeCode).desk.locates i).1
            ≤ (t.om.desk.position i).locatesRemaining
          ∧ (t.om.desk.position i).locatesUsed
            ≤ ((t.om.onFill w size price ts exts feeCode).desk.locates i).2
        ↔ _
      rw [hlocates]
      by_cases hi : (t.om.order w).instrument = i
      · subst hi
        rw [Function.update_self]
        unfold recycleOnFill NoCover Position.net
        dsimp only
        split
        case isTrue hgive =>
          obtain ⟨hside, hshort, -, -⟩ := hgive
          show _ + min (size : Int) (-_) ≤ _ ∧ _ ≤ _ - min (size : Int) (-_)
            ↔ _
          constructor
          · intro hkeeps _ _ _
            omega
          · intro hno
            have hzero := hno rfl hside hshort
            omega
        case isFalse hkeep =>
          refine iff_of_true ⟨le_refl _, le_refl _⟩ ?_
          intro _ hside hshort
          exact absurd ⟨hside, hshort, hrec, hset⟩ hkeep
      · rw [Function.update_of_ne (Ne.symm hi)]
        exact iff_of_true ⟨le_refl _, le_refl _⟩ fun heq => absurd heq hi
  | _ => exact iff_of_true trivial trivial

/-- Locates are only taken where there are some, so a configured count
does not go below zero. -/
theorem recycles_step (h : (t.om.desk.position i).Recycles) (e : Event ω) :
    ((t.step e).om.desk.position i).Recycles := by
  refine ⟨(norecycle_step t e i).trans h.norecycle, ?_⟩
  have hlocates := congrFun (t.locates_step e) i
  have hremaining := h.remaining_nonneg
  show 0 ≤ ((t.step e).om.desk.locates i).1
  rw [hlocates]
  by_cases hi : (t.om.order e.about).instrument = i
  · subst hi
    rw [Function.update_self]
    show 0 ≤ (t.movedLocates e).locatesRemaining
    cases e with
    | send w session a =>
        show 0 ≤ (if t.om.reserves w a then _ else _
          : Position).locatesRemaining
        split
        case isTrue hreserves =>
          unfold OrderManager.reserves EquityInstrument.locatesAllow
            at hreserves
          simp only [Bool.and_eq_true, decide_eq_true_eq] at hreserves
          exact sub_nonneg.mpr hreserves.2.2.2
        case isFalse => exact hremaining
    | fill w size price ts exts feeCode =>
        show 0 ≤ (recycleOnFill _ (t.om.order w) size).locatesRemaining
        unfold recycleOnFill
        split
        case isTrue hgive =>
          have hshort := hgive.2.1
          show 0 ≤ _ + min (size : Int) (-_)
          omega
        case isFalse => exact hremaining
    | cancelled w size ts exts =>
        show 0 ≤ (recycleOnCancel _ (t.om.order w) size).locatesRemaining
        unfold recycleOnCancel
        split
        · show 0 ≤ _ + (size : Int)
          omega
        · exact hremaining
    | _ => exact hremaining
  · rw [Function.update_of_ne (Ne.symm hi)]
    exact hremaining

end Trading

/-- Whatever happens on a day, no fill of an instrument constructed with
`norecycle` gives locates back, exactly if none of its shares is bought
while the position is short. -/
theorem norecycle_honoured_iff (c : OrderManagerConf ω ι) (i : ι)
    (_ : (c.instrument i).norecycle = true)
    (hi : 0 ≤ (c.instrument i).locateSize) (es : List (Event ω)) :
    Lib.Admits Trading.step (Trading.KeepsLocates i) (Trading.start c) es
      ↔ Lib.Admits Trading.step (Trading.NoCover i) (Trading.start c) es := by
  have hstart : ((Trading.start c).om.desk.position i).Recycles := by
    obtain ⟨sessions, records, heq, -⟩ := OrderManager.start_frame c
    show ((OrderManager.start c).desk.position i).Recycles
    rw [heq]
    exact ⟨rfl, hi⟩
  exact Lib.admits_iff_of_step (p := fun _ _ => True)
    (I := fun t : Trading ω ι => (t.om.desk.position i).Recycles)
    (fun _ e h _ => Trading.keepsLocates_iff h e)
    (fun _ e h _ _ => Trading.recycles_step h e) hstart
    (Lib.Admits.trivial _ es)

/-- Bought and sold again, never short. -/
theorem norecycle_honoured_iff_demo :
    let c : OrderManagerConf Bool Unit := .plain fun w =>
      if w then .dayLimit () .buy 10 5 else .dayLimit () .sell 4 6
    let c := { c with instrument := fun i =>
      { c.instrument i with norecycle := true } }
    Lib.Admits Trading.step (Trading.KeepsLocates ()) (Trading.start c)
      [.send true [66] .taken, .acknowledged true 1 10 ⟨1, 0⟩ 1,
        .fill true 10 5 ⟨2, 0⟩ 2 .unknown, .send false [66] .taken,
        .acknowledged false 2 4 ⟨3, 0⟩ 3,
        .fill false 4 6 ⟨4, 0⟩ 4 .unknown] := by
  intro c₀ c
  exact (norecycle_honoured_iff c () rfl (by decide +kernel) _).mpr
    (by decide +kernel)

/-- Five sold short and bought back: five locates come back, flag or no
flag. -/
theorem norecycle_ignored :
    ¬ ∀ (c : OrderManagerConf Bool Unit) (i : Unit),
      (c.instrument i).norecycle = true →
      0 ≤ (c.instrument i).locateSize →
      ∀ es : List (Event Bool),
        Lib.Admits Trading.step Trading.Orderly (Trading.start c) es →
        Lib.Admits Trading.step (Trading.KeepsLocates i)
          (Trading.start c) es := by
  intro h
  let c₀ : OrderManagerConf Bool Unit := .plain fun w =>
    if w then .dayLimit () .buy 5 5 else .dayLimit () .sell 5 6
  let c := { c₀ with instrument := fun i =>
    { c₀.instrument i with norecycle := true } }
  have hrun := h c () rfl (by decide +kernel)
    [.send false [66] .taken, .acknowledged false 1 5 ⟨1, 0⟩ 1,
      .fill false 5 6 ⟨2, 0⟩ 2 .unknown, .send true [66] .taken,
      .acknowledged true 2 5 ⟨3, 0⟩ 3, .fill true 5 5 ⟨4, 0⟩ 4 .unknown]
    (by decide +kernel)
  exact absurd hrun.2.2.2.2.2.1.1 (by decide +kernel)

end TradingEngine.OE
