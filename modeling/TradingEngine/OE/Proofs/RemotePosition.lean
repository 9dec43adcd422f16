/-
The total of the other engines' positions, and what they reported.

`auto oldq = rempos.trading_quantity = qty` takes the old quantity after
the new one is in its place, so the change that is added to the total is
always zero: the total stays what the constructor made it, zero, and is
the sum over the engines exactly where that sum is zero.

# Why zero

The sum over the engines moves by the change of the engine that reports
(`calcRemoteQuantity_update`), as it should. The total does not move at all
(`toPosition_update`). So they agree in the end if the last reports add up to
nothing, and agree all the way if and only if no engine ever reports anything
but zero: the first report that is not zero is not balanced by another one in
the same call.
-/
import TradingEngine.OE.RemotePosition
import TradingEngine.Lib.Run
import TradingEngine.Lib.Total

namespace TradingEngine.OE

namespace SharedPosition

-- ================================================================ one update

/-- What the engine at an index says last, if it says anything. -/
def lastReported (us : List RemoteUpdate) (i : RemoteIndex) : Int :=
  us.foldl (fun q u =>
    if IsEngine u.source ∧ u.source.toNat = i.val then u.qty else q) 0

/-- The sum over the engines of the last quantity that each reported. -/
def reportedTotal (us : List RemoteUpdate) : Int :=
  (engineIndices.map (lastReported us)).sum

/-- The loop adds up. -/
theorem calcRemoteQuantity_eq (pos : SharedPosition) :
    pos.calcRemoteQuantity
      = (engineIndices.map fun i =>
          (pos.remotePositions i).tradingQuantity).sum := by
  unfold calcRemoteQuantity
  rw [List.sum_eq_foldl, List.foldl_map]

theorem mem_engineIndices {i : RemoteIndex} (h : 1 ≤ i.val) :
    i ∈ engineIndices := by
  revert i
  decide

/-- Another engine's report is ignored. -/
theorem updateRemotePosition_of_not {pos : SharedPosition}
    {u : RemoteUpdate} (h : ¬IsEngine u.source) :
    pos.updateRemotePosition u = pos := by
  unfold updateRemotePosition
  exact dif_neg h

/-- What `Position` has of it never moves: neither the total nor anything
else that `validate` reads. -/
theorem toPosition_update (pos : SharedPosition) (u : RemoteUpdate) :
    (pos.updateRemotePosition u).toPosition = pos.toPosition := by
  unfold updateRemotePosition
  split
  · show { pos.toPosition with
      remoteTradingQuantity := pos.remoteTradingQuantity + (u.qty - u.qty) }
      = pos.toPosition
    rw [sub_self, add_zero]
  · rfl

/-- The quantities of the engines do. -/
theorem tradingQuantity_update (pos : SharedPosition) (u : RemoteUpdate)
    (i : RemoteIndex) :
    ((pos.updateRemotePosition u).remotePositions i).tradingQuantity
      = if IsEngine u.source ∧ u.source.toNat = i.val then u.qty
        else (pos.remotePositions i).tradingQuantity := by
  unfold updateRemotePosition
  split
  case isTrue h =>
    show (Function.update pos.remotePositions h.index _ i).tradingQuantity = _
    by_cases hi : i = h.index
    · rw [hi, Function.update_self, if_pos ⟨h, rfl⟩]
    · rw [Function.update_of_ne hi, if_neg]
      exact fun hboth => hi (Fin.ext hboth.2.symm)
  case isFalse h => rw [if_neg fun hboth => h hboth.1]

/-- The sum moves by the change of the engine that reports: what should be
added to the total. -/
theorem calcRemoteQuantity_update {pos : SharedPosition} {u : RemoteUpdate}
    (h : IsEngine u.source) :
    (pos.updateRemotePosition u).calcRemoteQuantity
      = pos.calcRemoteQuantity
        + (u.qty - (pos.remotePositions h.index).tradingQuantity) := by
  have hnodup : engineIndices.Nodup := by decide
  have hmem : h.index ∈ engineIndices.toFinset :=
    List.mem_toFinset.mpr
      (mem_engineIndices (UInt8.le_iff_toNat_le.mp h.1))
  rw [calcRemoteQuantity_eq, calcRemoteQuantity_eq,
    ← List.sum_toFinset _ hnodup, ← List.sum_toFinset _ hnodup,
    Lib.sum_change hmem (f := fun i =>
      (pos.remotePositions i).tradingQuantity) fun i _ hi => ?_]
  · rw [tradingQuantity_update, if_pos ⟨h, rfl⟩]
  · rw [tradingQuantity_update, if_neg]
    exact fun hboth => hi (Fin.ext hboth.2.symm)

-- ==================================================================== a run

/-- The position after the updates. -/
def after (startq : Int) (adjClose : Rat) (us : List RemoteUpdate) :
    SharedPosition :=
  Lib.run updateRemotePosition (create startq adjClose) us

variable (startq : Int) (adjClose : Rat)

/-- Whatever was reported, orders are checked against the position as it
was constructed. -/
theorem toPosition_after (us : List RemoteUpdate) :
    (after startq adjClose us).toPosition
      = Position.create startq adjClose :=
  Lib.run_induction
    (I := fun pos : SharedPosition =>
      pos.toPosition = Position.create startq adjClose)
    (fun pos u h => (toPosition_update pos u).trans h) rfl

theorem remoteQuantity_after (us : List RemoteUpdate) :
    (after startq adjClose us).remoteQuantity = 0 :=
  congrArg Position.remoteQuantity (toPosition_after startq adjClose us)

theorem tradingQuantity_run (pos : SharedPosition) (us : List RemoteUpdate)
    (i : RemoteIndex) :
    ((Lib.run updateRemotePosition pos us).remotePositions i).tradingQuantity
      = us.foldl (fun q u =>
          if IsEngine u.source ∧ u.source.toNat = i.val then u.qty else q)
          (pos.remotePositions i).tradingQuantity := by
  induction us generalizing pos with
  | nil => rfl
  | cons u us ih =>
      rw [Lib.run_cons, ih, List.foldl_cons, tradingQuantity_update]

/-- What the engines reported last is there to be added up. -/
theorem calcRemoteQuantity_after (us : List RemoteUpdate) :
    (after startq adjClose us).calcRemoteQuantity = reportedTotal us := by
  rw [calcRemoteQuantity_eq]
  unfold reportedTotal
  refine congrArg List.sum (List.map_congr_left fun i _ => ?_)
  exact tradingQuantity_run (create startq adjClose) us i

-- =============================================================== all the way

/-- The total is the sum over the engines. -/
def Balanced (pos : SharedPosition) : Prop :=
  pos.remoteQuantity = pos.calcRemoteQuantity

/-- Nothing is reported, and nothing totalled. -/
structure Flat (pos : SharedPosition) : Prop where
  total : pos.remoteQuantity = 0
  engines : ∀ i, (pos.remotePositions i).tradingQuantity = 0

theorem flat_create : Flat (create startq adjClose) := ⟨rfl, fun _ => rfl⟩

theorem calcRemoteQuantity_flat {pos : SharedPosition} (h : Flat pos) :
    pos.calcRemoteQuantity = 0 := by
  rw [calcRemoteQuantity_eq, List.map_congr_left fun i _ => h.engines i]
  rfl

/-- A report into a flat position is its only quantity. -/
theorem calcRemoteQuantity_update_flat {pos : SharedPosition} (h : Flat pos)
    {u : RemoteUpdate} (hu : IsEngine u.source) :
    (pos.updateRemotePosition u).calcRemoteQuantity = u.qty := by
  rw [calcRemoteQuantity_update hu, h.engines, sub_zero,
    calcRemoteQuantity_flat h, zero_add]

theorem balanced_update_iff {pos : SharedPosition} (h : Flat pos)
    (u : RemoteUpdate) :
    Balanced (pos.updateRemotePosition u)
      ↔ (IsEngine u.source → u.qty = 0) := by
  unfold Balanced
  by_cases hu : IsEngine u.source
  · rw [toPosition_update, h.total, calcRemoteQuantity_update_flat h hu]
    exact ⟨fun hq _ => hq.symm, fun hq => (hq hu).symm⟩
  · rw [updateRemotePosition_of_not hu, h.total, calcRemoteQuantity_flat h]
    exact iff_of_true rfl fun hu' => absurd hu' hu

theorem flat_update {pos : SharedPosition} (h : Flat pos) {u : RemoteUpdate}
    (hu : IsEngine u.source → u.qty = 0) :
    Flat (pos.updateRemotePosition u) := by
  refine ⟨(congrArg Position.remoteQuantity
    (toPosition_update pos u)).trans h.total, fun i => ?_⟩
  rw [tradingQuantity_update]
  split
  case isTrue hi => exact hu hi.1
  case isFalse => exact h.engines i

/-- The total that orders are checked against is the sum over the engines
in the end exactly if what they reported last adds up to nothing, and all
the way exactly if they report nothing but zeros. A report from elsewhere
changes nothing. -/
theorem remote_total_iff (us : List RemoteUpdate) :
    (Balanced (after startq adjClose us) ↔ reportedTotal us = 0)
    ∧ (Lib.Admits updateRemotePosition
        (fun pos u => Balanced (pos.updateRemotePosition u))
        (create startq adjClose) us
      ↔ ∀ u ∈ us, IsEngine u.source → u.qty = 0)
    ∧ (after startq adjClose us).calcRemoteQuantity = reportedTotal us
    ∧ ∀ (pos : SharedPosition) (u : RemoteUpdate), ¬IsEngine u.source →
      pos.updateRemotePosition u = pos := by
  have hsum := calcRemoteQuantity_after startq adjClose us
  refine ⟨?_, ?_, hsum, fun pos u => updateRemotePosition_of_not⟩
  · unfold Balanced
    rw [remoteQuantity_after, hsum]
    exact eq_comm
  · have hzeros : Lib.Admits updateRemotePosition
        (fun _ u => IsEngine u.source → u.qty = 0)
        (create startq adjClose) us
        ↔ ∀ u ∈ us, IsEngine u.source → u.qty = 0 :=
      Lib.admits_iff_forall_mem
    rw [← hzeros]
    exact Lib.admits_iff_of_step (I := Flat) (p := fun _ _ => True)
      (fun pos u h _ => balanced_update_iff h u)
      (fun pos u h _ hu => flat_update h hu)
      (flat_create startq adjClose) (Lib.Admits.trivial _ us)

/-- Engine 1 holds a hundred shares, and the total says nothing. -/
theorem remote_total_not_sum :
    ¬ ∀ (startq : Int) (adjClose : Rat) (us : List RemoteUpdate),
      (∀ u ∈ us, IsEngine u.source) →
      Balanced (after startq adjClose us) := by
  intro h
  have hone := h 0 0 [⟨1, 100, 10, 10, 0, 0⟩] (by decide)
  exact absurd hone (by unfold Balanced; decide)

end SharedPosition

end TradingEngine.OE
