/-
Whether an execution is shared out no more than once.

# The loop ends

A pass fills some of the order at `it`, or moves on, so the loop comes to
its end, and `execCrossLoop` says where (`exec_ends`).

# Conservation

`cross_helper` takes a fill off the size that is left, and moves on to the
next order. `exec_cross_helper` does neither: an order that is reached is
filled whole, in as many fills as it takes, whatever the execution's size,
and so is every order behind it. What was executed is shared out once only
if it does not get past the queue ahead of the first order, or is enough
for all of them (`exec_conserves_iff`).
-/
import TradingEngine.OE.L2SimDetail
import TradingEngine.OE.Proofs.L2SimBooks
import Mathlib.Algebra.Order.BigOperators.Group.List
import Mathlib.Computability.StateTransition

namespace TradingEngine.OE

variable {ω : Type}

namespace L2SimSession

open StateTransition (Reaches eval mem_eval)

-- ================================================================== the loop

variable {check : ω → Bool} {esi : Nat} {ref : Rat}

/-- What the loop is left with of the size, once it has taken off what is
ahead of the order. -/
def pastQueue (avail : Nat) (simo : SimOrder ω) : Nat :=
  avail - min simo.sizeAhead avail

/-- A pass over an order that the execution reaches: a fill. -/
theorem execPass_fill {passed c : OrderContainer ω} {p : Rat}
    {simo : SimOrder ω} {avail : Nat} (hcheck : check simo.order)
    (hpast : pastQueue avail simo ≠ 0) (events : List (SimEvent ω)) :
    execPass check esi ref ⟨passed, (p, simo) :: c, avail, events⟩
      = some ⟨passed,
          if simo.remains - min simo.remains (pastQueue avail simo) = 0
          then c
          else (p, { simo with
            sizeAhead := simo.sizeAhead - min simo.sizeAhead avail
            remains := simo.remains
              - min simo.remains (pastQueue avail simo) }) :: c,
          pastQueue avail simo,
          events ++ [⟨.filled, simo.order, esi,
            min simo.remains (pastQueue avail simo), ref⟩]⟩ := by
  unfold pastQueue at hpast ⊢
  simp [execPass, hcheck, hpast]

/-- And over one that it does not reach. -/
theorem execPass_skip {passed c : OrderContainer ω} {p : Rat}
    {simo : SimOrder ω} {avail : Nat} (hcheck : check simo.order)
    (hpast : pastQueue avail simo = 0) (events : List (SimEvent ω)) :
    execPass check esi ref ⟨passed, (p, simo) :: c, avail, events⟩
      = some ⟨passed ++ [(p, { simo with
            sizeAhead := simo.sizeAhead - min simo.sizeAhead avail })],
          c, pastQueue avail simo, events⟩ := by
  unfold pastQueue at hpast ⊢
  simp [execPass, hcheck, hpast]

/-- An order that the execution reaches is filled until nothing
remains. -/
theorem reaches_execFills {passed c : OrderContainer ω} {p : Rat}
    {simo : SimOrder ω} {avail : Nat} (hcheck : check simo.order)
    (hpast : pastQueue avail simo ≠ 0) (events : List (SimEvent ω)) :
    Reaches (execPass check esi ref)
      ⟨passed, (p, simo) :: c, avail, events⟩
      ⟨passed, c, pastQueue avail simo, events
        ++ execFills simo.order esi ref (pastQueue avail simo)
          simo.remains⟩ := by
  obtain ⟨w, ahead, behind, remains⟩ := simo
  induction remains using Nat.strongRecOn generalizing ahead avail events
  with
  | ind remains ih =>
      refine .head (execPass_fill hcheck hpast events) ?_
      -- nobody is ahead from here on
      have hahead : ahead - min ahead avail = 0 := by
        unfold pastQueue at hpast
        dsimp only at hpast
        omega
      generalize pastQueue avail ⟨w, ahead, behind, remains⟩ = n at hpast ⊢
      dsimp only at hcheck ⊢
      unfold execFills
      dsimp only
      split
      case isTrue hzero =>
        rw [if_pos (.inl hzero)]
      case isFalse hrest =>
        rw [if_neg (by rintro (h | h); exacts [hrest h, hpast h]),
          hahead]
        have hagain : pastQueue n ⟨w, 0, behind, remains - min remains n⟩
            = n := by
          simp [pastQueue]
        have hpast' :
            pastQueue n ⟨w, 0, behind, remains - min remains n⟩ ≠ 0 :=
          hagain ▸ hpast
        have hfills := ih (remains - min remains n) (by omega)
          (events ++ [⟨.filled, w, esi, min remains n, ref⟩]) 0 hcheck
          hpast'
        rw [hagain, List.append_assoc] at hfills
        exact hfills

variable (check esi ref) in
/-- The loop comes to its end, and `execCrossLoop` says where. -/
theorem exec_ends (passed : OrderContainer ω) (avail : Nat)
    (c : OrderContainer ω) (events : List (SimEvent ω)) :
    ∃ s ∈ eval (execPass check esi ref) ⟨passed, c, avail, events⟩,
      s.passed ++ s.it
          = passed ++ (execCrossLoop check esi ref avail c).1
        ∧ s.events
          = events ++ (execCrossLoop check esi ref avail c).2.1
        ∧ s.avail = (execCrossLoop check esi ref avail c).2.2 := by
  induction c generalizing passed avail events with
  | nil =>
      refine ⟨_, mem_eval.mpr ⟨.refl, rfl⟩, rfl, ?_, rfl⟩
      exact (List.append_nil _).symm
  | cons x c ih =>
      obtain ⟨p, simo⟩ := x
      unfold execCrossLoop
      split
      case isFalse hcheck =>
        have hend : execPass check esi ref
            ⟨passed, (p, simo) :: c, avail, events⟩ = none := by
          simp [execPass, hcheck]
        exact ⟨_, mem_eval.mpr ⟨.refl, hend⟩, rfl,
          (List.append_nil _).symm, rfl⟩
      case isTrue hcheck =>
        dsimp only
        split
        case isTrue hpast =>
          obtain ⟨s, hs, hpassed, hevents, hleft⟩ := ih passed
            (pastQueue avail simo)
            (events ++ execFills simo.order esi ref (pastQueue avail simo)
              simo.remains)
          obtain ⟨hreach, hend⟩ := mem_eval.mp hs
          refine ⟨s, mem_eval.mpr
            ⟨(reaches_execFills hcheck hpast events).trans hreach, hend⟩,
            hpassed, ?_, hleft⟩
          rw [hevents, List.append_assoc]
          rfl
        case isFalse hnone =>
          have hpast : pastQueue avail simo = 0 := not_not.mp hnone
          obtain ⟨s, hs, hpassed, hevents, hleft⟩ := ih
            (passed ++ [(p, { simo with
              sizeAhead := simo.sizeAhead - min simo.sizeAhead avail })])
            (pastQueue avail simo) events
          obtain ⟨hreach, hend⟩ := mem_eval.mp hs
          refine ⟨s, mem_eval.mpr
            ⟨.head (execPass_skip hcheck hpast events) hreach, hend⟩,
            ?_, hevents, hleft⟩
          rw [hpassed, List.append_assoc]
          rfl

-- ================================================================ its visits

/-- What an execution did to one order. -/
structure Visit (ω : Type) where
  /-- The order, as the loop found it. -/
  simo : SimOrder ω
  /-- The amount taken off `size_ahead`. -/
  amt : Nat
  fills : List (SimEvent ω)
  /-- What stays in the book. -/
  left : Option (SimOrder ω)

/-- The visits of the loop. -/
def execVisits (check : ω → Bool) (esi : Nat) (ref : Rat) :
    Nat → OrderContainer ω → List (Visit ω)
  | _, [] => []
  | avail, (_, simo) :: c =>
      if check simo.order then
        (if pastQueue avail simo ≠ 0 then
          { simo := simo
            amt := min simo.sizeAhead avail
            fills := execFills simo.order esi ref (pastQueue avail simo)
              simo.remains
            left := none }
        else
          { simo := simo
            amt := min simo.sizeAhead avail
            fills := []
            left := some { simo with
              sizeAhead := simo.sizeAhead - min simo.sizeAhead avail } })
          :: execVisits check esi ref (pastQueue avail simo) c
      else []

/-- What was taken off the sizes ahead. -/
def amts (vs : List (Visit ω)) : Nat := (vs.map Visit.amt).sum

/-- The fills. -/
def fillsOf (vs : List (Visit ω)) : List (SimEvent ω) :=
  vs.flatMap Visit.fills

/-- The orders that an execution looks at. -/
def visited (check : ω → Bool) (c : OrderContainer ω) :
    List (SimOrder ω) :=
  (c.map Prod.snd).takeWhile fun o => check o.order

variable (check esi ref) in
/-- The loop, as the list of its visits. -/
theorem execCrossLoop_eq_visits (avail : Nat) (c : OrderContainer ω) :
    ((execCrossLoop check esi ref avail c).1.map Prod.snd
        = (execVisits check esi ref avail c).filterMap Visit.left
          ++ (c.map Prod.snd).dropWhile fun o => check o.order)
      ∧ (execCrossLoop check esi ref avail c).2.1
        = fillsOf (execVisits check esi ref avail c)
      ∧ (execCrossLoop check esi ref avail c).2.2
          + amts (execVisits check esi ref avail c) = avail
      ∧ (execVisits check esi ref avail c).map Visit.simo
        = visited check c := by
  induction c generalizing avail with
  | nil => simp [execCrossLoop, execVisits, fillsOf, amts, visited]
  | cons x c ih =>
      obtain ⟨p, simo⟩ := x
      obtain ⟨hleft, hfills, hamts, hvisited⟩ := ih (pastQueue avail simo)
      have hdef : avail - min simo.sizeAhead avail = pastQueue avail simo :=
        rfl
      have hsum : pastQueue avail simo + min simo.sizeAhead avail = avail := by
        unfold pastQueue
        omega
      unfold amts fillsOf at *
      unfold execCrossLoop execVisits visited
      by_cases hcheck : check simo.order
      · simp only [if_pos hcheck, hdef]
        split
        case isTrue hpast =>
          refine ⟨?_, ?_, ?_, ?_⟩
          · simpa [hcheck] using hleft
          · simpa using hfills
          · simp only [List.map_cons, List.sum_cons]
            omega
          · simpa [hcheck, visited] using hvisited
        case isFalse hpast =>
          refine ⟨?_, ?_, ?_, ?_⟩
          · simpa [hcheck] using hleft
          · simpa using hfills
          · simp only [List.map_cons, List.sum_cons]
            omega
          · simpa [hcheck, visited] using hvisited
      · simp [hcheck]

-- ============================================================== conservation

/-- What was executed is shared out once: what came off the sizes ahead and
the fills are no more than it, every fill is positive and no more than its
order, and an order for which not enough is left, after those before it and
the queue ahead of it, stays with what was not filled. -/
structure Conserves (avail : Nat) (vs : List (Visit ω)) : Prop where
  total : amts vs + sizes (fillsOf vs) ≤ avail
  fills : ∀ v ∈ vs, ∀ e ∈ v.fills, 0 < e.size ∧ e.size ≤ v.simo.remains
  rests : ∀ before v after, vs = before ++ v :: after →
    avail - (amts before + sizes (fillsOf before)) - v.amt
      < v.simo.remains →
    v.left = some { v.simo with
      sizeAhead := v.simo.sizeAhead - v.amt
      remains := v.simo.remains - sizes v.fills }

/-- The execution stops in the queue ahead of the first order it looks at,
or is enough for all of them. -/
def Covers (avail : Nat) (os : List (SimOrder ω)) : Prop :=
  (∀ o, os.head? = some o → avail ≤ o.sizeAhead)
    ∨ ((∀ o ∈ os, 0 < o.remains)
      ∧ (os.map fun o => o.sizeAhead + o.remains).sum ≤ avail)

/-- Nothing is left for the orders: they stay as they are. -/
theorem visit_of_none {v : Visit ω} {c : OrderContainer ω}
    (hv : v ∈ execVisits check esi ref 0 c) :
    v.amt = 0 ∧ v.fills = [] ∧ v.left = some v.simo := by
  induction c with
  | nil => cases hv
  | cons x c ih =>
      obtain ⟨p, simo⟩ := x
      have hpast : pastQueue 0 simo = 0 := by simp [pastQueue]
      unfold execVisits at hv
      split at hv
      case isFalse => cases hv
      case isTrue =>
        rw [hpast, if_neg (not_not.mpr rfl)] at hv
        rcases List.mem_cons.mp hv with rfl | hv
        · simp
        · exact ih hv

/-- The visit fills its order whole. -/
def Filled (esi : Nat) (ref : Rat) (v : Visit ω) : Prop :=
  v.amt = v.simo.sizeAhead ∧ v.left = none
    ∧ ∃ n, n ≠ 0 ∧ v.fills = execFills v.simo.order esi ref n v.simo.remains

variable (check esi ref) in
/-- The size went to the sizes ahead, or every order was filled whole. -/
theorem visits_drained_or_filled (avail : Nat) (c : OrderContainer ω) :
    amts (execVisits check esi ref avail c) = avail
      ∨ ∀ v ∈ execVisits check esi ref avail c, Filled esi ref v := by
  induction c generalizing avail with
  | nil => exact .inr nofun
  | cons x c ih =>
      obtain ⟨p, simo⟩ := x
      unfold execVisits
      split
      case isFalse => exact .inr nofun
      case isTrue =>
        by_cases hpast : pastQueue avail simo = 0
        · -- it ends in the queue ahead of this one
          have hrest : amts (execVisits check esi ref 0 c) = 0 := by
            unfold amts
            refine List.sum_eq_zero fun n hn => ?_
            obtain ⟨v, hv, rfl⟩ := List.mem_map.mp hn
            exact (visit_of_none hv).1
          have hamt : min simo.sizeAhead avail = avail := by
            unfold pastQueue at hpast
            omega
          refine .inl ?_
          unfold amts at hrest ⊢
          simp [hpast, hrest, hamt]
        · have hamt : min simo.sizeAhead avail = simo.sizeAhead := by
            unfold pastQueue at hpast
            omega
          rcases ih (pastQueue avail simo) with hdrained | hfilled
          · refine .inl ?_
            unfold pastQueue at hpast hdrained ⊢
            unfold amts at hdrained ⊢
            simp [hpast, hdrained]
          · refine .inr fun v hv => ?_
            rw [if_pos hpast] at hv
            rcases List.mem_cons.mp hv with rfl | hv
            · exact ⟨hamt, rfl, _, hpast, rfl⟩
            · exact hfilled v hv

/-- A fill of an order takes something of it, and no more than all. -/
theorem execFills_bounds {w : ω} {n remains : Nat} (hn : n ≠ 0)
    (hpos : 0 < remains) {e : SimEvent ω}
    (he : e ∈ execFills w esi ref n remains) :
    0 < e.size ∧ e.size ≤ remains := by
  obtain ⟨hfills, hsum⟩ := execFills_spec w esi ref
    (Nat.pos_of_ne_zero hn) remains hpos
  obtain ⟨-, hstate, hsize⟩ := hfills e he
  refine ⟨hsize, ?_⟩
  have htakes : e.takes = e.size := if_pos (.inl hstate)
  have hle : e.takes ≤ sizes (execFills w esi ref n remains) :=
    List.le_sum_of_mem (List.mem_map_of_mem he)
  rw [hsum, htakes] at hle
  exact hle

/-- Visits that leave every order its size. -/
theorem conserves_of_unfilled {avail : Nat} {vs : List (Visit ω)}
    (hamts : amts vs ≤ avail)
    (h : ∀ v ∈ vs, v.fills = [] ∧ v.left = some { v.simo with
      sizeAhead := v.simo.sizeAhead - v.amt }) :
    Conserves avail vs := by
  have hnil : fillsOf vs = [] :=
    List.flatMap_eq_nil_iff.mpr fun v hv => (h v hv).1
  refine ⟨?_, ?_, ?_⟩
  · rw [hnil]
    exact hamts
  · intro v hv e he
    rw [(h v hv).1] at he
    cases he
  · rintro before v after rfl -
    obtain ⟨hfills, hleft⟩ := h v (by simp)
    rw [hleft, hfills]
    rfl

/-- What whole orders, and their queues, come to. -/
theorem total_of_filled {vs : List (Visit ω)}
    (h : ∀ v ∈ vs, Filled esi ref v) (hpos : ∀ v ∈ vs, 0 < v.simo.remains) :
    amts vs + sizes (fillsOf vs)
      = (vs.map fun v => v.simo.sizeAhead + v.simo.remains).sum := by
  induction vs with
  | nil => rfl
  | cons v vs ih =>
      obtain ⟨hamt, -, n, hn, hfills⟩ := h v List.mem_cons_self
      have hrest := ih (fun v' hv' => h v' (List.mem_cons_of_mem _ hv'))
        (fun v' hv' => hpos v' (List.mem_cons_of_mem _ hv'))
      have hsize := (execFills_spec v.simo.order esi ref
        (Nat.pos_of_ne_zero hn) v.simo.remains
        (hpos v List.mem_cons_self)).2
      unfold amts fillsOf at hrest ⊢
      rw [List.flatMap_cons, sizes_append, hfills, hsize, List.map_cons,
        List.sum_cons, List.map_cons, List.sum_cons, hamt]
      omega

/-- Visits that fill every order, when there is enough for them. -/
theorem conserves_of_filled {avail : Nat} {vs : List (Visit ω)}
    (h : ∀ v ∈ vs, Filled esi ref v) (hpos : ∀ v ∈ vs, 0 < v.simo.remains)
    (henough : (vs.map fun v => v.simo.sizeAhead + v.simo.remains).sum
      ≤ avail) :
    Conserves avail vs := by
  refine ⟨?_, ?_, ?_⟩
  · rw [total_of_filled h hpos]
    exact henough
  · intro v hv e he
    obtain ⟨-, -, n, hn, hfills⟩ := h v hv
    rw [hfills] at he
    exact execFills_bounds hn (hpos v hv) he
  · -- enough is left for every one of them
    rintro before v after rfl hshort
    have hbefore := total_of_filled
      (fun v' hv' => h v' (List.mem_append_left _ hv'))
      (fun v' hv' => hpos v' (List.mem_append_left _ hv'))
    have hamt := (h v (by simp)).1
    rw [List.map_append, List.sum_append, List.map_cons, List.sum_cons]
      at henough
    omega

/-- An order whose fills are positive has something to fill. -/
theorem remains_pos_of_fills {w : ω} {n remains : Nat}
    (h : ∀ e ∈ execFills w esi ref n remains,
      0 < e.size ∧ e.size ≤ remains) : 0 < remains := by
  have hmem : ∃ e, e ∈ execFills w esi ref n remains := by
    unfold execFills
    dsimp only
    split
    case isTrue => exact ⟨_, List.mem_cons_self⟩
    case isFalse => exact ⟨_, List.mem_cons_self⟩
  obtain ⟨e, he⟩ := hmem
  obtain ⟨hsize, hle⟩ := h e he
  exact Nat.lt_of_lt_of_le hsize hle

/-- Visits that conserve, and fill everything. -/
theorem covers_of_filled {avail : Nat} {c : OrderContainer ω}
    (hfilled : ∀ v ∈ execVisits check esi ref avail c, Filled esi ref v)
    (h : Conserves avail (execVisits check esi ref avail c)) :
    Covers avail (visited check c) := by
  obtain ⟨-, -, -, hvisited⟩ :=
    execCrossLoop_eq_visits check esi ref avail c
  have hpos : ∀ v ∈ execVisits check esi ref avail c,
      0 < v.simo.remains := by
    intro v hv
    obtain ⟨-, -, n, -, hfills⟩ := hfilled v hv
    exact remains_pos_of_fills fun e he => h.fills v hv e (hfills ▸ he)
  rw [← hvisited]
  refine .inr ⟨?_, ?_⟩
  · intro o ho
    obtain ⟨v, hv, rfl⟩ := List.mem_map.mp ho
    exact hpos v hv
  · have htotal := h.total
    rw [total_of_filled hfilled hpos] at htotal
    rw [List.map_map]
    exact htotal

/-- Visits that conserve come of an execution that covers its orders. -/
theorem covers_of_conserves {avail : Nat} {c : OrderContainer ω}
    (h : Conserves avail (execVisits check esi ref avail c)) :
    Covers avail (visited check c) := by
  rcases visits_drained_or_filled check esi ref avail c with hdrained | hfilled
  · -- nothing is left for fills, so the first order got none
    refine .inl fun o ho => ?_
    by_contra hlt
    have hpast : pastQueue avail o ≠ 0 := by
      unfold pastQueue
      omega
    obtain ⟨v, hv, hfills, rfl⟩ : ∃ v ∈ execVisits check esi ref avail c,
        v.fills = execFills v.simo.order esi ref (pastQueue avail v.simo)
          v.simo.remains ∧ v.simo = o := by
      cases c with
      | nil => cases ho
      | cons x c =>
          obtain ⟨p, simo⟩ := x
          unfold visited at ho
          rw [List.map_cons, List.takeWhile_cons] at ho
          split at ho
          case isFalse => cases ho
          case isTrue hcheck =>
            obtain rfl : simo = o := Option.some.inj ho
            unfold execVisits
            rw [if_pos hcheck, if_pos hpast]
            exact ⟨_, List.mem_cons_self, rfl, rfl⟩
    have hpos := remains_pos_of_fills fun e he =>
      h.fills v hv e (hfills ▸ he)
    have hsize := (execFills_spec v.simo.order esi ref
      (Nat.pos_of_ne_zero hpast) v.simo.remains hpos).2
    have hle : sizes v.fills
        ≤ sizes (fillsOf (execVisits check esi ref avail c)) := by
      obtain ⟨before, after, heq⟩ := List.append_of_mem hv
      rw [heq]
      simp only [fillsOf, List.flatMap_append, List.flatMap_cons,
        sizes_append]
      omega
    have htotal := h.total
    rw [hdrained] at htotal
    rw [hfills, hsize] at hle
    omega
  · exact covers_of_filled hfilled h

/-- The execution stops in the queue ahead of the first order. -/
theorem conserves_of_queue {avail : Nat} {c : OrderContainer ω}
    (h : ∀ o, (visited check c).head? = some o → avail ≤ o.sizeAhead) :
    Conserves avail (execVisits check esi ref avail c) := by
  obtain ⟨-, -, hamts, -⟩ :=
    execCrossLoop_eq_visits check esi ref avail c
  refine conserves_of_unfilled (by omega) fun v hv => ?_
  cases c with
  | nil => cases hv
  | cons x c =>
      obtain ⟨p, simo⟩ := x
      unfold execVisits at hv
      split at hv
      case isFalse => cases hv
      case isTrue hcheck =>
        have hle : avail ≤ simo.sizeAhead :=
          h simo (by simp [visited, hcheck])
        have hpast : pastQueue avail simo = 0 := by
          unfold pastQueue
          omega
        rw [hpast, if_neg (not_not.mpr rfl)] at hv
        rcases List.mem_cons.mp hv with rfl | hv
        · exact ⟨rfl, rfl⟩
        · obtain ⟨hamt, hfills, hleft⟩ := visit_of_none hv
          exact ⟨hfills, by rw [hleft, hamt, Nat.sub_zero]⟩

variable (esi ref) in
/-- An execution that is enough fills every order it looks at. -/
theorem filled_of_enough {avail : Nat} {c : OrderContainer ω}
    (hpos : ∀ o ∈ visited check c, 0 < o.remains)
    (henough : ((visited check c).map fun o =>
      o.sizeAhead + o.remains).sum ≤ avail) :
    ∀ v ∈ execVisits check esi ref avail c, Filled esi ref v := by
  induction c generalizing avail with
  | nil => nofun
  | cons x c ih =>
      obtain ⟨p, simo⟩ := x
      unfold execVisits
      split
      case isFalse => nofun
      case isTrue hcheck =>
        have hcons : visited check ((p, simo) :: c)
            = simo :: visited check c := by
          simp [visited, hcheck]
        rw [hcons] at hpos henough
        rw [List.map_cons, List.sum_cons] at henough
        have hsimo := hpos simo List.mem_cons_self
        have hamt : min simo.sizeAhead avail = simo.sizeAhead :=
          min_eq_left (by omega)
        have hpast : pastQueue avail simo = avail - simo.sizeAhead := by
          unfold pastQueue
          rw [hamt]
        have hrest := ih (fun o ho => hpos o (List.mem_cons_of_mem _ ho))
          (show _ ≤ avail - simo.sizeAhead by omega)
        have hne : avail - simo.sizeAhead ≠ 0 := by omega
        intro v hv
        rw [hpast, if_pos hne] at hv
        rcases List.mem_cons.mp hv with rfl | hv
        · exact ⟨hamt, rfl, _, hne, rfl⟩
        · exact hrest v hv

theorem conserves_iff_covers (avail : Nat) (c : OrderContainer ω) :
    Conserves avail (execVisits check esi ref avail c)
      ↔ Covers avail (visited check c) := by
  refine ⟨covers_of_conserves, ?_⟩
  rintro (hqueue | ⟨hpos, henough⟩)
  · exact conserves_of_queue hqueue
  · obtain ⟨-, -, -, hvisited⟩ :=
    execCrossLoop_eq_visits check esi ref avail c
    have hfilled := filled_of_enough esi ref hpos henough
    rw [← hvisited] at hpos henough
    rw [List.map_map] at henough
    exact conserves_of_filled hfilled
      (fun v hv => hpos v.simo (List.mem_map_of_mem hv)) henough

-- ================================================================ the result

/-- Where the loop ends, the book, the events and the size left are those
of the visits. -/
structure EndsWith (check : ω → Bool) (avail : Nat) (c : OrderContainer ω)
    (vs : List (Visit ω)) (s : ExecCross ω) : Prop where
  book : (s.passed ++ s.it).map Prod.snd
    = vs.filterMap Visit.left
      ++ (c.map Prod.snd).dropWhile fun o => check o.order
  events : s.events = fillsOf vs
  left : s.avail + amts vs = avail

/-- An execution ends, and shares out what was executed once, exactly if it
stops in the queue ahead of the first order it looks at or is enough for
all of them. -/
theorem exec_conserves_iff (check : ω → Bool) (esi : Nat) (ref : Rat)
    (avail : Nat) (c : OrderContainer ω) :
    (∃ s ∈ eval (execPass check esi ref) ⟨[], c, avail, []⟩,
      EndsWith check avail c (execVisits check esi ref avail c) s
        ∧ Conserves avail (execVisits check esi ref avail c))
      ↔ Covers avail (visited check c) := by
  constructor
  · rintro ⟨-, -, -, h⟩
    exact covers_of_conserves h
  · intro h
    obtain ⟨s, hs, hbook, hevents, hleft⟩ :=
      exec_ends check esi ref [] avail c []
    obtain ⟨hkept, hfills, hamts, -⟩ :=
      execCrossLoop_eq_visits check esi ref avail c
    refine ⟨s, hs, ⟨?_, ?_, ?_⟩, (conserves_iff_covers avail c).mpr h⟩
    · rw [hbook]
      exact hkept
    · rw [hevents]
      exact hfills
    · rw [hleft]
      exact hamts

/-- An execution of 100 shares against two orders of 100: both are
filled. -/
theorem execution_shared_out_twice :
    let c : OrderContainer Nat := [(10, ⟨0, 0, 0, 100⟩), (9, ⟨1, 0, 0, 100⟩)]
    let pass := execPass (fun _ : Nat => true) 0 9
    (∃ s ∈ eval pass ⟨[], c, 100, []⟩,
      s.events = [⟨.filled, 0, 0, 100, 9⟩, ⟨.filled, 1, 0, 100, 9⟩])
    ∧ ¬ ∃ s ∈ eval pass ⟨[], c, 100, []⟩,
      EndsWith (fun _ => true) 100 c (execVisits (fun _ => true) 0 9 100 c) s
        ∧ Conserves 100 (execVisits (fun _ => true) 0 9 100 c) := by
  intro c pass
  constructor
  · obtain ⟨s, hs, -, hevents, -⟩ := exec_ends (fun _ => true) 0 9 [] 100 c []
    refine ⟨s, hs, ?_⟩
    rw [hevents]
    simp [c, execCrossLoop, execFills]
  · rintro ⟨s, -, -, h⟩
    have htotal := h.total
    simp [c, execVisits, pastQueue, amts, fillsOf, execFills,
      SimEvent.takes] at htotal

end L2SimSession

end TradingEngine.OE
