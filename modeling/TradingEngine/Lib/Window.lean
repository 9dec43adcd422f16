/-
A sliding-window limiter: no more than `limit` requests within any window.

`since t` is where the window that ends at `t` begins. The limiter keeps a
queue of times; it drops from the front what is before the window of the
request at hand, and lets the request through if fewer than `limit` are
left. While requests come in order, the queue is exactly what was let
through within the last window (`Limiter.Inv`), so no window ever holds
more than `limit`, and a request the limiter itself turns away finds
`limit` of them.
-/
import TradingEngine.Lib.Run
import Mathlib.Order.Lattice
import Mathlib.Data.List.Basic
import Mathlib.Data.List.Pairwise

namespace TradingEngine.Lib

variable {α : Type*} [LinearOrder α]

/-- The times within the window that ends at `t`. -/
def window (since : α → α) (t : α) (ts : List α) : List α :=
  ts.filter fun u => since t ≤ u ∧ u ≤ t

/-- A request, which whatever else is asked of it may turn away. -/
structure Request (α : Type*) where
  time : α
  passes : Bool

structure Limiter (α : Type*) where
  queue : List α
  /-- Every time let through so far. -/
  admitted : List α

namespace Limiter

/-- What is left of the queue at a time. -/
def fresh (since : α → α) (l : Limiter α) (now : α) : List α :=
  l.queue.dropWhile (· < since now)

/-- One request. -/
def step (since : α → α) (limit : Nat) (l : Limiter α) (r : Request α) :
    Limiter α :=
  let q := l.fresh since r.time
  if q.length < limit ∧ r.passes then
    ⟨q ++ [r.time], l.admitted ++ [r.time]⟩
  else ⟨q, l.admitted⟩

/-- The limiter after requests up to the time `last`. -/
structure Inv (since : α → α) (limit : Nat) (l : Limiter α) (last : α) :
    Prop where
  sorted : l.admitted.Pairwise (· ≤ ·)
  le : ∀ u ∈ l.admitted, u ≤ last
  queue : l.queue = l.admitted.filter fun u => since last ≤ u
  bounded : ∀ t, (window since t l.admitted).length ≤ limit

theorem inv_init (since : α → α) (limit : Nat) (last : α) :
    Inv since limit ⟨[], []⟩ last :=
  ⟨.nil, nofun, rfl, fun _ => Nat.zero_le limit⟩

/-- In a sorted list, what is before a bound is at the front. -/
theorem dropWhile_eq_filter {b : α} {ts : List α}
    (h : ts.Pairwise (· ≤ ·)) :
    ts.dropWhile (· < b) = ts.filter fun u => b ≤ u := by
  induction ts with
  | nil => rfl
  | cons t ts ih =>
      obtain ⟨hle, hts⟩ := List.pairwise_cons.mp h
      by_cases ht : t < b
      · have hdrop : (t :: ts).dropWhile (· < b) = ts.dropWhile (· < b) :=
          List.dropWhile_cons_of_pos (by simpa using ht)
        rw [hdrop, List.filter_cons_of_neg (by simpa using ht), ih hts]
      · have hall : ∀ u ∈ t :: ts, decide (b ≤ u) = true := by
          intro u hu
          have htb : b ≤ t := not_lt.mp ht
          rcases List.mem_cons.mp hu with rfl | hu
          · exact decide_eq_true htb
          · exact decide_eq_true (le_trans htb (hle u hu))
        rw [List.dropWhile_cons_of_neg (by simpa using not_lt.mp ht),
          List.filter_eq_self.mpr hall]

section Steps

variable {since : α → α} {limit : Nat} {l : Limiter α} {last : α}

/-- What is left of the queue is what lies in the window. -/
theorem Inv.fresh_eq (h : l.Inv since limit last) (hmono : Monotone since)
    {now : α} (hnow : last ≤ now) :
    l.fresh since now = l.admitted.filter fun u => since now ≤ u := by
  unfold fresh
  rw [h.queue, dropWhile_eq_filter (h.sorted.filter _), List.filter_filter]
  refine List.filter_congr fun u _ => ?_
  by_cases hu : since now ≤ u
  · simp [hu, le_trans (hmono hnow) hu]
  · simp [hu]

theorem Inv.fresh_eq_window (h : l.Inv since limit last)
    (hmono : Monotone since) {now : α} (hnow : last ≤ now) :
    l.fresh since now = window since now l.admitted := by
  rw [h.fresh_eq hmono hnow]
  refine List.filter_congr fun u hu => ?_
  simp [le_trans (h.le u hu) hnow]

/-- A request in order keeps the invariant. -/
theorem Inv.step (h : l.Inv since limit last) (hmono : Monotone since)
    (hsince : ∀ t, since t ≤ t) {r : Request α} (hr : last ≤ r.time) :
    (l.step since limit r).Inv since limit r.time := by
  have hfresh := h.fresh_eq hmono hr
  have hle : ∀ u ∈ l.admitted, u ≤ r.time :=
    fun u hu => le_trans (h.le u hu) hr
  unfold Limiter.step
  dsimp only
  split
  case isFalse => exact ⟨h.sorted, hle, hfresh, h.bounded⟩
  case isTrue hadmit =>
    refine ⟨?_, ?_, ?_, fun t => ?_⟩
    · exact List.pairwise_append.mpr ⟨h.sorted, List.pairwise_singleton _ _,
        fun u hu v hv => by rw [List.mem_singleton.mp hv]; exact hle u hu⟩
    · intro u hu
      rcases List.mem_append.mp hu with hu | hu
      · exact hle u hu
      · rw [List.mem_singleton.mp hu]
    · rw [List.filter_append, ← hfresh]
      simp [hsince r.time]
    · show (window since t (l.admitted ++ [r.time])).length ≤ limit
      unfold window
      rw [List.filter_append, List.length_append]
      by_cases ht : since t ≤ r.time ∧ r.time ≤ t
      · -- the earlier ones of this window are in the queue
        have hsub : (l.admitted.filter fun u => since t ≤ u ∧ u ≤ t).length
            ≤ (l.fresh since r.time).length := by
          rw [hfresh]
          refine (List.monotone_filter_right _ fun u hu => ?_).length_le
          simp only [decide_eq_true_eq] at hu ⊢
          exact le_trans (hmono ht.2) hu.1
        have hone : ([r.time].filter fun u =>
            since t ≤ u ∧ u ≤ t).length ≤ 1 := List.length_filter_le ..
        omega
      · have hnone : ([r.time].filter fun u => since t ≤ u ∧ u ≤ t) = [] :=
          List.filter_cons_of_neg (by simpa using ht)
        rw [hnone]
        exact h.bounded t

/-- Requests in order, none after `b`. -/
theorem Inv.run (h : l.Inv since limit last) (hmono : Monotone since)
    (hsince : ∀ t, since t ≤ t) {rs : List (Request α)}
    (hsorted : rs.Pairwise fun r r' => r.time ≤ r'.time)
    (hlast : ∀ r ∈ rs, last ≤ r.time) {b : α} (hlb : last ≤ b)
    (hb : ∀ r ∈ rs, r.time ≤ b) :
    ∃ last' ≤ b,
      (Lib.run (Limiter.step since limit) l rs).Inv since limit last' := by
  induction rs generalizing l last with
  | nil => exact ⟨last, hlb, h⟩
  | cons r rs ih =>
      obtain ⟨hr, hrs⟩ := List.pairwise_cons.mp hsorted
      exact ih (h.step hmono hsince (hlast r List.mem_cons_self)) hrs hr
        (hb r List.mem_cons_self)
        fun r' hr' => hb r' (List.mem_cons_of_mem r hr')

end Steps

end Limiter

end TradingEngine.Lib
