/-
Regions handed out one after another, without gaps: what a counter does
that is only ever added to.

# Rules

`Tiles first es last` says that the extents follow each other from one place
to another. One more is put at the end (`Tiles.snoc`). They are within these
places (`Tiles.bounds`), apart from each other (`Tiles.pairwise`), cover
every place (`Tiles.exists_covers`), and their sizes add up to the distance
(`Tiles.sum`). Where only some of them are counted, the sum is the distance
exactly if all are (`sum_filter_eq_iff`).
-/
import TradingEngine.Lib.Bytes
import Mathlib.Algebra.GroupWithZero.Nat

namespace TradingEngine.Lib

namespace Extent

/-- The places of a region. -/
def Covers (e : Extent) (i : Nat) : Prop :=
  e.start ≤ i ∧ i < e.start + e.size

/-- Neither region has a place of the other. -/
def Apart (e e' : Extent) : Prop :=
  e.start + e.size ≤ e'.start ∨ e'.start + e'.size ≤ e.start

/-- The regions follow each other from the first place to the last. -/
def Tiles : Nat → List Extent → Nat → Prop
  | first, [], last => first = last
  | first, e :: es, last =>
      e.start = first ∧ Tiles (first + e.size) es last

/-- One more at the end. -/
theorem Tiles.snoc {first last : Nat} {es : List Extent}
    (h : Tiles first es last) (size : Nat) :
    Tiles first (es ++ [⟨last, size⟩]) (last + size) := by
  induction es generalizing first with
  | nil =>
      have heq : first = last := h
      exact ⟨heq.symm, by rw [heq]; rfl⟩
  | cons e es ih => exact ⟨h.1, ih h.2⟩

/-- What is handed out adds up. -/
theorem Tiles.sum {first last : Nat} {es : List Extent}
    (h : Tiles first es last) : last = first + (es.map size).sum := by
  induction es generalizing first with
  | nil => exact (show first = last from h).symm
  | cons e es ih =>
      rw [List.map_cons, List.sum_cons, ih h.2, Nat.add_assoc]

/-- None of them begins before the first or ends behind the last. -/
theorem Tiles.bounds {first last : Nat} {es : List Extent}
    (h : Tiles first es last) {e : Extent} (he : e ∈ es) :
    first ≤ e.start ∧ e.start + e.size ≤ last := by
  induction es generalizing first with
  | nil => cases he
  | cons e' es ih =>
      have hrest := h.2.sum
      cases he with
      | head => exact ⟨Nat.le_of_eq h.1.symm, by rw [h.1]; omega⟩
      | tail _ he =>
          have hbounds := ih h.2 he
          exact ⟨by omega, hbounds.2⟩

/-- No two regions overlap. -/
theorem Tiles.pairwise {first last : Nat} {es : List Extent}
    (h : Tiles first es last) : es.Pairwise Apart := by
  induction es generalizing first with
  | nil => exact .nil
  | cons e es ih =>
      refine .cons (fun e' he' => .inl ?_) (ih h.2)
      rw [h.1]
      exact (h.2.bounds he').1

/-- Every place between is in one of them. -/
theorem Tiles.exists_covers {first last : Nat} {es : List Extent}
    (h : Tiles first es last) {i : Nat} (hfirst : first ≤ i)
    (hlast : i < last) : ∃ e ∈ es, e.Covers i := by
  induction es generalizing first with
  | nil =>
      have heq : first = last := h
      omega
  | cons e es ih =>
      by_cases hi : i < first + e.size
      · have hstart := h.1
        exact ⟨e, List.mem_cons_self, by omega, by omega⟩
      · obtain ⟨e', he', hcovers⟩ := ih h.2 (Nat.le_of_not_lt hi)
        exact ⟨e', List.mem_cons_of_mem e he', hcovers⟩

/-- What the regions of some pieces hold is the pieces, one after the
other. -/
theorem Tiles.map_range' {α β : Type*} {region : α → Extent}
    (piece : α → List β) {data : Nat → β} {xs : List α} {first last : Nat}
    (h : Tiles first (xs.map region) last)
    (hsize : ∀ x ∈ xs, (region x).size = (piece x).length)
    (hdata : ∀ x ∈ xs, ∀ i (hi : i < (piece x).length),
      data ((region x).start + i) = (piece x)[i]) :
    (List.range' first (last - first)).map data = xs.flatMap piece := by
  induction xs generalizing first with
  | nil =>
      have heq : first = last := h
      rw [heq, Nat.sub_self]
      rfl
  | cons x xs ih =>
      obtain ⟨hstart, hrest⟩ := h
      have hx := hsize x List.mem_cons_self
      have hsum := hrest.sum
      have hsplit : last - first
          = (piece x).length + (last - (first + (region x).size)) := by
        omega
      rw [List.flatMap_cons, ← ih hrest
        (fun y hy => hsize y (List.mem_cons_of_mem x hy))
        (fun y hy => hdata y (List.mem_cons_of_mem x hy)), hsplit, hx,
        ← List.range'_append_1, List.map_append]
      refine congrArg (· ++ _) (List.ext_getElem ?_ fun i _ hi => ?_)
      · rw [List.length_map, List.length_range']
      · rw [List.getElem_map, List.getElem_range', Nat.one_mul,
          ← hdata x List.mem_cons_self i hi, hstart]

/-- Two extents are apart whichever comes first. -/
theorem Apart.symm {e e' : Extent} (h : Apart e e') : Apart e' e := Or.symm h

end Extent

-- ==================================================================== totals

section Total

variable {α : Type _} (p : α → Bool) (size : α → Nat)

/-- Some of them take no more than all. -/
theorem sum_filter_le (xs : List α) :
    ((xs.filter p).map size).sum ≤ (xs.map size).sum := by
  induction xs with
  | nil => exact Nat.le_refl _
  | cons x xs ih =>
      rw [List.filter_cons, List.map_cons, List.sum_cons]
      split
      · rw [List.map_cons, List.sum_cons]
        omega
      · omega

/-- Some of the sizes add up to all of them only if they are all there. -/
theorem sum_filter_eq_iff {xs : List α} (hpos : ∀ x ∈ xs, 0 < size x) :
    ((xs.filter p).map size).sum = (xs.map size).sum
      ↔ ∀ x ∈ xs, p x = true := by
  induction xs with
  | nil => exact iff_of_true rfl (List.forall_mem_nil _)
  | cons x xs ih =>
      have hx := hpos x List.mem_cons_self
      have hrest := ih fun y hy => hpos y (List.mem_cons_of_mem x hy)
      have hle := sum_filter_le p size xs
      rw [List.forall_mem_cons, ← hrest, List.filter_cons, List.map_cons,
        List.sum_cons]
      split
      case isTrue hp =>
        rw [List.map_cons, List.sum_cons, and_iff_right hp]
        omega
      case isFalse hp =>
        refine iff_of_false ?_ fun hboth => hp hboth.1
        omega

end Total

end TradingEngine.Lib
