/-
Queues in a memory that is addressed modulo its size.

The places of a queue are counted on without end, and place `i` is kept at
`i % cap`. All there is to it is that two places less than `cap` apart are
never kept at the same index (`mod_ne_of_window`): what is stored behind
the end of a queue leaves the queue alone as long as both fit together.

# Rules

Reading back what was stored (`load_store`), storing behind what is there
(`load_store_append`), and moving all places by a capacity (`load_add_cap`)
are all that a ring buffer needs. The memory is a function on indices, of
which only those below the capacity are used.
-/
import Mathlib.Data.Nat.ModEq
import Mathlib.Logic.Function.Basic
import Mathlib.Tactic.Common

namespace TradingEngine.Lib.Ring

variable {β : Type*}

-- ================================================================== accesses

/-- The `n` elements from place `start` on. -/
def load (mem : Nat → β) (cap start n : Nat) : List β :=
  (List.range n).map fun i => mem ((start + i) % cap)

/-- The memory with elements put at place `start` and after. -/
def store (mem : Nat → β) (cap start : Nat) : List β → Nat → β
  | [] => mem
  | b :: bs => store (Function.update mem (start % cap) b) cap (start + 1) bs

theorem load_zero (mem : Nat → β) (cap start : Nat) :
    load mem cap start 0 = [] := rfl

theorem load_succ (mem : Nat → β) (cap start n : Nat) :
    load mem cap start (n + 1)
      = mem (start % cap) :: load mem cap (start + 1) n := by
  unfold load
  rw [List.range_succ_eq_map, List.map_cons, List.map_map, Nat.add_zero]
  refine congrArg _ (List.map_congr_left fun i _ => ?_)
  exact congrArg (fun j => mem (j % cap)) (Nat.add_right_comm start i 1)

/-- A queue is its beginning and the rest. -/
theorem load_add (mem : Nat → β) (cap start n m : Nat) :
    load mem cap start (n + m)
      = load mem cap start n ++ load mem cap (start + n) m := by
  induction n generalizing start with
  | zero => rw [Nat.zero_add, load_zero, List.nil_append, Nat.add_zero]
  | succ n ih =>
      rw [Nat.succ_add_eq_add_succ, Nat.add_succ, load_succ, load_succ, ih,
        List.cons_append, Nat.add_right_comm start 1 n, Nat.add_assoc]

/-- Places a whole turn apart are the same. -/
theorem load_add_cap (mem : Nat → β) (cap start n : Nat) :
    load mem cap (start + cap) n = load mem cap start n := by
  refine List.map_congr_left fun i _ => ?_
  rw [Nat.add_right_comm, Nat.add_mod_right]

-- =================================================================== windows

/-- Two places of one window are kept apart. -/
theorem mod_ne_of_window {cap i j : Nat} (hij : i < j) (hj : j < i + cap) :
    i % cap ≠ j % cap := by
  intro h
  have hzero := Nat.sub_mod_eq_zero_of_mod_eq h.symm
  rw [Nat.mod_eq_of_lt (by omega)] at hzero
  omega

/-- A store changes no other place of its window. -/
theorem store_apply_of_window {cap start : Nat} (bs : List β) {i : Nat}
    (hi : i < start) (hwindow : start + bs.length ≤ i + cap)
    (mem : Nat → β) : store mem cap start bs (i % cap) = mem (i % cap) := by
  induction bs generalizing start mem with
  | nil => rfl
  | cons b bs ih =>
      rw [List.length_cons] at hwindow
      rw [store, ih (by omega) (by omega),
        Function.update_of_ne (mod_ne_of_window hi (by omega))]

/-- What is before a store in its window stays. -/
theorem load_store_of_window {cap start first n : Nat} (bs : List β)
    (hn : first + n ≤ start) (hwindow : start + bs.length ≤ first + cap)
    (mem : Nat → β) :
    load (store mem cap start bs) cap first n = load mem cap first n := by
  refine List.map_congr_left fun i hi => ?_
  have hlt := List.mem_range.mp hi
  exact store_apply_of_window bs (by omega) (by omega) mem

/-- What is stored is loaded, if it fits. -/
theorem load_store {cap : Nat} {bs : List β} (hfits : bs.length ≤ cap)
    (mem : Nat → β) (start : Nat) :
    load (store mem cap start bs) cap start bs.length = bs := by
  induction bs generalizing start mem with
  | nil => rfl
  | cons b bs ih =>
      rw [List.length_cons] at hfits
      rw [List.length_cons, load_succ, store, ih (by omega),
        store_apply_of_window bs (Nat.lt_succ_self start) (by omega),
        Function.update_self]

-- ==================================================================== queues

/-- A store behind a queue appends to it. -/
theorem load_store_append {cap n : Nat} {bs : List β}
    (hfits : n + bs.length ≤ cap) (mem : Nat → β) (first : Nat) :
    load (store mem cap (first + n) bs) cap first (n + bs.length)
      = load mem cap first n ++ bs := by
  rw [load_add, load_store_of_window bs le_rfl (by omega),
    load_store (by omega)]

end TradingEngine.Lib.Ring
