/-
Messages numbered along channels, and a receiver that remembers of each
channel the last number it has seen.

The receiver's marks are all it needs to ask for the rest: what is above
them is what it has not seen, and after the first of these messages it is
the others.

# Rules

A channel is a key of a message, and its number is counted within the
channel. After the first message that is asked for has been taken, and its
channel's mark moved up, what is above the marks is what was behind it
(`above_mark`), so a receiver can be proved about message by message.
-/
import Mathlib.Data.List.Basic
import Mathlib.Logic.Function.Basic

namespace TradingEngine.Lib

variable {α κ : Type*} (chan : α → κ) (num : α → Nat)

/-- Along each channel the numbers increase. -/
def Sequenced (ms : List α) : Prop :=
  ms.Pairwise fun m m' => chan m = chan m' → num m < num m'

instance [DecidableEq κ] (ms : List α) :
    Decidable (Sequenced chan num ms) := by
  unfold Sequenced
  infer_instance

/-- The messages above the marks. -/
def above (mark : κ → Nat) (ms : List α) : List α :=
  ms.filter fun m => decide (mark (chan m) < num m)

variable {chan num}

theorem mem_above {mark : κ → Nat} {ms : List α} {m : α} :
    m ∈ above chan num mark ms ↔ m ∈ ms ∧ mark (chan m) < num m := by
  unfold above
  rw [List.mem_filter, decide_eq_true_iff]

variable [DecidableEq κ]

/-- Marking the first message leaves the others. -/
theorem above_mark {mark : κ → Nat} {ms rest : List α} {m : α}
    (hms : Sequenced chan num ms)
    (hfirst : above chan num mark ms = m :: rest) :
    above chan num (Function.update mark (chan m) (num m)) ms = rest := by
  let mark' := Function.update mark (chan m) (num m)
  have hmem : ∀ x ∈ m :: rest, mark (chan x) < num x := by
    intro x hx
    rw [← hfirst] at hx
    exact (mem_above.mp hx).2
  have hself : mark' (chan m) = num m := Function.update_self ..
  have hother : ∀ x, chan x ≠ chan m → mark' (chan x) = mark (chan x) :=
    fun x hx => Function.update_of_ne hx ..
  -- a mark only goes up
  have hup : ∀ x, mark' (chan x) < num x → mark (chan x) < num x := by
    intro x hx
    by_cases hc : chan x = chan m
    · have := hmem m List.mem_cons_self
      rw [hc, hself] at hx
      rw [hc]
      omega
    · rwa [hother x hc] at hx
  have hafter : ∀ x ∈ rest, mark' (chan x) < num x := by
    intro x hx
    have hpair : (m :: rest).Pairwise fun m m' =>
        chan m = chan m' → num m < num m' := by
      rw [← hfirst]
      exact hms.filter _
    by_cases hc : chan x = chan m
    · rw [hc, hself]
      exact (List.pairwise_cons.mp hpair).1 x hx hc.symm
    · rw [hother x hc]
      exact hmem x (List.mem_cons_of_mem m hx)
  calc above chan num mark' ms
      = above chan num mark' (above chan num mark ms) := by
        unfold above
        rw [List.filter_filter]
        refine List.filter_congr fun x _ => ?_
        by_cases hx : mark' (chan x) < num x
        · rw [decide_eq_true hx, decide_eq_true (hup x hx)]
          rfl
        · rw [decide_eq_false hx]
          rfl
    _ = above chan num mark' rest := by
        rw [hfirst]
        exact List.filter_cons_of_neg (by simp [hself])
    _ = rest := List.filter_eq_self.mpr fun x hx =>
        decide_eq_true (hafter x hx)

end TradingEngine.Lib
