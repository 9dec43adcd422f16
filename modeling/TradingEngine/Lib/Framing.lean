/-
Streams of frames, cut anywhere.

A frame says how long it is, near its front. `size bs` is the length of
the frame at the front of `bs`, once enough of it is there to tell.
`split size bs` takes frames from the front for as long as they are
complete: the loop of every receiver of such a stream.

# Independence of the cuts

A receiver keeps what `split` leaves over and puts it before the next
piece. If `size` never changes its mind (`Framing`), it does not matter
where the stream is cut: what is taken from two pieces is what `split`
takes from both at once (`split_append`), and from a stream that consists
of frames it takes exactly these (`split_flatten`).
-/
import TradingEngine.Lib.Run
import Mathlib.Data.List.Basic

namespace TradingEngine.Lib

variable {α : Type*}

-- =================================================================== split

/-- The loop, with a bound on its turns. -/
def splitWithin (size : List α → Option Nat) :
    Nat → List α → List (List α) × List α
  | 0, bs => ([], bs)
  | fuel + 1, bs =>
      match size bs with
      | none => ([], bs)
      | some n =>
          if n ≤ bs.length then
            let r := splitWithin size fuel (bs.drop n)
            (bs.take n :: r.1, r.2)
          else ([], bs)

/-- The complete frames at the front, and what is left over. -/
def split (size : List α → Option Nat) (bs : List α) :
    List (List α) × List α :=
  splitWithin size bs.length bs

/-- No empty frames. -/
def Positive (size : List α → Option Nat) : Prop :=
  ∀ bs n, size bs = some n → 0 < n

/-- What a size function has to keep: no empty frames, and more bytes do
not change the size. -/
structure Framing (size : List α → Option Nat) : Prop where
  pos : Positive size
  mono : ∀ bs n, size bs = some n → ∀ cs, size (bs ++ cs) = some n

/-- Exactly one frame. -/
def IsFrame (size : List α → Option Nat) (f : List α) : Prop :=
  size f = some f.length

instance (size : List α → Option Nat) (f : List α) :
    Decidable (IsFrame size f) :=
  inferInstanceAs (Decidable (size f = _))

/-- A stream that begins with `f` and shows a size shows that of `f`. -/
def Sized (size : List α → Option Nat) (f : List α) : Prop :=
  ∀ ds n, size (f ++ ds) = some n → n = f.length

/-- No complete frame at the front. -/
def Stuck (size : List α → Option Nat) (bs : List α) : Prop :=
  ∀ n, size bs = some n → bs.length < n

section Loop

variable {size : List α → Option Nat}

/-- Where no frame is told, nothing is taken. -/
theorem split_stuck {bs : List α} (h : Stuck size bs) :
    split size bs = ([], bs) := by
  unfold split
  cases hlen : bs.length with
  | zero => rfl
  | succ k =>
      unfold splitWithin
      cases hs : size bs with
      | none => rfl
      | some n =>
          have hlt := h n hs
          dsimp only
          rw [if_neg (by omega)]

/-- A turn for every element is enough. -/
theorem splitWithin_enough (hpos : Positive size) :
    ∀ (fuel : Nat) (bs : List α), bs.length ≤ fuel →
      splitWithin size fuel bs = split size bs := by
  intro fuel
  induction fuel using Nat.strongRecOn with
  | _ fuel ih =>
    intro bs hlen
    cases fuel with
    | zero =>
        obtain rfl := List.length_eq_zero_iff.mp (Nat.le_zero.mp hlen)
        rfl
    | succ fuel =>
        cases hbs : bs.length with
        | zero =>
            obtain rfl := List.length_eq_zero_iff.mp hbs
            unfold splitWithin
            cases hs : size [] with
            | none => rfl
            | some n =>
                have hn := hpos _ _ hs
                dsimp only
                rw [if_neg (by simp only [List.length_nil]; omega)]
                rfl
        | succ k =>
            unfold split
            rw [hbs]
            unfold splitWithin
            cases hs : size bs with
            | none => rfl
            | some n =>
                have hn := hpos _ _ hs
                have hdrop : (bs.drop n).length ≤ k := by
                  rw [List.length_drop]
                  omega
                dsimp only
                rw [ih fuel (by omega) _ (by omega), ih k (by omega) _ hdrop]

/-- One turn of the loop. -/
theorem split_take (hpos : Positive size)
    {bs : List α} {n : Nat} (hs : size bs = some n) (hn : n ≤ bs.length) :
    split size bs
      = (bs.take n :: (split size (bs.drop n)).1,
        (split size (bs.drop n)).2) := by
  have hn0 := hpos _ _ hs
  obtain ⟨k, hk⟩ : ∃ k, bs.length = k + 1 := ⟨bs.length - 1, by omega⟩
  have hdrop : (bs.drop n).length ≤ k := by
    rw [List.length_drop]
    omega
  conv_lhs => rw [split, hk]
  unfold splitWithin
  rw [hs]
  dsimp only
  rw [if_pos hn, splitWithin_enough hpos k _ hdrop]

/-- Either the loop is stuck, or it takes a frame. -/
theorem stuck_or_take (size : List α → Option Nat) (bs : List α) :
    Stuck size bs ∨ ∃ n, size bs = some n ∧ n ≤ bs.length := by
  cases hs : size bs with
  | none =>
      left
      intro n hn
      rw [hs] at hn
      cases hn
  | some n =>
      by_cases hn : n ≤ bs.length
      · exact .inr ⟨n, rfl, hn⟩
      · left
        intro m hm
        rw [hs] at hm
        cases hm
        omega

/-- Induction along the loop. -/
theorem split_induction (hpos : Positive size)
    {P : List α → Prop} (stuck : ∀ bs, Stuck size bs → P bs)
    (take : ∀ bs n, size bs = some n → n ≤ bs.length → P (bs.drop n) →
      P bs) (bs : List α) : P bs := by
  induction hlen : bs.length using Nat.strongRecOn generalizing bs
    with
  | _ k ih =>
    rcases stuck_or_take size bs with h | ⟨n, hs, hn⟩
    · exact stuck bs h
    · have hn0 := hpos _ _ hs
      refine take bs n hs hn (ih (bs.drop n).length ?_ _ rfl)
      rw [List.length_drop]
      omega

/-- Nothing is lost. -/
theorem split_join (hpos : Positive size) (bs : List α) :
    (split size bs).1.flatten ++ (split size bs).2 = bs := by
  induction bs using split_induction hpos with
  | stuck bs h => rw [split_stuck h]; rfl
  | take bs n hs hn ih =>
      rw [split_take hpos hs hn, List.flatten_cons, List.append_assoc, ih]
      exact List.take_append_drop n bs

/-- What is left over is stuck. -/
theorem stuck_split (hpos : Positive size) (bs : List α) :
    Stuck size (split size bs).2 := by
  induction bs using split_induction hpos with
  | stuck bs h => rw [split_stuck h]; exact h
  | take bs n hs hn ih => rw [split_take hpos hs hn]; exact ih

end Loop

-- ==================================================================== laws

namespace Framing

variable {size : List α → Option Nat} (hF : Framing size)

include hF

/-- Frames that are complete stay so, and what is left over is looked at
again with what comes next. -/
theorem split_append (bs cs : List α) :
    split size (bs ++ cs)
      = ((split size bs).1 ++ (split size ((split size bs).2 ++ cs)).1,
        (split size ((split size bs).2 ++ cs)).2) := by
  induction bs using split_induction hF.pos with
  | stuck bs h => rw [split_stuck h]; rfl
  | take bs n hs hn ih =>
      have hlen : n ≤ (bs ++ cs).length := by
        rw [List.length_append]
        omega
      rw [split_take hF.pos (hF.mono _ _ hs cs) hlen, split_take hF.pos hs hn,
        List.take_append_of_le_length hn, List.drop_append_of_le_length hn,
        ih]
      rfl

/-- A frame at the front is taken. -/
theorem split_frame_append {f : List α} (h : IsFrame size f)
    (bs : List α) :
    split size (f ++ bs) = (f :: (split size bs).1, (split size bs).2) := by
  have hlen : f.length ≤ (f ++ bs).length := by
    rw [List.length_append]
    omega
  rw [split_take hF.pos (hF.mono _ _ h bs) hlen, List.take_left,
    List.drop_left]

/-- Whole frames are taken, whatever follows them. -/
theorem split_flatten_append {fs : List (List α)}
    (h : ∀ f ∈ fs, IsFrame size f) (bs : List α) :
    split size (fs.flatten ++ bs)
      = (fs ++ (split size bs).1, (split size bs).2) := by
  induction fs with
  | nil => rfl
  | cons f fs ih =>
      rw [List.flatten_cons, List.append_assoc,
        hF.split_frame_append (h f List.mem_cons_self),
        ih fun g hg => h g (List.mem_cons_of_mem f hg)]
      rfl

/-- A stream of frames is split into these. -/
theorem split_flatten {fs : List (List α)} (h : ∀ f ∈ fs, IsFrame size f) :
    split size fs.flatten = (fs, []) := by
  have hall := hF.split_flatten_append h []
  have hnil : split size ([] : List α) = ([], []) := rfl
  rw [List.append_nil, hnil, List.append_nil] at hall
  exact hall

/-- What is left over is less than the frame it begins. -/
theorem stuck_cut {r cs : List α} {fs : List (List α)}
    (h : ∀ f ∈ fs, IsFrame size f) (hstuck : Stuck size r)
    (hcut : r ++ cs = fs.flatten) (hr : r ≠ []) :
    ∃ f rest, fs = f :: rest ∧ r.length < f.length ∧ r <+: f := by
  cases fs with
  | nil =>
      have hnil := List.append_eq_nil_iff.mp hcut
      exact absurd hnil.1 hr
  | cons f rest =>
      refine ⟨f, rest, rfl, ?_⟩
      have hf : IsFrame size f := h f List.mem_cons_self
      have hr' : r <+: f ++ rest.flatten := ⟨cs, hcut⟩
      have hlt : r.length < f.length := by
        by_contra hle
        obtain ⟨d, hd⟩ := List.prefix_of_prefix_length_le
          (List.prefix_append f rest.flatten) hr' (by omega)
        have hs := hF.mono _ _ hf d
        rw [hd] at hs
        exact absurd (hstuck _ hs) (by omega)
      exact ⟨hlt, List.prefix_of_prefix_length_le hr'
        (List.prefix_append f rest.flatten) (by omega)⟩

/-- A whole frame is told as such. -/
theorem sized {f : List α} (h : IsFrame size f) : Sized size f := by
  intro ds n hs
  rw [hF.mono _ _ h ds] at hs
  exact (Option.some.inj hs).symm

/-- A complete frame at the front of a stream of frames is the first. -/
theorem take_cut {fs : List (List α)} (h : ∀ f ∈ fs, Sized size f)
    {bs cs : List α} {n : Nat} (hs : size bs = some n)
    (hn : n ≤ bs.length) (hcut : bs ++ cs = fs.flatten) :
    ∃ rest, fs = bs.take n :: rest ∧ bs.drop n ++ cs = rest.flatten := by
  cases fs with
  | nil =>
      have hnil := List.append_eq_nil_iff.mp hcut
      have hpos := hF.pos _ _ hs
      rw [hnil.1, List.length_nil] at hn
      omega
  | cons f rest =>
      rw [List.flatten_cons] at hcut
      have hsize := hF.mono _ _ hs cs
      rw [hcut] at hsize
      obtain rfl := h f List.mem_cons_self _ _ hsize
      have htake := congrArg (List.take f.length) hcut
      have hdrop := congrArg (List.drop f.length) hcut
      rw [List.take_append_of_le_length hn, List.take_left] at htake
      rw [List.drop_append_of_le_length hn, List.drop_left] at hdrop
      exact ⟨rest, by rw [htake], hdrop⟩

/-- A stream of frames, cut somewhere: what is taken before the cut are
the first of them, and what is left over begins the others. -/
theorem split_cut {fs : List (List α)} (h : ∀ f ∈ fs, Sized size f)
    {bs cs : List α} (hcut : bs ++ cs = fs.flatten) :
    ∃ rest, fs = (split size bs).1 ++ rest
      ∧ (split size bs).2 ++ cs = rest.flatten := by
  induction bs using split_induction hF.pos generalizing fs with
  | stuck bs hstuck =>
      rw [split_stuck hstuck]
      exact ⟨fs, rfl, hcut⟩
  | take bs n hs hn ih =>
      obtain ⟨rest, rfl, hrest⟩ := hF.take_cut h hs hn hcut
      obtain ⟨rest', rfl, hrest'⟩ :=
        ih (fun f hf => h f (List.mem_cons_of_mem _ hf)) hrest
      rw [split_take hF.pos hs hn]
      exact ⟨rest', rfl, hrest'⟩

end Framing

-- ================================================================ receiver

/-- A receiver between two pieces: what is left over, and what has been
taken. -/
structure Receiver (α : Type*) where
  pending : List α
  frames : List (List α)

/-- Nothing received. -/
def Receiver.init : Receiver α := ⟨[], []⟩

/-- One piece. -/
def receive (size : List α → Option Nat) (r : Receiver α) (c : List α) :
    Receiver α :=
  let s := split size (r.pending ++ c)
  ⟨s.2, r.frames ++ s.1⟩

end TradingEngine.Lib
