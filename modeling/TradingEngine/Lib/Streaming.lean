/-
Streaming decoders: given some input and some room, a call takes a part of
the input and gives a part of the output.

What it may rely on, and what its caller may, is the relation `Reads`: in
this state, this input still gives this output. A correct decoder keeps it
whatever part it takes and gives (`Correct`), so it may hold output back,
or take input without giving anything. A machine that reads its input
element by element is one (`Transducer.correct_decode`).

# Transducers

A `Transducer` takes one element at a time and may give one. As a decoder it
goes on until its input or its room is used up, and says how many elements it
has taken. It is correct by an induction on the input (`decodes`). So
concrete decoders can be written down and run, while what is proved about
their callers is proved of any correct one.
-/
namespace TradingEngine.Lib.Streaming

universe u v w

variable {σ : Type u} {α : Type v} {β : Type w}

/-- What a call does: the next state, how much of the input was taken, what
was given, and a hint for the size of the next input, unless it failed. -/
structure Turn (σ : Type u) (β : Type w) where
  state : σ
  consumed : Nat
  given : List β
  hint : Option Nat

/-- A decoder, called with the room for its output and some input. -/
abbrev Decoder (σ : Type u) (α : Type v) (β : Type w) :=
  σ → Nat → List α → Turn σ β

/-- A decoder that is correct for what it reads: called with a beginning of
its input it does not fail, takes at most what is there, gives at most what
there is room for, and goes on with the rest. -/
structure Correct (decode : Decoder σ α β)
    (Reads : σ → List α → List β → Prop) : Prop where
  consumed_le : ∀ {d : σ} {src later : List α} {out : List β} (cap : Nat),
    Reads d (src ++ later) out → (decode d cap src).consumed ≤ src.length
  given_le : ∀ {d : σ} {src later : List α} {out : List β} (cap : Nat),
    Reads d (src ++ later) out → (decode d cap src).given.length ≤ cap
  succeeds : ∀ {d : σ} {src later : List α} {out : List β} (cap : Nat),
    Reads d (src ++ later) out → (decode d cap src).hint ≠ none
  step : ∀ {d : σ} {src later : List α} {out : List β} (cap : Nat),
    Reads d (src ++ later) out →
    ∃ todo, out = (decode d cap src).given ++ todo
      ∧ Reads (decode d cap src).state
        ((src ++ later).drop (decode d cap src).consumed) todo

-- =============================================================== transducers

/-- A machine that takes its input one by one, and gives at most one for
each. Its input may end in some states only. -/
structure Transducer (σ : Type u) (α : Type v) (β : Type w) where
  step : σ → α → Option (σ × Option β)
  hint : σ → Nat
  ended : σ → Bool

namespace Transducer

variable (m : Transducer σ α β)

/-- What it gives for all of an input. -/
def outputs (d : σ) : List α → Option (List β)
  | [] => if m.ended d then some [] else none
  | a :: as =>
      match m.step d a with
      | none => none
      | some r => (outputs r.1 as).map (r.2.toList ++ ·)

/-- A symbol that gives nothing. -/
theorem outputs_silent {m : Transducer σ α β} {d d' : σ} {a : α}
    (hstep : m.step d a = some (d', none)) (as : List α) :
    m.outputs d (a :: as) = m.outputs d' as := by
  rw [outputs, hstep]
  exact congrFun Option.map_id _

/-- A symbol that gives one. -/
theorem outputs_gives {m : Transducer σ α β} {d d' : σ} {a : α} {b : β}
    (hstep : m.step d a = some (d', some b)) (as : List α) :
    m.outputs d (a :: as) = (m.outputs d' as).map (b :: ·) := by
  rw [outputs, hstep]
  rfl

/-- As a decoder: it goes on as long as there is input, and room for what
that gives. -/
def decode (d : σ) (cap : Nat) : List α → Turn σ β
  | [] => ⟨d, 0, [], some (m.hint d)⟩
  | a :: as =>
      match m.step d a with
      | none => ⟨d, 0, [], none⟩
      | some (d', none) =>
          let t := decode d' cap as
          { t with consumed := t.consumed + 1 }
      | some (d', some b) =>
          match cap with
          | 0 => ⟨d, 0, [], some (m.hint d)⟩
          | cap + 1 =>
              let t := decode d' cap as
              { t with consumed := t.consumed + 1, given := b :: t.given }

/-- All that a call of it guarantees. -/
structure Decodes (d : σ) (cap : Nat) (src later : List α) (out : List β) :
    Prop where
  consumed_le : (m.decode d cap src).consumed ≤ src.length
  given_le : (m.decode d cap src).given.length ≤ cap
  succeeds : (m.decode d cap src).hint ≠ none
  step : ∃ todo, out = (m.decode d cap src).given ++ todo
    ∧ m.outputs (m.decode d cap src).state
      ((src ++ later).drop (m.decode d cap src).consumed) = some todo

variable {m}

/-- A call that takes nothing leaves all as it was. -/
theorem Decodes.of_idle {d : σ} {cap : Nat} {src later : List α}
    {out : List β} (hdecode : m.decode d cap src = ⟨d, 0, [], some (m.hint d)⟩)
    (h : m.outputs d (src ++ later) = some out) :
    m.Decodes d cap src later out := by
  refine ⟨?_, ?_, ?_, out, ?_⟩
  · rw [hdecode]
    exact Nat.zero_le _
  · rw [hdecode]
    exact Nat.zero_le _
  · rw [hdecode]
    exact Option.some_ne_none _
  · rw [hdecode]
    exact ⟨rfl, h⟩

/-- An element that gives nothing is taken before a call. -/
theorem Decodes.silent {d d' : σ} {cap : Nat} {a : α} {src later : List α}
    {out : List β} (hstep : m.step d a = some (d', none))
    (h : m.Decodes d' cap src later out) :
    m.Decodes d cap (a :: src) later out := by
  have hdecode : m.decode d cap (a :: src)
      = { m.decode d' cap src with
          consumed := (m.decode d' cap src).consumed + 1 } := by
    rw [decode, hstep]
  obtain ⟨hconsumed, hgiven, hhint, hrest⟩ := h
  refine ⟨?_, ?_, ?_, ?_⟩
  · rw [hdecode]
    exact Nat.succ_le_succ hconsumed
  · rw [hdecode]
    exact hgiven
  · rw [hdecode]
    exact hhint
  · rw [hdecode]
    exact hrest

/-- An element that gives something, and there is room for that. -/
theorem Decodes.gives {d d' : σ} {cap : Nat} {a : α} {b : β}
    {src later : List α} {out : List β}
    (hstep : m.step d a = some (d', some b))
    (h : m.Decodes d' cap src later out) :
    m.Decodes d (cap + 1) (a :: src) later (b :: out) := by
  have hdecode : m.decode d (cap + 1) (a :: src)
      = { m.decode d' cap src with
          consumed := (m.decode d' cap src).consumed + 1
          given := b :: (m.decode d' cap src).given } := by
    rw [decode, hstep]
  obtain ⟨hconsumed, hgiven, hhint, todo, hsplit, hgo⟩ := h
  refine ⟨?_, ?_, ?_, todo, ?_⟩
  · rw [hdecode]
    exact Nat.succ_le_succ hconsumed
  · rw [hdecode]
    exact Nat.succ_le_succ hgiven
  · rw [hdecode]
    exact hhint
  · rw [hdecode]
    exact ⟨congrArg (b :: ·) hsplit, hgo⟩

/-- A call keeps what it guarantees on any input that can be decoded, however
little room it is given. The induction is on what was put in. -/
theorem decodes {d : σ} {src later : List α} {out : List β} (cap : Nat)
    (h : m.outputs d (src ++ later) = some out) :
    m.Decodes d cap src later out := by
  induction src generalizing d cap out with
  | nil => exact .of_idle rfl h
  | cons a as ih =>
      cases hstep : m.step d a with
      | none =>
          rw [List.cons_append, outputs, hstep] at h
          cases h
      | some r =>
          obtain ⟨d', given⟩ := r
          cases given with
          | none =>
              rw [List.cons_append, outputs_silent hstep] at h
              exact (ih cap h).silent hstep
          | some b =>
              cases cap with
              | zero =>
                  have hidle : m.decode d 0 (a :: as)
                      = ⟨d, 0, [], some (m.hint d)⟩ := by
                    rw [decode, hstep]
                  exact .of_idle hidle h
              | succ cap =>
                  rw [List.cons_append, outputs_gives hstep] at h
                  obtain ⟨rest, hrest, rfl⟩ := Option.map_eq_some_iff.mp h
                  exact (ih cap hrest).gives hstep

/-- A machine that takes its input one by one is a correct decoder. -/
theorem correct_decode :
    Correct m.decode fun d src out => m.outputs d src = some out where
  consumed_le := fun cap h => (decodes cap h).consumed_le
  given_le := fun cap h => (decodes cap h).given_le
  succeeds := fun cap h => (decodes cap h).succeeds
  step := fun cap h => (decodes cap h).step

end Transducer

end TradingEngine.Lib.Streaming
