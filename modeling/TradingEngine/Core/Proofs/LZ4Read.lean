/-
What one read of an LZ4 file does.

The reader goes on by what the decoder took only in a turn that also gave
something. A turn that takes without giving ends the read before that: what
it took is fed again by the next read. And the end of the file is where
the input ends: what a decoder still holds then is never asked for.

A decoder is anything that is correct (`Streaming.Correct`): it may take
without giving, as at a checksum, and give without taking, as when there was
no room before. So what it gives in a call is not what the bytes of that
call stand for, and all that can be said of a reader is what is still to
come: the rest of the content from the rest of the file (`Good.rest`). The
part of the content that no call has given is what the decoder withholds,
whether it has been fed for it or not.

A read is clean if neither of the two happens: `CleanRead` says it of the
calls of the decoder, that none takes in vain, and that nothing is withheld
when the input is at its end. The condition is on what the decoder does with
what it is fed, not on what the reads return.

The proof goes up in three steps. A turn at the head of the loop leaves the
reader good or stuck (`Good.turn`, `Good.stuck`). The loop is an induction on
the turns with what it has in its buffer (`readLoop_done`): every turn but
the last gives something, so a loop cannot run out of turns before it runs
out of room. A read is a loop or one of the two early returns
(`read_cases`). A reader that is stuck stays so: whatever is read next feeds
the decoder a byte that it took (`Stuck.refeeds`).
-/
import TradingEngine.Core.LZ4
import TradingEngine.Lib.Tiling

namespace TradingEngine.Core.LZ4

open Lib.Streaming (Correct Decoder)

-- ============================================================ what should be

namespace DecoderCall

/-- What the decoder was fed. -/
def input (c : DecoderCall) : Lib.Extent := ⟨c.start, c.fed⟩

/-- What it took of that. -/
def taken (c : DecoderCall) : Lib.Extent := ⟨c.start, c.consumed⟩

end DecoderCall

/-- No byte that the decoder took is fed to it again. -/
def NoRefeed (calls : List DecoderCall) : Prop :=
  calls.Pairwise fun c c' => ∀ i, c.taken.Covers i → ¬c'.input.Covers i

/-- All that calls gave. -/
def gave (calls : List DecoderCall) : List UInt8 :=
  (calls.map DecoderCall.given).flatten

/-- What of the content they have not given: the decoder still holds it, or
has not been fed for it. -/
def withheld (content : List UInt8) (calls : List DecoderCall) :
    List UInt8 :=
  content.drop (gave calls).length

/-- The calls of a read, after those before. A call that gives nothing
takes nothing either, or else it is the first and the decoder withholds
nothing any more; and a decoder that has taken the last of the input
withholds nothing at the end of the read. -/
structure CleanRead (file content : List UInt8)
    (before calls : List DecoderCall) : Prop where
  first : ∀ c ∈ calls.head?, c.given = [] → withheld content before = []
  later : ∀ c ∈ calls.tail, c.given = [] → c.consumed = 0
  lastByte : (∃ c ∈ calls, 0 < c.consumed
      ∧ c.start + c.consumed = file.length) →
    withheld content (before ++ calls) = []

instance (file content : List UInt8) (before calls : List DecoderCall) :
    Decidable (CleanRead file content before calls) :=
  decidable_of_iff
    ((∀ c ∈ calls.head?, c.given = [] → withheld content before = [])
      ∧ (∀ c ∈ calls.tail, c.given = [] → c.consumed = 0)
      ∧ ((∃ c ∈ calls, 0 < c.consumed
          ∧ c.start + c.consumed = file.length) →
        withheld content (before ++ calls) = []))
    ⟨fun h => ⟨h.1, h.2.1, h.2.2⟩, fun h => ⟨h.first, h.later, h.lastByte⟩⟩

namespace FileReader

variable {σ : Type}

/-- The calls that a read makes. -/
def callsOf (decode : Decoder σ UInt8 UInt8) (file : List UInt8)
    (r : FileReader σ) (maxlen : Nat) : List DecoderCall :=
  (r.read decode file maxlen).reader.calls.drop r.calls.length

-- ==================================================================== turns

/-- A reader that has returned `out`: the rest of the file still gives the
rest of the content, and nothing from the offset on was taken. -/
structure Good (Reads : σ → List UInt8 → List UInt8 → Prop)
    (file content : List UInt8) (r : FileReader σ) (out : List UInt8) :
    Prop where
  offset_le : r.compressedOffset ≤ file.length
  succeeds : r.nextFrameSize ≠ none
  rest : ∃ todo, content = out ++ todo
    ∧ Reads r.dctx (file.drop r.compressedOffset) todo
  taken_le : ∀ c ∈ r.calls, c.start + c.consumed ≤ r.compressedOffset
  noRefeed : NoRefeed r.calls
  gave : gave r.calls = out

/-- A reader whose decoder has taken something from the offset on. -/
structure Stuck (file : List UInt8) (r : FileReader σ) : Prop where
  offset_lt : r.compressedOffset < file.length
  succeeds : r.nextFrameSize ≠ none
  taken : ∃ c ∈ r.calls, c.start = r.compressedOffset ∧ 0 < c.consumed

theorem gave_append (cs cs' : List DecoderCall) :
    gave (cs ++ cs') = gave cs ++ gave cs' := by
  unfold gave
  rw [List.map_append, List.flatten_append]

/-- A correct decoder gives the content from its beginning, and withholds
nothing once it has given all of it. -/
theorem withheld_eq_nil_iff {content : List UInt8} {calls : List DecoderCall}
    (h : gave calls <+: content) :
    withheld content calls = [] ↔ gave calls = content := by
  unfold withheld
  rw [List.drop_eq_nil_iff]
  exact ⟨h.eq_of_length_le, fun heq => Nat.le_of_eq (by rw [heq])⟩

/-- Something is fed as long as there is something. -/
theorem feedSize_pos {r : FileReader σ} {file : List UInt8}
    (h : r.compressedOffset < file.length) : 0 < r.feedSize file := by
  unfold feedSize
  split
  · split <;> omega
  · omega

theorem feedSize_le (r : FileReader σ) (file : List UInt8) :
    r.feedSize file ≤ file.length - r.compressedOffset := by
  unfold feedSize
  split
  · split <;> omega
  · exact Nat.le_refl _

/-- The call at the head of the loop. -/
def turn (decode : Decoder σ UInt8 UInt8) (file : List UInt8)
    (r : FileReader σ) (room : Nat) : Lib.Streaming.Turn σ UInt8 :=
  decode r.dctx room
    (Lib.bytesAt file r.compressedOffset (r.feedSize file))

/-- That call, for the record. -/
def turnCall (decode : Decoder σ UInt8 UInt8) (file : List UInt8)
    (r : FileReader σ) (room : Nat) : DecoderCall :=
  ⟨r.compressedOffset, r.feedSize file, (r.turn decode file room).consumed,
    (r.turn decode file room).given⟩

/-- The reader after it, at its old offset. -/
def afterTurn (decode : Decoder σ UInt8 UInt8) (file : List UInt8)
    (r : FileReader σ) (room : Nat) : FileReader σ :=
  { r with
    dctx := (r.turn decode file room).state
    nextFrameSize := (r.turn decode file room).hint
    calls := r.calls ++ [r.turnCall decode file room] }

/-- And moved on by what the call took. -/
def advanced (decode : Decoder σ UInt8 UInt8) (file : List UInt8)
    (r : FileReader σ) (room : Nat) : FileReader σ :=
  { r.afterTurn decode file room with
    compressedOffset :=
      r.compressedOffset + (r.turn decode file room).consumed
    decompressedBytes :=
      r.decompressedBytes + (r.turn decode file room).given.length }

theorem gave_singleton (c : DecoderCall) : gave [c] = c.given := by
  unfold gave
  rw [List.map_cons, List.map_nil, List.flatten_cons, List.flatten_nil,
    List.append_nil]

/-- The loop, one turn. -/
theorem readLoop_succ (decode : Decoder σ UInt8 UInt8) (file : List UInt8)
    {maxlen : Nat} (turns : Nat) {r : FileReader σ} {out : List UInt8}
    (hroom : out.length < maxlen) :
    readLoop decode file maxlen (turns + 1) out r
      = let t := r.turn decode file (maxlen - out.length)
        let after := r.afterTurn decode file (maxlen - out.length)
        if t.hint = none then
          if (out ++ t.given).length > 0 then
            ⟨(out ++ t.given).length, out ++ t.given, after⟩
          else ⟨-1, [], after⟩
        else if t.given.length = 0 ∨ t.consumed = 0 then
          ⟨(out ++ t.given).length, out ++ t.given, after⟩
        else
          readLoop decode file maxlen turns (out ++ t.given)
            (r.advanced decode file (maxlen - out.length)) := by
  rw [readLoop, if_pos hroom]
  rfl

/-- A turn that fails ends the loop, and so does one that takes nothing or
gives nothing. -/
theorem readLoop_cases (decode : Decoder σ UInt8 UInt8) (file : List UInt8)
    {maxlen : Nat} (turns : Nat) {r : FileReader σ} {out : List UInt8}
    (hroom : out.length < maxlen) :
    (readLoop decode file maxlen (turns + 1) out r).reader
        = r.afterTurn decode file (maxlen - out.length)
    ∨ readLoop decode file maxlen (turns + 1) out r
        = readLoop decode file maxlen turns
          (out ++ (r.turn decode file (maxlen - out.length)).given)
          (r.advanced decode file (maxlen - out.length)) := by
  rw [readLoop_succ decode file turns hroom]
  dsimp only
  split
  · split
    · exact .inl rfl
    · exact .inl rfl
  · split
    · exact .inl rfl
    · exact .inr rfl

/-- As many turns as there is room are enough. -/
theorem readLoop_enough (decode : Decoder σ UInt8 UInt8) (file : List UInt8)
    {maxlen turns : Nat} {r : FileReader σ} {out : List UInt8}
    (h : maxlen ≤ out.length + turns) (more : Nat) :
    readLoop decode file maxlen (turns + more) out r
      = readLoop decode file maxlen turns out r := by
  induction turns generalizing r out with
  | zero =>
      cases more with
      | zero => rfl
      | succ more =>
          rw [Nat.zero_add]
          exact if_neg (show ¬out.length < maxlen by omega)
  | succ turns ih =>
      rw [Nat.add_right_comm]
      by_cases hroom : out.length < maxlen
      · rw [readLoop_succ decode file _ hroom,
          readLoop_succ decode file _ hroom]
        dsimp only
        split
        · rfl
        · split
          case isTrue => rfl
          case isFalse hgo =>
            rw [not_or] at hgo
            have hgives := Nat.pos_of_ne_zero hgo.1
            exact ih (by rw [List.length_append]; omega)
      · rw [readLoop, if_neg hroom, readLoop, if_neg hroom]

section Turn

variable {decode : Decoder σ UInt8 UInt8}
  {Reads : σ → List UInt8 → List UInt8 → Prop} {file content : List UInt8}
  {r : FileReader σ} {out : List UInt8}
  (h : Good Reads file content r out)

include h

/-- The call is fed nothing that was taken. -/
theorem Good.noRefeed_turn (room : Nat) :
    NoRefeed (r.afterTurn decode file room).calls := by
  refine List.pairwise_append.mpr ⟨h.noRefeed, List.pairwise_singleton _ _,
    fun c hc c' hc' i htaken hinput => ?_⟩
  have hle := h.taken_le c hc
  rw [List.mem_singleton.mp hc'] at hinput
  have hlow : r.compressedOffset ≤ i := hinput.1
  have hhigh : i < c.start + c.consumed := htaken.2
  omega

theorem Good.gave_turn (room : Nat) :
    LZ4.gave (r.afterTurn decode file room).calls
      = out ++ (r.turn decode file room).given := by
  unfold afterTurn
  rw [gave_append, h.gave, gave_singleton]
  rfl

variable (hcorrect : Correct decode Reads)

include hcorrect

/-- A call from a good reader does not fail, takes what is there, gives
what there is room for, and goes on with the content. -/
theorem Good.turn_facts (room : Nat) :
    (r.turn decode file room).consumed ≤ file.length - r.compressedOffset
    ∧ (r.turn decode file room).given.length ≤ room
    ∧ (r.turn decode file room).hint ≠ none
    ∧ ∃ todo, content = out ++ (r.turn decode file room).given ++ todo
      ∧ Reads (r.turn decode file room).state
        (file.drop (r.compressedOffset
          + (r.turn decode file room).consumed)) todo := by
  obtain ⟨todo, hcontent, hreads⟩ := h.rest
  have hle := r.feedSize_le file
  have hsplit : file.drop r.compressedOffset
      = Lib.bytesAt file r.compressedOffset (r.feedSize file)
        ++ (file.drop r.compressedOffset).drop (r.feedSize file) :=
    (List.take_append_drop _ _).symm
  rw [hsplit] at hreads
  have hlength : (Lib.bytesAt file r.compressedOffset
      (r.feedSize file)).length ≤ file.length - r.compressedOffset := by
    unfold Lib.bytesAt
    rw [List.length_take, List.length_drop]
    omega
  obtain ⟨rest, hgiven, hrest⟩ := hcorrect.step room hreads
  rw [← hsplit, List.drop_drop] at hrest
  refine ⟨Nat.le_trans (hcorrect.consumed_le room hreads) hlength,
    hcorrect.given_le room hreads, hcorrect.succeeds room hreads, rest, ?_,
    hrest⟩
  rw [hcontent, List.append_assoc]
  exact congrArg (out ++ ·) hgiven

/-- The reader after a call, moved on by what the call took. -/
theorem Good.turn (room : Nat) {next : FileReader σ}
    (hdctx : next.dctx = (r.turn decode file room).state)
    (hhint : next.nextFrameSize = (r.turn decode file room).hint)
    (hcalls : next.calls = (r.afterTurn decode file room).calls)
    (hoffset : next.compressedOffset
      = r.compressedOffset + (r.turn decode file room).consumed) :
    Good Reads file content next
      (out ++ (r.turn decode file room).given) := by
  obtain ⟨hconsumed, -, hsucceeds, todo, hcontent, hreads⟩ :=
    h.turn_facts hcorrect room
  have hle := h.offset_le
  refine ⟨by omega, by rwa [hhint], ⟨todo, hcontent, ?_⟩, ?_, ?_, ?_⟩
  · rw [hdctx, hoffset]
    exact hreads
  · intro c hc
    rw [hcalls] at hc
    rw [hoffset]
    obtain hc | hc := List.mem_append.mp hc
    · exact Nat.le_trans (h.taken_le c hc) (Nat.le_add_right _ _)
    · rw [List.mem_singleton.mp hc]
      exact Nat.le_refl _
  · rw [hcalls]
    exact h.noRefeed_turn room
  · rw [hcalls]
    exact h.gave_turn room

/-- A call that takes without giving leaves the reader stuck. -/
theorem Good.stuck (room : Nat)
    (htakes : 0 < (r.turn decode file room).consumed) :
    Stuck file (r.afterTurn decode file room) := by
  obtain ⟨hconsumed, -, hsucceeds, -⟩ := h.turn_facts hcorrect room
  refine ⟨?_, hsucceeds, ?_⟩
  · show r.compressedOffset < file.length
    omega
  · exact ⟨_, List.mem_append_right _ List.mem_cons_self, rfl, htakes⟩

end Turn

-- ===================================================================== a loop

/-- What a loop with `out` in its buffer has done: it gave `new`, in some
calls; one that gave nothing was its last. The reader is as good as before,
and no call of it took something without giving; or its last call did, and
it is stuck. -/
structure LoopDone (Reads : σ → List UInt8 → List UInt8 → Prop)
    (file content : List UInt8) (r : FileReader σ)
    (returned out new : List UInt8) (calls : List DecoderCall)
    (res : ReadResult σ) : Prop where
  ret : res.ret = (out ++ new).length
  bytes : res.bytes = out ++ new
  calls_eq : res.reader.calls = r.calls ++ calls
  gave : gave calls = new
  first : ∀ c ∈ calls.head?, c.given = [] → calls = [c]
  outcome :
    (Good Reads file content res.reader (returned ++ (out ++ new))
      ∧ (∀ c ∈ calls, c.given = [] → c.consumed = 0)
      ∧ (res.reader.compressedOffset = r.compressedOffset
        ∨ ∃ c ∈ calls, 0 < c.consumed
          ∧ c.start + c.consumed = res.reader.compressedOffset))
    ∨ Stuck file res.reader ∧ NoRefeed res.reader.calls
      ∧ ∃ init last, calls = init ++ [last] ∧ last.given = []
        ∧ 0 < last.consumed

section Loop

variable {decode : Decoder σ UInt8 UInt8}
  {Reads : σ → List UInt8 → List UInt8 → Prop}
  (hcorrect : Correct decode Reads) {file content returned : List UInt8}

/-- A loop that does not turn. -/
theorem LoopDone.stop {r : FileReader σ} {out : List UInt8}
    (h : Good Reads file content r (returned ++ out)) :
    LoopDone Reads file content r returned out [] [] ⟨out.length, out, r⟩ := by
  refine ⟨by rw [List.append_nil], (List.append_nil _).symm,
    (List.append_nil _).symm, rfl, (fun c hc => by cases hc),
    .inl ⟨?_, List.forall_mem_nil _, .inl rfl⟩⟩
  rwa [List.append_nil]

/-- A turn that takes and gives, and the loop after it. -/
theorem LoopDone.cons {r : FileReader σ} {out new : List UInt8}
    {calls : List DecoderCall} {res : ReadResult σ} (room : Nat)
    (hgives : (r.turn decode file room).given.length ≠ 0)
    (htakes : (r.turn decode file room).consumed ≠ 0)
    (hrest : LoopDone Reads file content (r.advanced decode file room)
      returned (out ++ (r.turn decode file room).given) new calls res) :
    LoopDone Reads file content r returned out
      ((r.turn decode file room).given ++ new)
      (r.turnCall decode file room :: calls) res := by
  have hassoc := List.append_assoc out (r.turn decode file room).given new
  refine ⟨by rw [hrest.ret, hassoc], by rw [hrest.bytes, hassoc], ?_, ?_, ?_,
    ?_⟩
  · rw [hrest.calls_eq]
    exact List.append_assoc _ [_] _
  · show LZ4.gave ([r.turnCall decode file room] ++ calls) = _
    rw [gave_append, gave_singleton, hrest.gave]
    rfl
  · intro c hc hempty
    cases hc
    exact absurd (congrArg List.length hempty) hgives
  obtain ⟨hgood, hidle, hoffset⟩ | ⟨hstuck, hfed, init, last, hcalls, hlast⟩ :=
    hrest.outcome
  · refine .inl ⟨hassoc ▸ hgood, ?_, .inr ?_⟩
    · intro c hc hempty
      obtain rfl | hc := List.mem_cons.mp hc
      · exact absurd (congrArg List.length hempty) hgives
      · exact hidle c hc hempty
    · obtain hsame | ⟨c, hc, htook⟩ := hoffset
      · exact ⟨_, List.mem_cons_self, Nat.pos_of_ne_zero htakes, hsame.symm⟩
      · exact ⟨c, List.mem_cons_of_mem _ hc, htook⟩
  · exact .inr ⟨hstuck, hfed, _ :: init, last, by rw [hcalls]; rfl, hlast⟩

include hcorrect

/-- A turn that takes nothing, or gives nothing, is the last. -/
theorem LoopDone.last {r : FileReader σ} {out : List UInt8}
    (h : Good Reads file content r (returned ++ out)) (room : Nat)
    (hstop : (r.turn decode file room).given.length = 0
      ∨ (r.turn decode file room).consumed = 0) :
    LoopDone Reads file content r returned out
      (r.turn decode file room).given [r.turnCall decode file room]
      ⟨(out ++ (r.turn decode file room).given).length,
        out ++ (r.turn decode file room).given,
        r.afterTurn decode file room⟩ := by
  refine ⟨rfl, rfl, rfl, gave_singleton _, ?_, ?_⟩
  · intro c hc _
    cases hc
    rfl
  by_cases htakes : (r.turn decode file room).consumed = 0
  · refine .inl ⟨?_, ?_, .inl rfl⟩
    · rw [← List.append_assoc]
      refine h.turn hcorrect room rfl rfl rfl ?_
      rw [htakes]
      rfl
    · intro c hc _
      rw [List.mem_singleton.mp hc]
      exact htakes
  · refine .inr ⟨h.stuck hcorrect room (Nat.pos_of_ne_zero htakes),
      h.noRefeed_turn room, [], _, rfl, ?_, Nat.pos_of_ne_zero htakes⟩
    exact List.length_eq_zero_iff.mp (hstop.resolve_right htakes)

theorem readLoop_done {maxlen turns : Nat} {r : FileReader σ}
    {out : List UInt8} (h : Good Reads file content r (returned ++ out)) :
    ∃ new calls, LoopDone Reads file content r returned out new calls
        (readLoop decode file maxlen turns out r)
      ∧ (out.length < maxlen → 0 < turns → calls ≠ []) := by
  induction turns generalizing r out with
  | zero => exact ⟨[], [], .stop h, fun _ hturns => absurd hturns (by omega)⟩
  | succ turns ih =>
      by_cases hroom : out.length < maxlen
      · rw [readLoop_succ decode file turns hroom]
        dsimp only
        rw [if_neg (h.turn_facts hcorrect _).2.2.1]
        split
        case isTrue hstop =>
          exact ⟨_, _, .last hcorrect h _ hstop,
            fun _ _ => List.cons_ne_nil _ _⟩
        case isFalse hgo =>
          rw [not_or] at hgo
          have hnext : Good Reads file content
              (r.advanced decode file (maxlen - out.length)) _ :=
            h.turn hcorrect (maxlen - out.length) rfl rfl rfl rfl
          rw [List.append_assoc] at hnext
          obtain ⟨new, calls, hdone, -⟩ := ih hnext
          exact ⟨_, _, .cons _ hgo.1 hgo.2 hdone,
            fun _ _ => List.cons_ne_nil _ _⟩
      · refine ⟨[], [], ?_, fun hroom' => absurd hroom' hroom⟩
        rw [readLoop, if_neg hroom]
        exact .stop h

end Loop

-- ================================================================ what is fed

section Fed

variable (decode : Decoder σ UInt8 UInt8) (file : List UInt8)

/-- A loop only adds to the calls. -/
theorem readLoop_calls (maxlen turns : Nat) (out : List UInt8)
    (r : FileReader σ) :
    r.calls <+: (readLoop decode file maxlen turns out r).reader.calls := by
  induction turns generalizing out r with
  | zero => exact List.prefix_rfl
  | succ turns ih =>
      by_cases hroom : out.length < maxlen
      · obtain hlast | hgo := readLoop_cases decode file turns (r := r) hroom
        · rw [hlast]
          exact List.prefix_append _ _
        · rw [hgo]
          have hlater :=
            ih (out ++ (r.turn decode file (maxlen - out.length)).given)
              (r.advanced decode file (maxlen - out.length))
          exact (List.prefix_append r.calls _).trans hlater
      · have hstop : readLoop decode file maxlen (turns + 1) out r
            = ⟨out.length, out, r⟩ := if_neg hroom
        exact hstop ▸ List.prefix_rfl

theorem read_calls (r : FileReader σ) (maxlen : Nat) :
    r.calls <+: (r.read decode file maxlen).reader.calls := by
  unfold read
  split
  · exact List.prefix_rfl
  · split
    · exact List.prefix_rfl
    · exact readLoop_calls decode file maxlen maxlen [] r

/-- A read below the end feeds the decoder from the offset on. -/
theorem read_feeds {r : FileReader σ} {maxlen : Nat}
    (hlt : r.compressedOffset < file.length) (hhint : r.nextFrameSize ≠ none)
    (hpos : 0 < maxlen) :
    (r.afterTurn decode file maxlen).calls
      <+: (r.read decode file maxlen).reader.calls := by
  unfold read
  rw [if_neg (Nat.not_le_of_lt hlt), if_neg hhint]
  cases maxlen with
  | zero => exact absurd hpos (Nat.lt_irrefl 0)
  | succ turns =>
      obtain hlast | hgo :=
        readLoop_cases decode file turns (r := r)
          (show [].length < _ from hpos)
      · rw [hlast]
        exact List.prefix_rfl
      · rw [hgo]
        exact readLoop_calls decode file _ _ _
          (r.advanced decode file (turns + 1))

/-- A stuck reader feeds the decoder a byte that it took. -/
theorem Stuck.refeeds {r : FileReader σ} (h : Stuck file r) {maxlen : Nat}
    (hpos : 0 < maxlen) :
    ¬NoRefeed (r.read decode file maxlen).reader.calls := by
  intro hfed
  obtain ⟨more, hmore⟩ :=
    read_feeds decode file h.offset_lt h.succeeds hpos
  obtain ⟨c, hc, hstart, htook⟩ := h.taken
  have hapart := hfed.sublist (hmore ▸ List.sublist_append_left _ more)
  refine (List.pairwise_append.mp hapart).2.2 c hc _ List.mem_cons_self
    r.compressedOffset ⟨Nat.le_of_eq hstart, ?_⟩ ⟨Nat.le_refl _, ?_⟩
  · show r.compressedOffset < c.start + c.consumed
    omega
  · exact Nat.lt_add_of_pos_right (feedSize_pos h.offset_lt)

end Fed

-- ==================================================================== reads

/-- What a read has done. It returned zero; or the reader is as good as
before; or it is stuck. -/
inductive ReadDone (decode : Decoder σ UInt8 UInt8)
    (Reads : σ → List UInt8 → List UInt8 → Prop) (file content : List UInt8)
    (r : FileReader σ) (returned : List UInt8) (maxlen : Nat) : Prop
  | ended (hret : (r.read decode file maxlen).ret = 0)
      (hbytes : (r.read decode file maxlen).bytes = [])
      (hfed : NoRefeed (r.read decode file maxlen).reader.calls)
      (hclean : CleanRead file content r.calls (r.callsOf decode file maxlen)
        ↔ returned = content)
  | went (hret : (r.read decode file maxlen).ret ≠ 0)
      (hbytes : (r.read decode file maxlen).bytes ≠ [])
      (hgood : Good Reads file content (r.read decode file maxlen).reader
        (returned ++ (r.read decode file maxlen).bytes))
      (hclean : CleanRead file content r.calls (r.callsOf decode file maxlen)
        ↔ ((r.read decode file maxlen).reader.compressedOffset = file.length →
          returned ++ (r.read decode file maxlen).bytes = content))
  | stuck (hret : (r.read decode file maxlen).ret ≠ 0)
      (hstuck : Stuck file (r.read decode file maxlen).reader)
      (hclean : ¬CleanRead file content r.calls
        (r.callsOf decode file maxlen))

section Reads

variable {decode : Decoder σ UInt8 UInt8}
  {Reads : σ → List UInt8 → List UInt8 → Prop}
  {file content returned new : List UInt8} {r : FileReader σ}
  {calls : List DecoderCall} {res : ReadResult σ}

/-- A read that gives nothing is clean at the end of the content only. -/
theorem LoopDone.clean_of_nothing
    (h : LoopDone Reads file content r returned [] new calls res)
    (hgood : Good Reads file content r returned) (hne : calls ≠ [])
    (hnew : new = []) :
    CleanRead file content r.calls calls ↔ returned = content := by
  obtain ⟨c, cs, rfl⟩ := List.exists_cons_of_ne_nil hne
  obtain ⟨todo, hsplit, -⟩ := hgood.rest
  have hprefix : LZ4.gave r.calls <+: content :=
    hgood.gave.symm ▸ ⟨todo, hsplit.symm⟩
  have hall : LZ4.gave (r.calls ++ c :: cs) = LZ4.gave r.calls := by
    rw [gave_append, h.gave, hnew, List.append_nil]
  have hempty : c.given = [] := by
    have hnone := h.gave
    rw [hnew, ← List.singleton_append, gave_append, gave_singleton] at hnone
    exact (List.append_eq_nil_iff.mp hnone).1
  have hiff : withheld content r.calls = [] ↔ returned = content := by
    rw [withheld_eq_nil_iff hprefix, hgood.gave]
  constructor
  · intro hclean
    exact hiff.mp (hclean.first c rfl hempty)
  · intro hcontent
    refine ⟨fun _ _ _ => hiff.mpr hcontent, ?_, fun _ => ?_⟩
    · rw [h.first c rfl hempty]
      exact List.forall_mem_nil _
    · rw [withheld, hall]
      exact hiff.mpr hcontent

/-- A read that leaves the reader good is clean if it does not lose the
last of the content. -/
theorem LoopDone.clean_of_good
    (h : LoopDone Reads file content r returned [] new calls res)
    (hgave : LZ4.gave r.calls = returned)
    (hlt : r.compressedOffset < file.length) (hnew : new ≠ [])
    (hgood : Good Reads file content res.reader (returned ++ new))
    (hidle : ∀ c ∈ calls, c.given = [] → c.consumed = 0)
    (hoffset : res.reader.compressedOffset = r.compressedOffset
      ∨ ∃ c ∈ calls, 0 < c.consumed
        ∧ c.start + c.consumed = res.reader.compressedOffset) :
    CleanRead file content r.calls calls
      ↔ (res.reader.compressedOffset = file.length →
        returned ++ new = content) := by
  have hall : LZ4.gave (r.calls ++ calls) = returned ++ new := by
    rw [gave_append, h.gave, hgave]
  obtain ⟨todo, hsplit, -⟩ := hgood.rest
  have hiff : withheld content (r.calls ++ calls) = []
      ↔ returned ++ new = content := by
    rw [withheld_eq_nil_iff (hall.symm ▸ ⟨todo, hsplit.symm⟩), hall]
  constructor
  · intro hclean hend
    apply hiff.mp
    apply hclean.lastByte
    rw [← hend]
    exact hoffset.resolve_left (by omega)
  · intro hlast
    refine ⟨?_, fun c hc => hidle c (List.mem_of_mem_tail hc), ?_⟩
    · intro c hc hempty
      refine absurd ?_ hnew
      rw [← h.gave, h.first c hc hempty, gave_singleton]
      exact hempty
    · intro htaken
      obtain ⟨c, hc, -, htook⟩ := htaken
      have hle := hgood.taken_le c
        (h.calls_eq ▸ List.mem_append_right _ hc)
      have hend := hgood.offset_le
      exact hiff.mpr (hlast (by omega))

/-- A read that leaves the reader stuck, and gave something, is not. -/
theorem LoopDone.not_clean
    (h : LoopDone Reads file content r returned [] new calls res)
    (hnew : new ≠ []) {init : List DecoderCall} {last : DecoderCall}
    (hcalls : calls = init ++ [last]) (hempty : last.given = [])
    (htook : 0 < last.consumed) : ¬CleanRead file content r.calls calls := by
  intro hclean
  cases init with
  | nil =>
      refine hnew ?_
      rw [← h.gave, hcalls, List.nil_append, gave_singleton]
      exact hempty
  | cons c init =>
      have hmem : last ∈ calls.tail := by
        rw [hcalls]
        exact List.mem_append_right _ List.mem_cons_self
      rw [hclean.later last hmem hempty] at htook
      exact Nat.lt_irrefl 0 htook

variable (hcorrect : Correct decode Reads)
  (h : Good Reads file content r returned)

include hcorrect h

/-- A read below the end of the file. -/
theorem read_done {maxlen : Nat} (hlt : r.compressedOffset < file.length)
    (hpos : 0 < maxlen) :
    r.callsOf decode file maxlen ≠ []
    ∧ LoopDone Reads file content r returned []
      (r.read decode file maxlen).bytes (r.callsOf decode file maxlen)
      (r.read decode file maxlen) := by
  have hread : r.read decode file maxlen
      = readLoop decode file maxlen maxlen [] r := by
    unfold read
    rw [if_neg (Nat.not_le_of_lt hlt), if_neg h.succeeds]
  obtain ⟨new, calls, hdone, hne⟩ :
      ∃ new calls, LoopDone Reads file content r returned [] new calls
          (readLoop decode file maxlen maxlen [] r)
        ∧ ([].length < maxlen → 0 < maxlen → calls ≠ []) :=
    readLoop_done hcorrect ((List.append_nil returned).symm ▸ h)
  have hcallsOf : r.callsOf decode file maxlen = calls := by
    unfold callsOf
    rw [hread, hdone.calls_eq, List.drop_left]
  have hbytes : (r.read decode file maxlen).bytes = new := by
    rw [hread, hdone.bytes, List.nil_append]
  rw [hcallsOf, hbytes, hread]
  exact ⟨hne hpos hpos, hdone⟩

/-- All that a read can do. -/
theorem read_cases {maxlen : Nat} (hpos : 0 < maxlen)
    (hend : r.compressedOffset = file.length → returned = content) :
    ReadDone decode Reads file content r returned maxlen := by
  by_cases hlt : r.compressedOffset < file.length
  · obtain ⟨hne, hdone⟩ := read_done hcorrect h hlt hpos
    have hret : (r.read decode file maxlen).ret
        = (r.read decode file maxlen).bytes.length := hdone.ret
    obtain ⟨hgood, hidle, hoffset⟩ |
      ⟨hstuck, hfed, init, last, hcalls, hempty, htook⟩ := hdone.outcome
    · by_cases hnew : (r.read decode file maxlen).bytes = []
      · refine .ended ?_ hnew hgood.noRefeed
          (hdone.clean_of_nothing h hne hnew)
        rw [hret, hnew]
        rfl
      · refine .went ?_ hnew hgood
          (hdone.clean_of_good h.gave hlt hnew hgood hidle hoffset)
        rw [hret]
        exact fun hzero => hnew (List.length_eq_zero_iff.mp (by omega))
    · by_cases hnew : (r.read decode file maxlen).bytes = []
      · refine .ended ?_ hnew hfed (hdone.clean_of_nothing h hne hnew)
        rw [hret, hnew]
        rfl
      · refine .stuck ?_ hstuck (hdone.not_clean hnew hcalls hempty htook)
        rw [hret]
        exact fun hzero => hnew (List.length_eq_zero_iff.mp (by omega))
  · have hle := h.offset_le
    have hread : r.read decode file maxlen = ⟨0, [], r⟩ :=
      if_pos (Nat.le_of_not_lt hlt)
    have hcallsOf : r.callsOf decode file maxlen = [] := by
      unfold callsOf
      rw [hread]
      exact List.drop_length
    refine .ended (by rw [hread]) (by rw [hread]) (by rw [hread]; exact
      h.noRefeed) ⟨fun _ => hend (by omega), fun _ => ?_⟩
    rw [hcallsOf]
    refine ⟨?_, List.forall_mem_nil _, ?_⟩
    · intro c hc
      cases hc
    · intro htaken
      obtain ⟨c, hc, -⟩ := htaken
      cases hc

end Reads

end FileReader

end TradingEngine.Core.LZ4
