/-
`read_packets` counts its passes, not its packets.

A call goes through its loop until the condition fails, or once more than
there are packets. How many passes it would make is known beforehand
(`target`): the count asked for, the packets before the stop time and one
more, or no end at all. The counter is one ahead when the packets run out
in a pass, and it is not looked at while a stop time of another second than
0 is set, which it is by every `read_packets_until` before.

# One call

Both calls are one loop with a count, a stop time and a number of passes
that is enough. `target` says how many passes it would make over packets
without end, and it makes as many or one more than there are packets. What it
returns is the counter, so it counts what it delivers exactly if the two are
the same, which `CountsWhen` says in terms of the packets and the stop time
alone. A call leaves the stop time to the next one; the run goes over calls
with the state they find.
-/
import TradingEngine.Lib.Run
import TradingEngine.Net.Proofs.PcapFileMux

namespace TradingEngine.Net

open OE (Timestamp)

namespace Mux

-- ==================================================================== passes

/-- The packets remaining that are before the stop time. -/
def early (s : Mux) : Nat := s.pending.countP (·.ts.lt s.stopTs)

/-- The passes that the loop would make over packets without end. One more
than there are packets stands for no end. -/
def target (s : Mux) (num count : Int) : Nat :=
  if s.stopTs.sec = 0 ∧ num < 0 then
    s.pending.length + 1
  else if s.stopTs.sec = 0 ∧ count < num then
    max (num - count).toNat (s.early + 1)
  else if s.lastTs.lt s.stopTs then
    s.early + 1
  else
    0

/-- The passes that it makes. -/
def passes (s : Mux) (num count : Int) : Nat :=
  min (s.target num count) (s.pending.length + 1)

variable {files : List Capture} {s s' : Mux}

/-- The loop goes on exactly when there is a pass to make. -/
theorem goesOn_iff (s : Mux) (num count : Int) :
    s.goesOn num count = true ↔ 0 < s.passes num count := by
  unfold goesOn passes target
  by_cases hstop : s.stopTs.sec = 0
  · by_cases hnum : num < 0
    · simp [hstop, hnum]
    · by_cases hcount : count < num
      · simp [hstop, hnum, hcount]
      · cases hlast : s.lastTs.lt s.stopTs <;> simp [hstop, hnum, hcount]
  · cases hlast : s.lastTs.lt s.stopTs <;> simp [hstop]

/-- A time that is no later than an earlier one is earlier too. -/
theorem lt_of_nanos_le {a b c : Timestamp} (ha : a.SubSecond)
    (hb : b.SubSecond) (hle : a.nanos ≤ b.nanos) (h : b.lt c = true) :
    a.lt c = true := by
  obtain ⟨ha0, ha1⟩ := ha
  obtain ⟨hb0, hb1⟩ := hb
  rw [Timestamp.lt_iff] at h ⊢
  unfold Timestamp.nanos at hle
  omega

/-- A packet is delivered, and there is a pass less to make. -/
theorem Merges.passes_delivers (h : Merges files s) {e : PktEntry}
    (hd : Delivers s e s') {num count : Int}
    (hgo : s.goesOn num count = true) :
    s.pending.length = s'.pending.length + 1
      ∧ s.passes num count = s'.passes num (count + 1) + 1 := by
  have hperm := hd.pending h.shape
  have hlen : s.pending.length = s'.pending.length + 1 := hperm.length_eq
  have hmem : e.pkt ∈ s.pending := hperm.mem_iff.mpr List.mem_cons_self
  -- the packet delivered is early exactly when any is
  have hearly : s.early
      = s'.early + if e.pkt.ts.lt s.stopTs = true then 1 else 0 := by
    unfold early
    rw [hperm.countP_eq, List.countP_cons, hd.stopTs]
  have hfirst : e.pkt.ts.lt s.stopTs = false → s.early = 0 := by
    intro hlate
    apply List.countP_eq_zero.mpr
    intro y hy hlt
    have hle := (h.delivers hd).2 y hy
    have htoo := lt_of_nanos_le (h.stamped hmem).1 (h.stamped hy).1 hle hlt
    rw [htoo] at hlate
    cases hlate
  refine ⟨hlen, ?_⟩
  have hpos := (goesOn_iff s num count).mp hgo
  unfold passes target at hpos ⊢
  rw [hd.stopTs, hd.lastTs, hlen]
  cases hlt : e.pkt.ts.lt s.stopTs with
  | true =>
      rw [hlt, if_pos rfl] at hearly
      simp only [if_true]
      split_ifs at hpos ⊢ <;> omega
  | false =>
      have hnone := hfirst hlt
      rw [hlt, if_neg Bool.false_ne_true] at hearly
      simp only [Bool.false_eq_true, if_false]
      split_ifs at hpos ⊢ <;> omega

/-- The number of packets delivered so far. -/
def delivered (s : Mux) : Nat := (payloads s.log).length

/-- What a loop of so many passes does. -/
structure Passed (files : List Capture) (s : Mux) (n : Nat) (s' : Mux) :
    Prop where
  merges : Merges files s'
  stopTs : s'.stopTs = s.stopTs
  delivered : s'.delivered = s.delivered + min n s.pending.length
  pending : s'.pending.length = s.pending.length - n

/-- The loop ends, and returns how many passes it made. -/
theorem Merges.readLoop (q : TopChoice) (num : Int) :
    ∀ (fuel : Nat) (count : Int) {s : Mux}, Merges files s →
      s.pending.length < fuel →
        ∃ s', Mux.readLoop q num fuel count s
            = some (s', count + s.passes num count)
          ∧ Passed files s (s.passes num count) s' := by
  intro fuel
  induction fuel with
  | zero =>
      intro count s _ hfuel
      omega
  | succ fuel ih =>
      intro count s h hfuel
      unfold Mux.readLoop
      cases hgo : s.goesOn num count with
      | false =>
          have hnone : s.passes num count = 0 := by
            have hpos := (goesOn_iff s num count).not.mp (by simp [hgo])
            omega
          rw [hnone]
          refine ⟨s, by simp, h, rfl, by simp, by simp⟩
      | true =>
          have hpos := (goesOn_iff s num count).mp hgo
          rcases readNextPacket_cases q h.shape with
            ⟨hempty, heq⟩ | ⟨e, s1, heq, hd⟩
          · -- the pass finds nothing, but is counted
            have hlen : s.pending.length = 0 := by
              rw [h.pending_eq_nil.mpr hempty]
              rfl
            have hone : s.passes num count = 1 := by
              unfold passes at hpos ⊢
              omega
            rw [hone]
            refine ⟨s, ?_, h, rfl, by omega, by omega⟩
            simp [heq]
          · obtain ⟨hlen, hpass⟩ := h.passes_delivers hd hgo
            obtain ⟨s', hloop, hpassed⟩ :=
              ih (count + 1) (h.delivers hd).1 (by omega)
            have hdelivered : s1.delivered = s.delivered + 1 := by
              unfold Mux.delivered payloads
              rw [hd.log, List.filterMap_append, List.filterMap_append,
                payloads_onTimer]
              simp [payload?]
            refine ⟨s', ?_, hpassed.merges,
              hpassed.stopTs.trans hd.stopTs, ?_, ?_⟩
            · simp only [if_true]
              rw [heq]
              dsimp only
              rw [hloop, hpass]
              congr 2
              push_cast
              omega
            · rw [hpassed.delivered, hdelivered]
              omega
            · rw [hpassed.pending]
              omega

/-- More passes allowed change nothing. -/
theorem readLoop_more (q : TopChoice) (num : Int) :
    ∀ (fuel more : Nat) (count : Int) (s : Mux) (r : Mux × Int),
      Mux.readLoop q num fuel count s = some r →
        Mux.readLoop q num (fuel + more) count s = some r := by
  intro fuel
  induction fuel with
  | zero =>
      intro more count s r h
      cases h
  | succ fuel ih =>
      intro more count s r h
      rw [Nat.add_right_comm]
      unfold Mux.readLoop at h ⊢
      split at h
      case isTrue hgo =>
        rw [if_pos hgo]
        cases hread : s.readNextPacket q with
        | mk s1 found =>
            rw [hread] at h
            cases found with
            | true => exact ih more (count + 1) s1 r h
            | false => exact h
      case isFalse hgo =>
        rw [if_neg hgo]
        exact h

-- ===================================================================== calls

/-- A call of the mux. -/
inductive Call
  | read (num : Int)
  | readUntil (ts : Timestamp)
  deriving DecidableEq, Repr

namespace Call

/-- The state in which the loop of a call begins. -/
def enter (s : Mux) : Call → Mux
  | .read _ => s
  | .readUntil ts => { s with stopTs := ts }

/-- The count asked for. -/
def num : Call → Int
  | .read num => num
  | .readUntil _ => -1

/-- A call, with a pass more than there are packets. -/
def result (q : TopChoice) (s : Mux) : Call → Option (Mux × Int)
  | .read num => s.readPackets q (s.pending.length + 1) num
  | .readUntil ts => s.readPacketsUntil q (s.pending.length + 1) ts

theorem result_eq (q : TopChoice) (s : Mux) (c : Call) :
    c.result q s
      = Mux.readLoop q c.num (s.pending.length + 1) 0 (c.enter s) := by
  cases c with
  | read num => rfl
  | readUntil ts => rfl

/-- The state after a call. -/
def step (q : TopChoice) (s : Mux) (c : Call) : Mux :=
  match c.result q s with
  | some (s', _) => s'
  | none => s

/-- The value a call returns. -/
def ret (q : TopChoice) (s : Mux) (c : Call) : Int :=
  match c.result q s with
  | some (_, n) => n
  | none => 0

end Call

/-- A stop time changes nothing that is merged. -/
theorem Merges.enter (h : Merges files s) (c : Call) :
    Merges files (c.enter s) := by
  cases c with
  | read num => exact h
  | readUntil ts =>
      exact ⟨⟨h.shape.single, h.shape.known, h.shape.loaded⟩, h.size, h.inv,
        h.log, h.timerTs⟩

/-- The passes of a call. -/
def callPasses (s : Mux) (c : Call) : Nat := (c.enter s).passes c.num 0

/-- Every call ends, and returns the passes it made. -/
theorem Merges.call (q : TopChoice) (h : Merges files s) (c : Call) :
    c.ret q s = s.callPasses c
      ∧ Passed files (c.enter s) (s.callPasses c) (c.step q s) := by
  have hsame : (c.enter s).pending = s.pending := by
    cases c with
    | read num => rfl
    | readUntil ts => rfl
  obtain ⟨s', hloop, hpassed⟩ := (h.enter c).readLoop q c.num
    (s.pending.length + 1) 0 (by rw [hsame]; exact Nat.lt_succ_self _)
  have hresult := c.result_eq q s
  rw [hloop] at hresult
  unfold Call.ret Call.step
  rw [hresult]
  exact ⟨Int.zero_add _, hpassed⟩

-- ==================================================================== counts

/-- So many packets are delivered, and their number is returned. -/
def Returns (q : TopChoice) (s : Mux) (c : Call) (n : Nat) : Prop :=
  (c.step q s).delivered = s.delivered + n ∧ c.ret q s = n

/-- What a call is to count. -/
def Counts (q : TopChoice) (s : Mux) (c : Call) : Prop :=
  match c with
  | .read num =>
      (0 ≤ num → Returns q s c (min num.toNat s.pending.length))
        ∧ (num = -1 → Returns q s c s.pending.length)
  | .readUntil _ => ∃ n, Returns q s c n

/-- The stop time falls right after so many packets. -/
def StopsAfter (s : Mux) (n : Nat) : Prop :=
  if n = 0 then s.lastTs.lt s.stopTs = false
  else s.lastTs.lt s.stopTs = true ∧ s.early + 1 = n

/-- When a call counts what it delivers. Without a stop time the packets
last for the count, and none of the last ones is before the stop time of
second 0; with one, the stop time happens to fall right after the packets
asked for. A stop time of a second other than 0 is reached before the
packets run out. -/
def CountsWhen (s : Mux) : Call → Prop
  | .read num =>
      (0 ≤ num → if s.stopTs.sec = 0 then
          num.toNat ≤ s.pending.length
            ∧ if num = 0 then s.lastTs.lt s.stopTs = false
              else s.early < num.toNat
        else s.StopsAfter (min num.toNat s.pending.length))
        ∧ (num = -1 →
          s.stopTs.sec ≠ 0 ∧ s.StopsAfter s.pending.length)
  | .readUntil ts =>
      ts.sec ≠ 0
        ∧ (s.lastTs.lt ts = false ∨ ∃ p ∈ s.pending, p.ts.lt ts = false)

/-- A call delivers as many packets as it makes passes, up to all. -/
theorem Merges.returns_iff (q : TopChoice) (h : Merges files s) (c : Call)
    (n : Nat) :
    Returns q s c n
      ↔ n = s.callPasses c ∧ s.callPasses c ≤ s.pending.length := by
  obtain ⟨hret, hpassed⟩ := h.call q c
  have henter : (c.enter s).delivered = s.delivered
      ∧ (c.enter s).pending = s.pending := by
    cases c with
    | read num => exact ⟨rfl, rfl⟩
    | readUntil ts => exact ⟨rfl, rfl⟩
  have hdelivered := hpassed.delivered
  rw [henter.1, henter.2] at hdelivered
  unfold Returns
  rw [hdelivered, hret]
  omega

theorem early_le (s : Mux) : s.early ≤ s.pending.length :=
  List.countP_le_length

/-- With a stop time of a second other than 0 the count is not looked at. -/
theorem passes_of_stop (h : s.stopTs.sec ≠ 0) (num count : Int) :
    s.passes num count
      = if s.lastTs.lt s.stopTs = true then s.early + 1 else 0 := by
  have hle := s.early_le
  unfold passes target
  rw [if_neg (fun hand => h hand.1), if_neg (fun hand => h hand.1)]
  split
  case isTrue => omega
  case isFalse => omega

/-- Without one, and without a count, the packets run out. -/
theorem passes_of_all (h : s.stopTs.sec = 0) {num : Int} (hnum : num < 0)
    (count : Int) : s.passes num count = s.pending.length + 1 := by
  unfold passes target
  rw [if_pos ⟨h, hnum⟩, Nat.min_self]

/-- With a count, it goes on while packets are early. -/
theorem passes_of_count (h : s.stopTs.sec = 0) {num : Int}
    (hnum : 0 ≤ num) :
    s.passes num 0 = if num = 0 then
        if s.lastTs.lt s.stopTs = true then s.early + 1 else 0
      else min (max num.toNat (s.early + 1)) (s.pending.length + 1) := by
  have hle := s.early_le
  unfold passes target
  rw [if_neg (by omega), Int.sub_zero]
  by_cases hzero : num = 0
  · rw [if_neg (by omega), if_pos hzero]
    split
    case isTrue => omega
    case isFalse => omega
  · rw [if_pos ⟨h, by omega⟩, if_neg hzero]

/-- The passes up to a stop time end with the packets asked for. -/
theorem stopsAfter_iff {n : Nat} (hn : n ≤ s.pending.length) :
    ((if s.lastTs.lt s.stopTs = true then s.early + 1 else 0) = n
      ∧ (if s.lastTs.lt s.stopTs = true then s.early + 1 else 0)
        ≤ s.pending.length)
    ↔ s.StopsAfter n := by
  unfold StopsAfter
  cases hlast : s.lastTs.lt s.stopTs with
  | true =>
      rw [if_pos rfl]
      split
      case isTrue hzero => exact iff_of_false (by omega) (by simp)
      case isFalse hpos =>
        rw [and_iff_right rfl]
        omega
  | false =>
      rw [if_neg Bool.false_ne_true]
      split
      case isTrue hzero => exact iff_of_true (by omega) rfl
      case isFalse hpos => exact iff_of_false (by omega) (by simp)

/-- A count asked for. -/
theorem passes_read_iff {num : Int} (h0 : 0 ≤ num) (s : Mux) :
    (s.passes num 0 = min num.toNat s.pending.length
      ∧ s.passes num 0 ≤ s.pending.length)
    ↔ if s.stopTs.sec = 0 then
        num.toNat ≤ s.pending.length
          ∧ if num = 0 then s.lastTs.lt s.stopTs = false
            else s.early < num.toNat
      else s.StopsAfter (min num.toNat s.pending.length) := by
  split
  case isTrue hstop =>
    rw [passes_of_count hstop h0]
    by_cases hzero : num = 0
    · rw [if_pos hzero, if_pos hzero, hzero]
      cases hlast : s.lastTs.lt s.stopTs with
      | true => exact iff_of_false (by simp) (by simp)
      | false => exact iff_of_true (by simp) (by simp)
    · rw [if_neg hzero, if_neg hzero]
      omega
  case isFalse hstop =>
    rw [passes_of_stop hstop]
    exact stopsAfter_iff (Nat.min_le_right _ _)

/-- Everything asked for. -/
theorem passes_all_iff (s : Mux) :
    (s.passes (-1) 0 = s.pending.length
      ∧ s.passes (-1) 0 ≤ s.pending.length)
    ↔ s.stopTs.sec ≠ 0 ∧ s.StopsAfter s.pending.length := by
  by_cases hstop : s.stopTs.sec = 0
  · rw [passes_of_all hstop (by decide)]
    exact iff_of_false (by omega) (fun hand => hand.1 hstop)
  · rw [passes_of_stop hstop, and_iff_right hstop]
    exact stopsAfter_iff (Nat.le_refl _)

/-- The packets before the stop time are not all that remain. -/
theorem early_lt_iff (s : Mux) :
    s.early < s.pending.length
      ↔ ∃ p ∈ s.pending, p.ts.lt s.stopTs = false := by
  have hle := s.early_le
  have hall : s.early = s.pending.length
      ↔ ∀ p ∈ s.pending, p.ts.lt s.stopTs = true :=
    List.countP_eq_length
  rw [Nat.lt_iff_le_and_ne, and_iff_right hle, ne_eq, hall]
  simp

/-- A time asked for. -/
theorem passes_until_iff (s : Mux) :
    s.passes (-1) 0 ≤ s.pending.length
    ↔ s.stopTs.sec ≠ 0 ∧ (s.lastTs.lt s.stopTs = false
      ∨ ∃ p ∈ s.pending, p.ts.lt s.stopTs = false) := by
  rw [← early_lt_iff]
  by_cases hstop : s.stopTs.sec = 0
  · rw [passes_of_all hstop (by decide)]
    exact iff_of_false (by omega) (fun hand => hand.1 hstop)
  · rw [passes_of_stop hstop, and_iff_right hstop]
    cases hlast : s.lastTs.lt s.stopTs with
    | true =>
        rw [if_pos rfl]
        simp only [Bool.true_eq_false, false_or]
        omega
    | false => exact iff_of_true (by simp) (Or.inl rfl)

/-- In any state of the mux a call counts exactly when that holds. -/
theorem Merges.counts_iff (q : TopChoice) (h : Merges files s) (c : Call) :
    Counts q s c ↔ CountsWhen s c := by
  have hreturns := h.returns_iff q c
  unfold Counts CountsWhen
  cases c with
  | read num =>
      dsimp only
      apply and_congr
      · apply forall_congr'
        intro h0
        rw [hreturns, eq_comm]
        exact passes_read_iff h0 s
      · apply forall_congr'
        intro hall
        rw [hreturns, eq_comm, hall]
        exact passes_all_iff s
  | readUntil ts =>
      dsimp only
      have hpasses := passes_until_iff { s with stopTs := ts }
      refine Iff.trans ?_ hpasses
      constructor
      · intro ⟨n, hn⟩
        exact ((hreturns n).mp hn).2
      · intro hle
        exact ⟨_, (hreturns _).mpr ⟨rfl, hle⟩⟩

/-- Along every run of calls, from any files. -/
theorem counts_run_iff (files : List Capture) (q : TopChoice)
    (calls : List Call) :
    (Lib.Admits (Call.step q) (Counts q) (initialReaderLoad files) calls
      ↔ Lib.Admits (Call.step q) CountsWhen (initialReaderLoad files) calls)
    ∧ ∀ c, Counts q (Lib.run (Call.step q) (initialReaderLoad files) calls) c
      ↔ CountsWhen (Lib.run (Call.step q) (initialReaderLoad files) calls)
        c := by
  have hinit := merges_initialReaderLoad files
  have hstep : ∀ s c, Merges files s → Merges files (Call.step q s c) :=
    fun s c h => (h.call q c).2.merges
  constructor
  · exact Lib.admits_iff_of_step (I := Merges files)
      (fun s c h _ => h.counts_iff q c) (fun s c h _ _ => hstep s c h)
      hinit (Lib.Admits.trivial _ _)
  · intro c
    exact (Lib.run_induction hstep hinit).counts_iff q c

/-- A packet of the first second after the epoch. -/
def onePacket : Capture where
  packets := [some ⟨0, 0, 0, 0, [], ⟨1, 0⟩⟩]
  latency := 0
  latency_nonneg := by decide
  latency_fits := by decide
  stamped := by
    unfold Timestamp.SubSecond
    decide
  sorted := by decide

/-- All of one packet is two. -/
theorem not_counts_all :
    ¬ ∀ (files : List Capture) (q : TopChoice) (calls : List Call) (c : Call),
      Counts q (Lib.run (Call.step q) (initialReaderLoad files) calls) c := by
  intro h
  have hret := ((h [onePacket] .first [] (.read (-1))).2 rfl).2
  revert hret
  decide

end Mux

end TradingEngine.Net
