/-
The timers of the mux.

The timers start with the first packet of a second other than 0, and fire
for every whole second since, before the first packet that is not earlier
(`ticked`). `update_timers` knows that they have not started by their own
second being 0, which it also is when timers that started before the epoch
get to it. If they rest there they start again, at the next packet, and the
seconds in between are lost (`timed_restart`).

# What is right

The log of a run is packets with timers in between. `OnTime` asks that no
timer comes after a packet that is not earlier, and `dueTimers` is what
should have fired by the last packet. Packets of known times that are in
order go to the timers one by one: catching up fires what is due before the
packet, and leaves the timers at the last second fired, which is the
induction of `ticked`. Only second 0 breaks it, where the code cannot tell
timers that rest from timers that have not started.
-/
import TradingEngine.Net.Proofs.MuxReads

namespace TradingEngine.Net

open OE (Timestamp)
open Lib (Merge)

namespace Mux

-- ================================================================ what is due

/-- The whole seconds from `f` to `t`. -/
def due (f t : Timestamp) : Nat := ((t.nanos - f.nanos) / 1000000000).toNat

/-- The seconds after `f`, from the `n`th on up to the `m`th. -/
def ticks (f : Timestamp) (n m : Nat) : List Timestamp :=
  (List.range (m - n)).map fun k => after f (n + k + 1)

/-- The calls for packets, when timers that started at `f` have fired `n`
times. -/
def ticked (f : Timestamp) (n : Nat) : List (Nat × UDPPkt) → List Event
  | [] => []
  | (r, p) :: ps =>
      (ticks f n (due f p.ts)).map Event.onTimer
        ++ .handlePayload r p :: ticked f (due f p.ts) ps

/-- The calls for packets, when no timer is due. -/
def untimed (ps : List (Nat × UDPPkt)) : List Event :=
  ps.map fun p => .handlePayload p.1 p.2

variable {f t : Timestamp} {n : Nat} {ps : List (Nat × UDPPkt)}

/-- Seconds later, in nanoseconds. -/
theorem nanos_after (f : Timestamp) (n : Nat) :
    (after f n).nanos = f.nanos + n * 1000000000 := by
  unfold after Timestamp.nanos
  dsimp only
  omega

/-- No second later. -/
theorem after_zero (f : Timestamp) : after f 0 = f := by
  unfold after
  simp

/-- Whole seconds leave the fraction. -/
theorem subSecond_after (h : f.SubSecond) (n : Nat) :
    (after f n).SubSecond := h

/-- The later, the more timers are due. -/
theorem due_mono {u : Timestamp} (h : t.nanos ≤ u.nanos) :
    due f t ≤ due f u := by
  unfold due
  omega

/-- A timer whose second has passed is due. -/
theorem le_due (h : f.nanos + n * 1000000000 ≤ t.nanos) : n ≤ due f t := by
  unfold due
  omega

/-- The last that is due is not in the future. -/
theorem due_le (h : f.nanos ≤ t.nanos) :
    f.nanos + due f t * 1000000000 ≤ t.nanos := by
  unfold due
  omega

/-- And the next one is. -/
theorem lt_due_succ (f t : Timestamp) :
    t.nanos < f.nanos + (due f t + 1) * 1000000000 := by
  unfold due
  omega

/-- Timers that are not at second 0 catch up with the packet. -/
theorem timerStep_after (hf : Stamped f) (ht : Stamped t)
    (hle : f.nanos ≤ t.nanos) (hn : n ≤ due f t)
    (hsec : (after f n).sec ≠ 0) :
    timerStep (after f n) t
      = (after f (due f t), ticks f n (due f t)) := by
  obtain ⟨hfs, hf0, hf1⟩ := hf
  obtain ⟨hts, ht0, ht1⟩ := ht
  have hnanos := nanos_after f n
  -- the timers are no later than the packet, so the difference fits
  have hpast : (after f n).nanos ≤ t.nanos := by
    unfold due at hn
    omega
  have hfits : t.DifferenceFits (after f n) := by
    have hn0 := hts.1
    have hn1 := hts.2
    have hm0 := hfs.1
    have hm1 := hfs.2
    unfold Timestamp.DifferenceFits after
    unfold after Timestamp.nanos at hpast
    dsimp only at hpast ⊢
    omega
  have hcount : (t.sub (after f n)).sec.toNat = due f t - n := by
    rw [Timestamp.sub_sec hts (subSecond_after hfs n) hfits, hnanos]
    unfold due
    omega
  have hafter : ∀ k, after (after f n) k = after f (n + k) := by
    intro k
    unfold after
    congr 1
    dsimp only
    omega
  unfold timerStep ticks
  rw [if_neg hsec]
  dsimp only
  rw [hcount]
  simp only [hafter, Nat.add_assoc]
  congr 2
  omega

/-- A call of the timers. -/
def timer? : Event → Option Timestamp
  | .onTimer t => some t
  | .handlePayload _ _ => none

/-- The timers that fired, in order. -/
def timers (log : List Event) : List Timestamp := log.filterMap timer?

/-- Timers of two logs. -/
theorem timers_append (log log' : List Event) :
    timers (log ++ log') = timers log ++ timers log' :=
  List.filterMap_append

/-- A log of timers alone. -/
theorem timers_onTimer (ts : List Timestamp) :
    timers (ts.map Event.onTimer) = ts := by
  unfold timers
  rw [List.filterMap_map]
  exact List.filterMap_some

/-- A packet is not a timer. -/
theorem timers_cons_payload (r : Nat) (p : UDPPkt) (log : List Event) :
    timers (.handlePayload r p :: log) = timers log := rfl

/-- Without timers there are none. -/
theorem timers_untimed (ps : List (Nat × UDPPkt)) :
    timers (untimed ps) = [] := by
  induction ps with
  | nil => rfl
  | cons p ps ih => exact ih

-- ================================================================== second 0

/-- Timers that have started do not fire within a second of the last. -/
theorem timerStep_of_near (ht : t.SubSecond) {u : Timestamp} (hu : Stamped u)
    (hone : 1 ≤ t.sec) (hle : t.nanos ≤ u.nanos)
    (hnear : u.nanos < t.nanos + 1000000000) : timerStep t u = (t, []) := by
  have hfits : u.DifferenceFits t := by
    have hrange := hu.2
    have ht0 := ht.1
    have ht1 := ht.2
    have hu1 := hu.1.2
    unfold Timestamp.DifferenceFits
    unfold Timestamp.nanos at hle
    omega
  have hnone : (u.sub t).sec.toNat = 0 := by
    rw [Timestamp.sub_sec hu.1 ht hfits]
    omega
  unfold timerStep
  rw [if_neg (by omega)]
  dsimp only
  rw [hnone, after_zero]
  rfl

/-- Packets of known times, in order. -/
structure Ordered (ps : List (Nat × UDPPkt)) : Prop where
  stamped : ∀ p ∈ ps, Stamped p.2.ts
  sorted : ps.Pairwise fun a b => a.2.ts.nanos ≤ b.2.ts.nanos

/-- A later part of the packets. -/
theorem Ordered.tail {p : Nat × UDPPkt} (h : Ordered (p :: ps)) :
    Ordered ps where
  stamped := fun q hq => h.stamped q (List.mem_cons_of_mem p hq)
  sorted := (List.pairwise_cons.mp h.sorted).2

/-- The first is the earliest. -/
theorem Ordered.head_le {p : Nat × UDPPkt} (h : Ordered (p :: ps)) :
    ∀ q ∈ ps, p.2.ts.nanos ≤ q.2.ts.nanos :=
  (List.pairwise_cons.mp h.sorted).1

/-- Timers at second 0 move along, and do not fire before a second after
second 1. -/
theorem timed_of_zero (h : Ordered ps) {m : Int} (hm : m < 1000000000)
    (hlo : ∀ p ∈ ps, 0 ≤ p.2.ts.nanos)
    (hhi : ∀ p ∈ ps, p.2.ts.nanos < 1000000000 + m) :
    ∀ t : Timestamp, (t.sec = 0 ∨ t.SubSecond ∧ 1 ≤ t.sec
      ∧ ∀ p ∈ ps, t.nanos ≤ p.2.ts.nanos) → timed t ps = untimed ps := by
  induction ps with
  | nil => exact fun t _ => rfl
  | cons p ps ih =>
      intro t ht
      have hp := h.stamped p List.mem_cons_self
      have hplo := hlo p List.mem_cons_self
      have hphi := hhi p List.mem_cons_self
      have hrest := ih h.tail
        (fun q hq => hlo q (List.mem_cons_of_mem p hq))
        (fun q hq => hhi q (List.mem_cons_of_mem p hq))
      unfold timed
      rcases ht with hzero | ⟨hsub, hone, hle⟩
      · have hstep : timerStep t p.2.ts = (p.2.ts, []) := if_pos hzero
        rw [hstep]
        refine congrArg (Event.handlePayload p.1 p.2 :: ·) (hrest _ ?_)
        by_cases hsec : p.2.ts.sec = 0
        · exact Or.inl hsec
        · have hn1 := hp.1.2
          refine Or.inr ⟨hp.1, ?_, h.head_le⟩
          unfold Timestamp.nanos at hplo
          dsimp only
          omega
      · have hnear : p.2.ts.nanos < t.nanos + 1000000000 := by
          have ht0 := hsub.1
          unfold Timestamp.nanos at hphi ⊢
          omega
        have hstep : timerStep t p.2.ts = (t, []) :=
          timerStep_of_near hsub hp hone (hle p List.mem_cons_self) hnear
        rw [hstep]
        refine congrArg (Event.handlePayload p.1 p.2 :: ·) (hrest _ ?_)
        exact Or.inr ⟨hsub, hone,
          fun q hq => hle q (List.mem_cons_of_mem p hq)⟩

/-- Timers that start again after second 0 do not fire for second 1. -/
theorem timed_restart (hlo : ∀ p ∈ ps, 0 ≤ p.2.ts.sec) :
    ∀ t : Timestamp, 0 ≤ t.sec → ∀ u ∈ timers (timed t ps), 2 ≤ u.sec := by
  induction ps with
  | nil =>
      intro t _ u hu
      cases hu
  | cons p ps ih =>
      intro t ht u hu
      have hp := hlo p List.mem_cons_self
      have hrest := ih fun q hq => hlo q (List.mem_cons_of_mem p hq)
      unfold timed at hu
      rw [timers_append, timers_cons_payload, timers_onTimer,
        List.mem_append] at hu
      unfold timerStep at hu
      split at hu
      case isTrue =>
        rcases hu with hfired | hlater
        · cases hfired
        · exact hrest _ hp u hlater
      case isFalse hsec =>
        rcases hu with hfired | hlater
        · obtain ⟨k, -, heq⟩ := List.mem_map.mp hfired
          rw [← heq]
          unfold after
          dsimp only
          omega
        · refine hrest _ ?_ u hlater
          unfold after
          dsimp only
          omega

-- ================================================================ catching up

/-- Once the timers rest at second 0, nothing more is due. -/
def Rests (f : Timestamp) (n : Nat) (ps : List (Nat × UDPPkt)) : Prop :=
  f.sec + n = 0 → ∀ p ∈ ps, due f p.2.ts ≤ n

/-- The timers, `n` seconds after `f`, come to no rest at second 0 while
anything is due. -/
def Runs (f : Timestamp) (n : Nat) (ps : List (Nat × UDPPkt)) : Prop :=
  Rests f n ps ∧ ∀ p ∈ ps, Rests f (due f p.2.ts) ps

/-- Nothing is due in the packets of one second. -/
theorem ticked_eq_untimed (h : ∀ p ∈ ps, due f p.2.ts = n) :
    ticked f n ps = untimed ps := by
  induction ps with
  | nil => rfl
  | cons p ps ih =>
      have hp := h p List.mem_cons_self
      unfold ticked ticks
      rw [hp, Nat.sub_self,
        ih fun q hq => h q (List.mem_cons_of_mem p hq)]
      rfl

/-- Timers that come to no rest while anything is due fire whenever it is. -/
theorem timed_eq_ticked (hf : Stamped f) :
    ∀ (ps : List (Nat × UDPPkt)) (n : Nat), Ordered ps →
      (∀ p ∈ ps, f.nanos + n * 1000000000 ≤ p.2.ts.nanos) →
      Runs f n ps → timed (after f n) ps = ticked f n ps := by
  intro ps
  induction ps with
  | nil => exact fun n _ _ _ => rfl
  | cons p ps ih =>
      intro n h hle hruns
      have hp := h.stamped p List.mem_cons_self
      have hpn := hle p List.mem_cons_self
      have hn : n ≤ due f p.2.ts := le_due hpn
      by_cases hsec : (after f n).sec = 0
      · -- at rest: all that comes is of this second
        have hdue := hruns.1 hsec
        have hsame : ∀ q ∈ p :: ps, due f q.2.ts = n := by
          intro q hq
          have hqn := hle q hq
          have hqd := hdue q hq
          unfold due at hqd ⊢
          omega
        have hzero : f.nanos + n * 1000000000 = f.nsec := by
          unfold after at hsec
          unfold Timestamp.nanos
          dsimp only at hsec
          omega
        rw [ticked_eq_untimed hsame]
        apply timed_of_zero h hf.1.2
        · intro q hq
          have hqn := hle q hq
          have hf0 := hf.1.1
          omega
        · intro q hq
          have hqd := hdue q hq
          unfold due at hqd
          omega
        · exact Or.inl hsec
      · have hfp : f.nanos ≤ p.2.ts.nanos := by omega
        have hnext : ∀ q ∈ ps, f.nanos + due f p.2.ts * 1000000000
            ≤ q.2.ts.nanos :=
          fun q hq => Int.le_trans (due_le hfp) (h.head_le q hq)
        have hruns' : Runs f (due f p.2.ts) ps := by
          constructor
          · intro hz q hq
            exact hruns.2 p List.mem_cons_self hz q
              (List.mem_cons_of_mem p hq)
          · intro r hr hz q hq
            exact hruns.2 r (List.mem_cons_of_mem p hr) hz q
              (List.mem_cons_of_mem p hq)
        unfold timed ticked
        rw [timerStep_after hf hp hfp hn hsec]
        dsimp only
        rw [ih (due f p.2.ts) h.tail hnext hruns']

/-- The seconds since the last packet. -/
def lastDue (f : Timestamp) (n : Nat) (ps : List (Nat × UDPPkt)) : Nat :=
  match ps.getLast? with
  | some p => due f p.2.ts
  | none => n

/-- Timers between two times, by way of a third. -/
theorem ticks_append {n m k : Nat} (hnm : n ≤ m) (hmk : m ≤ k) :
    ticks f n m ++ ticks f m k = ticks f n k := by
  have hsplit : k - n = m - n + (k - m) := by omega
  unfold ticks
  rw [hsplit, List.range_add, List.map_append, List.map_map]
  congr 1
  apply List.map_congr_left
  intro j _
  have hsum : n + (m - n + j) + 1 = m + j + 1 := by omega
  exact congrArg (after f) hsum.symm

/-- In the end every second has been fired for. -/
theorem timers_ticked (ps : List (Nat × UDPPkt)) :
    ∀ n, Ordered ps → (∀ p ∈ ps, n ≤ due f p.2.ts) →
      n ≤ lastDue f n ps
        ∧ timers (ticked f n ps) = ticks f n (lastDue f n ps) := by
  induction ps with
  | nil =>
      intro n _ _
      refine ⟨Nat.le_refl n, ?_⟩
      unfold lastDue ticks
      simp [ticked, timers]
  | cons p ps ih =>
      intro n h hn
      have hp := hn p List.mem_cons_self
      have hlast : lastDue f n (p :: ps) = lastDue f (due f p.2.ts) ps := by
        unfold lastDue
        rw [List.getLast?_cons]
        cases ps.getLast? with
        | none => rfl
        | some q => rfl
      obtain ⟨hle, hrest⟩ := ih (due f p.2.ts) h.tail
        fun q hq => due_mono (h.head_le q hq)
      rw [hlast]
      refine ⟨Nat.le_trans hp hle, ?_⟩
      unfold ticked
      rw [timers_append, timers_cons_payload, timers_onTimer, hrest]
      exact ticks_append hp hle

/-- A tick is a whole second after the first packet. -/
theorem mem_ticks {n m : Nat} {u : Timestamp} (h : u ∈ ticks f n m) :
    ∃ k, n < k ∧ k ≤ m ∧ u = after f k := by
  obtain ⟨k, hk, heq⟩ := List.mem_map.mp h
  have hlt := List.mem_range.mp hk
  exact ⟨n + k + 1, by omega, by omega, heq.symm⟩

/-- And every whole second in between is one. -/
theorem after_mem_ticks {n m k : Nat} (hn : n < k) (hm : k ≤ m) :
    after f k ∈ ticks f n m := by
  have hk : n + (k - n - 1) + 1 = k := by omega
  refine List.mem_map.mpr ⟨k - n - 1, List.mem_range.mpr (by omega), ?_⟩
  rw [hk]

/-- What fires is later than what has. -/
theorem le_of_mem_ticked (h : Ordered ps) (hn : ∀ p ∈ ps, n ≤ due f p.2.ts)
    {u : Timestamp} (hu : .onTimer u ∈ ticked f n ps) :
    f.nanos + (n + 1) * 1000000000 ≤ u.nanos := by
  have hmem : u ∈ timers (ticked f n ps) :=
    List.mem_filterMap.mpr ⟨.onTimer u, hu, rfl⟩
  rw [(timers_ticked ps n h hn).2] at hmem
  obtain ⟨k, hk, -, heq⟩ := mem_ticks hmem
  rw [heq, nanos_after]
  omega

/-- No timer comes after a packet that is not earlier. -/
def OnTime (log : List Event) : Prop :=
  log.Pairwise fun a b => ∀ r p u, a = .handlePayload r p →
    b = .onTimer u → p.ts.nanos < u.nanos

/-- A packet is behind the timers due at it, and before the others. -/
theorem onTime_ticked (ps : List (Nat × UDPPkt)) :
    ∀ n, Ordered ps → (∀ p ∈ ps, n ≤ due f p.2.ts) →
      OnTime (ticked f n ps) := by
  induction ps with
  | nil => exact fun n _ _ => List.Pairwise.nil
  | cons p ps ih =>
      intro n h hn
      have hlater : ∀ q ∈ ps, due f p.2.ts ≤ due f q.2.ts :=
        fun q hq => due_mono (h.head_le q hq)
      have hrest := ih (due f p.2.ts) h.tail hlater
      unfold ticked OnTime
      apply List.pairwise_append.mpr
      refine ⟨?_, ?_, ?_⟩
      · apply List.pairwise_map.mpr
        exact List.pairwise_of_forall fun _ _ _ _ _ ha => by cases ha
      · apply List.pairwise_cons.mpr
        refine ⟨?_, hrest⟩
        intro b hb r q u ha hbu
        cases ha
        rw [hbu] at hb
        exact Int.lt_of_lt_of_le (lt_due_succ f p.2.ts)
          (le_of_mem_ticked h.tail hlater hb)
      · intro a ha b _ r q u heq
        obtain ⟨t, -, hat⟩ := List.mem_map.mp ha
        rw [← hat] at heq
        cases heq

-- ================================================================ what fires

/-- The first packet of a second other than 0, which starts the timers. -/
def starter (ps : List (Nat × UDPPkt)) : Option (Nat × UDPPkt) :=
  ps.find? fun p => p.2.ts.sec ≠ 0

/-- The timers that are due by the last packet. -/
def dueTimers (ps : List (Nat × UDPPkt)) : List Timestamp :=
  match starter ps with
  | some f => ticks f.2.ts 0 (lastDue f.2.ts 0 ps)
  | none => []

/-- Timers that start before the epoch rest at second 0 for a packet, and
are due again for another. -/
def Skips (ps : List (Nat × UDPPkt)) : Prop :=
  ∃ f, starter ps = some f ∧ f.2.ts.sec < 0
    ∧ (∃ p ∈ ps, f.2.ts.nsec ≤ p.2.ts.nanos
      ∧ p.2.ts.nanos < f.2.ts.nsec + 1000000000)
    ∧ ∃ p ∈ ps, f.2.ts.nsec + 1000000000 ≤ p.2.ts.nanos

/-- The log goes packet by packet: the timers that are due, and the payload. -/
theorem timed_cons (t : Timestamp) (p : Nat × UDPPkt)
    (ps : List (Nat × UDPPkt)) :
    timed t (p :: ps) = (timerStep t p.2.ts).2.map Event.onTimer
      ++ .handlePayload p.1 p.2 :: timed (timerStep t p.2.ts).1 ps := rfl

/-- Before the packet that starts the timers, nothing fires. -/
theorem timed_start (f : Nat × UDPPkt) (rest : List (Nat × UDPPkt))
    {before : List (Nat × UDPPkt)} (h : ∀ p ∈ before, p.2.ts.sec = 0) :
    ∀ t : Timestamp, t.sec = 0 → timed t (before ++ f :: rest)
      = untimed before ++ .handlePayload f.1 f.2 :: timed f.2.ts rest := by
  induction before with
  | nil =>
      intro t ht
      have hstep : timerStep t f.2.ts = (f.2.ts, []) := if_pos ht
      rw [List.nil_append, timed_cons, hstep]
      rfl
  | cons p ps ih =>
      intro t ht
      have hstep : timerStep t p.2.ts = (p.2.ts, []) := if_pos ht
      have hrest := ih (fun q hq => h q (List.mem_cons_of_mem p hq)) p.2.ts
        (h p List.mem_cons_self)
      rw [List.cons_append, timed_cons, hstep]
      exact congrArg (Event.handlePayload p.1 p.2 :: ·) hrest

/-- Where the timers start. -/
theorem starter_split {s : Nat × UDPPkt} (h : starter ps = some s) :
    s.2.ts.sec ≠ 0 ∧ ∃ before rest, ps = before ++ s :: rest
      ∧ ∀ p ∈ before, p.2.ts.sec = 0 := by
  obtain ⟨hs, before, rest, hsplit, hbefore⟩ :=
    List.find?_eq_some_iff_append.mp h
  refine ⟨of_decide_eq_true hs, before, rest, hsplit, ?_⟩
  intro p hp
  simpa using hbefore p hp

/-- Timers that rest at second 0 never fire for second 1. -/
theorem timed_lost (hf : Stamped f) :
    ∀ (ps : List (Nat × UDPPkt)) (n : Nat), Ordered ps →
      (∀ p ∈ ps, f.nanos + n * 1000000000 ≤ p.2.ts.nanos) →
      f.sec + n < 0 → (∃ p ∈ ps, f.sec + due f p.2.ts = 0) →
        ∀ u ∈ timers (timed (after f n) ps), u.sec ≠ 1 := by
  intro ps
  induction ps with
  | nil => exact fun n _ _ _ hrest => absurd hrest (by simp)
  | cons p ps ih =>
      intro n h hle hneg hrest u hu
      have hp := h.stamped p List.mem_cons_self
      have hpn := hle p List.mem_cons_self
      have hfp : f.nanos ≤ p.2.ts.nanos := by omega
      have hn : n ≤ due f p.2.ts := le_due hpn
      -- the packet is not beyond the one at which the timers rest
      have hbound : f.sec + due f p.2.ts ≤ 0 := by
        obtain ⟨q, hq, hqd⟩ := hrest
        rcases List.mem_cons.mp hq with heq | hmem
        · rw [← heq]
          omega
        · have hmono : due f p.2.ts ≤ due f q.2.ts :=
            due_mono (h.head_le q hmem)
          omega
      have hsec : (after f n).sec ≠ 0 := by
        unfold after
        dsimp only
        omega
      unfold timed at hu
      rw [timerStep_after hf hp hfp hn hsec, timers_append,
        timers_cons_payload, timers_onTimer, List.mem_append] at hu
      rcases hu with hfired | hlater
      · obtain ⟨k, -, hk, heq⟩ := mem_ticks hfired
        rw [heq]
        unfold after
        dsimp only
        omega
      · by_cases hzero : f.sec + due f p.2.ts = 0
        · have hpos : ∀ q ∈ ps, 0 ≤ q.2.ts.sec := by
            intro q hq
            have hpq := h.head_le q hq
            have hqs := (h.stamped q (List.mem_cons_of_mem p hq)).1.2
            have hf0 := hf.1.1
            unfold due Timestamp.nanos at hzero
            unfold Timestamp.nanos at hpq hfp
            omega
          have htwo := timed_restart hpos (after f (due f p.2.ts))
            (by unfold after; dsimp only; omega) u hlater
          omega
        · refine ih (due f p.2.ts) h.tail ?_ (by omega) ?_ u hlater
          · exact fun q hq => Int.le_trans (due_le hfp) (h.head_le q hq)
          · obtain ⟨q, hq, hqd⟩ := hrest
            rcases List.mem_cons.mp hq with heq | hmem
            · rw [heq] at hqd
              exact absurd hqd hzero
            · exact ⟨q, hmem, hqd⟩

/-- The last packet is the furthest. -/
theorem due_le_lastDue (ps : List (Nat × UDPPkt)) :
    ∀ n, Ordered ps → ∀ p ∈ ps, due f p.2.ts ≤ lastDue f n ps := by
  intro n h p hp
  have hne := List.ne_nil_of_mem hp
  have hlast : ps.getLast? = some (ps.getLast hne) :=
    List.getLast?_eq_some_getLast hne
  have hsorted := h.sorted
  rw [← List.dropLast_append_getLast hne] at hsorted hp
  unfold lastDue
  rw [hlast]
  apply due_mono
  rcases List.mem_append.mp hp with hinit | hend
  · exact (List.pairwise_append.mp hsorted).2.2 p hinit _ (by simp)
  · rw [List.mem_singleton.mp hend]

/-- The packets before a packet that starts the timers and is itself before
the epoch: there are none. -/
theorem Ordered.not_before {before rest : List (Nat × UDPPkt)}
    {s : Nat × UDPPkt} (h : Ordered (before ++ s :: rest))
    (hbefore : ∀ p ∈ before, p.2.ts.sec = 0) (hneg : s.2.ts.sec < 0) :
    before = [] := by
  apply List.eq_nil_iff_forall_not_mem.mpr
  intro p hp
  have hle := (List.pairwise_append.mp h.sorted).2.2 p hp s
    List.mem_cons_self
  have hzero := hbefore p hp
  have hsub := (h.stamped p (List.mem_append_left _ hp)).1.1
  have hs1 := (h.stamped s (List.mem_append_right _ List.mem_cons_self)).1.2
  unfold Timestamp.nanos at hle
  omega

/-- A packet before the epoch that starts the timers is the earliest. -/
theorem Ordered.least_of_neg (h : Ordered ps) {s : Nat × UDPPkt}
    (hstart : starter ps = some s) (hneg : s.2.ts.sec < 0) :
    s ∈ ps ∧ ∀ p ∈ ps, s.2.ts.nanos ≤ p.2.ts.nanos := by
  obtain ⟨-, before, rest, hsplit, hbefore⟩ := starter_split hstart
  subst hsplit
  have hnil := h.not_before hbefore hneg
  rw [hnil, List.nil_append] at h ⊢
  refine ⟨List.mem_cons_self, ?_⟩
  intro p hp
  rcases List.mem_cons.mp hp with heq | hrest
  · rw [heq]
  · exact h.head_le p hrest

/-- A packet that is no later than the first is of its time. -/
theorem Ordered.head_ts {p q : Nat × UDPPkt} (h : Ordered (p :: ps))
    (hq : q ∈ p :: ps) (hle : q.2.ts.nanos ≤ p.2.ts.nanos) :
    q.2.ts = p.2.ts := by
  have hqs := h.stamped q hq
  have hps := h.stamped p List.mem_cons_self
  apply Timestamp.ext_nanos hqs.1 hps.1
  have hge : p.2.ts.nanos ≤ q.2.ts.nanos := by
    rcases List.mem_cons.mp hq with heq | hrest
    · rw [heq]
    · exact h.head_le q hrest
  exact Int.le_antisymm hle hge

/-- Without a rest that skips something, the timers run on. -/
theorem runs_of_not_skips {before rest : List (Nat × UDPPkt)}
    {s : Nat × UDPPkt} (h : Ordered (before ++ s :: rest))
    (hstart : starter (before ++ s :: rest) = some s)
    (hskips : ¬ Skips (before ++ s :: rest)) : Runs s.2.ts 0 rest := by
  have hs := (starter_split hstart).1
  constructor
  · intro hz
    omega
  · intro p hp hz q hq
    apply Nat.le_of_not_lt
    intro hlt
    apply hskips
    have hin : ∀ x ∈ rest, x ∈ before ++ s :: rest := fun x hx =>
      List.mem_append_right _ (List.mem_cons_of_mem s hx)
    have hsp := (List.pairwise_cons.mp
      (List.pairwise_append.mp h.sorted).2.1).1 p hp
    refine ⟨s, hstart, by omega, ⟨p, hin p hp, ?_⟩, q, hin q hq, ?_⟩
    · unfold due at hz
      unfold Timestamp.nanos at hz hsp ⊢
      omega
    · unfold due at hz hlt
      unfold Timestamp.nanos at hz hlt hsp ⊢
      omega

/-- The timers fire for every second since the packet that starts them, each
once and in order, and before the packets that are not earlier. -/
structure TimersFire (log : List Event) : Prop where
  all : timers log = dueTimers (payloads log)
  onTime : OnTime log

/-- The same of the calls for packets. -/
def Fire (ps : List (Nat × UDPPkt)) : Prop :=
  timers (timed ⟨0, 0⟩ ps) = dueTimers ps ∧ OnTime (timed ⟨0, 0⟩ ps)

/-- Without timers nothing is late. -/
theorem onTime_untimed (ps : List (Nat × UDPPkt)) : OnTime (untimed ps) := by
  apply List.pairwise_map.mpr
  apply List.pairwise_of_forall
  intro p q r x u _ hq
  cases hq

/-- While all packets are of second 0, nothing is due and nothing fires. -/
theorem fire_of_zero (h : Ordered ps) (hstart : starter ps = none) :
    Fire ps := by
  have hzero : ∀ p ∈ ps, 0 ≤ p.2.ts.nanos ∧ p.2.ts.nanos < 1000000000 := by
    intro p hp
    have hsec : p.2.ts.sec = 0 := by
      simpa using List.find?_eq_none.mp hstart p hp
    have hsub := (h.stamped p hp).1
    unfold Timestamp.SubSecond at hsub
    unfold Timestamp.nanos
    omega
  have hlog : timed ⟨0, 0⟩ ps = untimed ps :=
    timed_of_zero h (m := 0) (by decide) (fun p hp => (hzero p hp).1)
      (fun p hp => (hzero p hp).2) ⟨0, 0⟩ (Or.inl rfl)
  constructor
  · rw [hlog, timers_untimed]
    unfold dueTimers
    rw [hstart]
  · rw [hlog]
    exact onTime_untimed ps

section Started

variable {before rest : List (Nat × UDPPkt)} {s : Nat × UDPPkt}
  (h : Ordered (before ++ s :: rest))
  (hstart : starter (before ++ s :: rest) = some s)
  (hbefore : ∀ p ∈ before, p.2.ts.sec = 0)

include h

/-- From the first packet on they are in order. -/
theorem Ordered.started : Ordered (s :: rest) where
  stamped := fun p hp => h.stamped p (List.mem_append_right _ hp)
  sorted := (List.pairwise_append.mp h.sorted).2.1

include hstart

omit h in
/-- What is due is due since the packet that starts the timers. -/
theorem dueTimers_eq :
    dueTimers (before ++ s :: rest)
      = ticks s.2.ts 0 (lastDue s.2.ts 0 rest) := by
  have hlast : lastDue s.2.ts 0 (before ++ s :: rest)
      = lastDue s.2.ts 0 rest := by
    have hzero : due s.2.ts s.2.ts = 0 := by
      unfold due
      omega
    unfold lastDue
    rw [List.getLast?_append_of_ne_nil _ (List.cons_ne_nil s rest),
      List.getLast?_cons]
    cases rest.getLast? with
    | none => exact hzero
    | some p => rfl
  unfold dueTimers
  rw [hstart]
  dsimp only
  rw [hlast]

include hbefore

/-- Timers that run on fire when they are due. -/
theorem fire_of_runs (hruns : Runs s.2.ts 0 rest) :
    Fire (before ++ s :: rest) := by
  have hstamp := h.stamped s (List.mem_append_right _ List.mem_cons_self)
  have hle := h.started.head_le
  have hticked : timed s.2.ts rest = ticked s.2.ts 0 rest := by
    have hrest := timed_eq_ticked hstamp rest 0 h.started.tail
      (fun p hp => by have hp := hle p hp; omega) hruns
    rwa [after_zero] at hrest
  have hlog := timed_start s rest hbefore ⟨0, 0⟩ rfl
  have hzero : ∀ p ∈ rest, 0 ≤ due s.2.ts p.2.ts :=
    fun p _ => Nat.zero_le _
  unfold Fire
  rw [hlog, hticked, dueTimers_eq hstart, timers_append,
    timers_cons_payload, timers_untimed]
  refine ⟨(timers_ticked rest 0 h.started.tail hzero).2, ?_⟩
  have htimer : ∀ b ∈ (Event.handlePayload s.1 s.2 :: ticked s.2.ts 0 rest),
      ∀ u, b = .onTimer u → s.2.ts.nanos < u.nanos := by
    intro b hb u hu
    rcases List.mem_cons.mp hb with heq | hmem
    · rw [heq] at hu
      cases hu
    · rw [hu] at hmem
      have hbehind := le_of_mem_ticked h.started.tail hzero hmem
      omega
  apply List.pairwise_append.mpr
  refine ⟨onTime_untimed before, ?_, ?_⟩
  · apply List.pairwise_cons.mpr
    refine ⟨?_, onTime_ticked rest 0 h.started.tail hzero⟩
    intro b hb r p u ha hu
    cases ha
    exact htimer b (List.mem_cons_of_mem _ hb) u hu
  · intro a ha b hb r p u hap hu
    obtain ⟨p', hp', heq⟩ := List.mem_map.mp ha
    rw [← heq] at hap
    cases hap
    have hps := (List.pairwise_append.mp h.sorted).2.2 p' hp' s
      List.mem_cons_self
    exact Int.lt_of_le_of_lt hps (htimer b hb u hu)

/-- Timers that skip do not. -/
theorem not_fire_of_skips (hskips : Skips (before ++ s :: rest)) :
    ¬ Fire (before ++ s :: rest) := by
  obtain ⟨f, hf, hneg, ⟨p, hp, hplo, hphi⟩, q, hq, hqlo⟩ := hskips
  have hfs : s = f := by
    rw [hstart] at hf
    exact Option.some.inj hf
  subst hfs
  have hstamp := h.stamped s (List.mem_append_right _ List.mem_cons_self)
  have hnil := h.not_before hbefore hneg
  have hsub := hstamp.1
  unfold Timestamp.SubSecond at hsub
  have hnanos : s.2.ts.nanos < 0 := by
    unfold Timestamp.nanos
    omega
  have hmem : ∀ x ∈ before ++ s :: rest, 0 ≤ x.2.ts.nanos → x ∈ rest := by
    intro x hx hpos
    rw [hnil] at hx
    rcases List.mem_cons.mp hx with heq | hin
    · rw [heq] at hpos
      omega
    · exact hin
  have hprest := hmem p hp (by omega)
  have hqrest := hmem q hq (by omega)
  have hlost : ∀ u ∈ timers (timed s.2.ts rest), u.sec ≠ 1 := by
    have hle := h.started.head_le
    have hrest := timed_lost hstamp rest 0 h.started.tail
      (fun x hx => by have hx := hle x hx; omega) (by omega)
      ⟨p, hprest, by unfold due; unfold Timestamp.nanos at *; omega⟩
    rwa [after_zero] at hrest
  intro hfire
  have hall := hfire.1
  rw [timed_start s rest hbefore ⟨0, 0⟩ rfl, dueTimers_eq hstart,
    timers_append, timers_cons_payload, timers_untimed, List.nil_append]
    at hall
  -- second 1 is due at `q`
  have hdue : (1 - s.2.ts.sec).toNat ≤ lastDue s.2.ts 0 rest := by
    have hlast := due_le_lastDue (f := s.2.ts) rest 0 h.started.tail q
      hqrest
    unfold due Timestamp.nanos at hlast
    unfold Timestamp.nanos at hqlo
    omega
  have hsecond : after s.2.ts (1 - s.2.ts.sec).toNat
      ∈ ticks s.2.ts 0 (lastDue s.2.ts 0 rest) :=
    after_mem_ticks (by omega) hdue
  rw [← hall] at hsecond
  apply hlost _ hsecond
  unfold after
  dsimp only
  omega

end Started

/-- The timers fire as they are due exactly if they skip none. -/
theorem fire_iff (h : Ordered ps) : Fire ps ↔ ¬ Skips ps := by
  cases hstart : starter ps with
  | none =>
      refine iff_of_true (fire_of_zero h hstart) ?_
      intro ⟨f, hf, _⟩
      rw [hstart] at hf
      cases hf
  | some s =>
      obtain ⟨-, before, rest, hsplit, hbefore⟩ := starter_split hstart
      subst hsplit
      constructor
      · exact fun hfire hskips =>
          not_fire_of_skips h hstart hbefore hskips hfire
      · exact fun hskips => fire_of_runs h hstart hbefore
          (runs_of_not_skips h hstart hskips)

-- ================================================================ whole files

variable {files : List Capture} {s : Mux}

/-- The packets delivered are those of the files, in the order of time. -/
theorem Merges.ordered (h : Merges files s) : Ordered (payloads s.log) where
  stamped := by
    intro p hp
    have htaken : p.2 ∈ Merge.takenOf p.1 s.merge.taken :=
      List.mem_map.mpr ⟨p, List.mem_filter.mpr ⟨hp, by simp⟩, rfl⟩
    exact stamped_of_mem_sources (r := p.1)
      (h.inv.whole p.1 ▸ List.mem_append_left _ htaken)
  sorted := h.inv.sorted

/-- The timers of a mux depend on the packets it has delivered. -/
theorem Merges.timersFire_iff (h : Merges files s) :
    TimersFire s.log ↔ ¬ Skips (payloads s.log) := by
  rw [← fire_iff h.ordered]
  unfold Fire
  rw [← h.log]
  exact ⟨fun hfire => ⟨hfire.all, hfire.onTime⟩,
    fun hfire => ⟨hfire.1, hfire.2⟩⟩

/-- All packets of the files. -/
def allPackets (files : List Capture) : List UDPPkt := files.flatMap source

/-- A packet is of one of the files. -/
theorem mem_allPackets {p : UDPPkt} :
    p ∈ allPackets files ↔ ∃ r, p ∈ sources files r := by
  unfold allPackets sources
  rw [List.mem_flatMap]
  constructor
  · intro ⟨f, hf, hp⟩
    obtain ⟨r, hr⟩ := List.mem_iff_getElem?.mp hf
    exact ⟨r, by rw [hr]; exact hp⟩
  · intro ⟨r, hp⟩
    cases hr : files[r]? with
    | none =>
        rw [hr] at hp
        cases hp
    | some f =>
        rw [hr] at hp
        exact ⟨f, List.mem_of_getElem? hr, hp⟩

/-- In the end no file has anything left. -/
theorem Merges.left_eq_nil (h : Merges files s) (hdone : s.pending = [])
    (r : Nat) : s.merge.left r = [] := by
  by_cases hr : r < s.readers.length
  · exact List.flatMap_eq_nil_iff.mp hdone r (List.mem_range.mpr hr)
  · have hwhole := h.inv.whole r
    have hnone : sources files r = [] := by
      unfold sources
      rw [List.getElem?_eq_none (by have hsize := h.size; omega)]
    rw [hnone] at hwhole
    exact (List.append_eq_nil_iff.mp hwhole).2

/-- In the end the packets delivered are all there are. -/
theorem Merges.mem_payloads (h : Merges files s) (hdone : s.pending = [])
    (p : UDPPkt) :
    (∃ q ∈ payloads s.log, q.2 = p) ↔ p ∈ allPackets files := by
  have hall := h.inv.done (h.left_eq_nil hdone)
  rw [mem_allPackets]
  constructor
  · intro ⟨q, hq, heq⟩
    refine ⟨q.1, ?_⟩
    rw [← hall q.1, ← heq]
    exact List.mem_map.mpr ⟨q, List.mem_filter.mpr ⟨hq, by simp⟩, rfl⟩
  · intro ⟨r, hr⟩
    rw [← hall r] at hr
    obtain ⟨q, hq, heq⟩ := List.mem_map.mp hr
    exact ⟨q, (List.mem_filter.mp hq).1, heq⟩

/-- The earliest packet is from before the epoch, timers that start with it
are at second 0 for some packet, and a second later for another. -/
def PassesEpoch (files : List Capture) : Prop :=
  ∃ f ∈ allPackets files, (∀ p ∈ allPackets files, f.time ≤ p.time)
    ∧ f.ts.sec < 0
    ∧ (∃ p ∈ allPackets files,
      f.ts.nsec ≤ p.time ∧ p.time < f.ts.nsec + 1000000000)
    ∧ ∃ p ∈ allPackets files, f.ts.nsec + 1000000000 ≤ p.time

/-- The timers skip something exactly if the files pass the epoch so. -/
theorem Merges.skips_iff (h : Merges files s) (hdone : s.pending = []) :
    Skips (payloads s.log) ↔ PassesEpoch files := by
  have hmem := h.mem_payloads hdone
  have hordered := h.ordered
  have hin : ∀ q ∈ payloads s.log, q.2 ∈ allPackets files :=
    fun q hq => (hmem q.2).mp ⟨q, hq, rfl⟩
  constructor
  · intro ⟨f, hf, hneg, ⟨p, hp, hplo, hphi⟩, q, hq, hqlo⟩
    obtain ⟨hfmem, hfirst⟩ := hordered.least_of_neg hf hneg
    refine ⟨f.2, hin f hfmem, ?_, hneg, ⟨p.2, hin p hp, hplo, hphi⟩,
      q.2, hin q hq, hqlo⟩
    intro x hx
    obtain ⟨y, hy, heq⟩ := (hmem x).mpr hx
    rw [← heq]
    exact hfirst y hy
  · intro ⟨f, hf, hleast, hneg, ⟨p, hp, hplo, hphi⟩, q, hq, hqlo⟩
    obtain ⟨f', hf', hff'⟩ := (hmem f).mpr hf
    obtain ⟨p', hp', hpp'⟩ := (hmem p).mpr hp
    obtain ⟨q', hq', hqq'⟩ := (hmem q).mpr hq
    cases hlog : payloads s.log with
    | nil =>
        rw [hlog] at hf'
        cases hf'
    | cons x xs =>
        rw [hlog] at hordered hf' hp' hq' hin
        -- the first packet has the time of the earliest
        have hxf : x.2.ts = f.ts := by
          have hle := hleast x.2 (hin x List.mem_cons_self)
          rw [← hff'] at hle ⊢
          exact (hordered.head_ts hf' hle).symm
        have hstart : starter (x :: xs) = some x := by
          apply List.find?_cons_of_pos
          rw [hxf]
          simpa using Int.ne_of_lt hneg
        refine ⟨x, hstart, hxf ▸ hneg, ⟨p', hp', ?_⟩, q', hq', ?_⟩
        · rw [hxf, hpp']
          exact ⟨hplo, hphi⟩
        · rw [hxf, hqq']
          exact hqlo

-- ================================================================ to the end

/-- So many calls of `read_next_packet`. -/
def reads (q : TopChoice) : Nat → Mux → Mux
  | 0, s => s
  | n + 1, s => reads q n (s.readNextPacket q).1

/-- The run lemma over calls of `read_packets`. -/
theorem Merges.reads (q : TopChoice) (n : Nat) :
    ∀ {s : Mux}, Merges files s → Merges files (Mux.reads q n s) := by
  induction n with
  | zero => exact fun h => h
  | succ n ih =>
      intro s h
      unfold Mux.reads
      rcases readNextPacket_cases q h.shape with
        ⟨-, heq⟩ | ⟨e, s', heq, hd⟩
      · rw [heq]
        exact ih h
      · rw [heq]
        exact ih (h.delivers hd).1

/-- At first all packets of the files remain. -/
theorem pending_initialReaderLoad (files : List Capture) :
    (initialReaderLoad files).pending = allPackets files := by
  obtain ⟨hlen, -, hleft⟩ := merge_initialReaderLoad files
  unfold pending allPackets
  rw [hlen, hleft, List.flatMap_def, List.flatMap_def]
  congr 1
  apply List.ext_getElem
  · simp
  · intro i h1 h2
    have hi : i < files.length := by simpa using h1
    simp [sources, hi]

/-- What reading the files to their end is to do. -/
structure ReadsInOrder (q : TopChoice) (files : List Capture) : Prop where
  ends : ∀ fuel, (allPackets files).length < fuel →
    ∃ s n, (initialReaderLoad files).readPackets q fuel (-1) = some (s, n)
      ∧ (∀ r, Merge.takenOf r (payloads s.log) = sources files r)
      ∧ (payloads s.log).Pairwise (fun a b => a.2.time ≤ b.2.time)
      ∧ TimersFire s.log
  single : ∀ n, ((reads q n (initialReaderLoad files)).queue.map
    PktEntry.reader).Nodup

/-- All but the timers holds of all files. -/
theorem reads_to_end (q : TopChoice) (files : List Capture) :
    ∃ s n, (∀ fuel, (allPackets files).length < fuel →
        (initialReaderLoad files).readPackets q fuel (-1) = some (s, n))
      ∧ Merges files s ∧ s.pending = [] := by
  have h := merges_initialReaderLoad files
  have hpending := pending_initialReaderLoad files
  have hstop := (times_initialReaderLoad files).1
  obtain ⟨s, hloop, hpassed⟩ := h.readLoop q (-1)
    ((allPackets files).length + 1) 0 (by rw [hpending]; omega)
  refine ⟨s, 0 + ((initialReaderLoad files).passes (-1) 0 : Nat), ?_,
    hpassed.merges, ?_⟩
  · intro fuel hfuel
    have hmore := readLoop_more q (-1) _
      (fuel - (allPackets files).length - 1)
      0 _ _ hloop
    have hsum : (allPackets files).length + 1
        + (fuel - (allPackets files).length - 1) = fuel := by omega
    rw [hsum] at hmore
    exact hmore
  · have hall : (initialReaderLoad files).passes (-1) 0
        = (initialReaderLoad files).pending.length + 1 :=
      passes_of_all (by rw [hstop]) (by decide) 0
    apply List.eq_nil_of_length_eq_zero
    rw [hpassed.pending, hall]
    omega

/-- The files are read in order exactly if they do not pass the epoch. -/
theorem readsInOrder_iff (q : TopChoice) (files : List Capture) :
    ReadsInOrder q files ↔ ¬ PassesEpoch files := by
  obtain ⟨s, n, hread, hmerges, hdone⟩ := reads_to_end q files
  have htimers := hmerges.timersFire_iff.trans
    (not_congr (hmerges.skips_iff hdone))
  constructor
  · intro h
    obtain ⟨s', n', hread', -, -, hfire⟩ := h.ends _ (Nat.lt_succ_self _)
    rw [hread _ (Nat.lt_succ_self _)] at hread'
    cases hread'
    exact htimers.mp hfire
  · intro hepoch
    refine ⟨fun fuel hfuel => ⟨s, n, hread fuel hfuel, ?_,
      hmerges.inv.sorted, htimers.mpr hepoch⟩, fun k =>
        ((merges_initialReaderLoad files).reads q k).shape.single⟩
    exact hmerges.inv.done (hmerges.left_eq_nil hdone)

/-- Packets 1.5 s before the epoch, and 0.8 and 5 s after it. -/
def aroundEpoch : Capture :=
  { onePacket with
    packets := [some ⟨0, 0, 0, 0, [], ⟨-2, 500000000⟩⟩, none,
      some ⟨0, 0, 0, 0, [], ⟨0, 800000000⟩⟩,
      some ⟨0, 0, 0, 0, [], ⟨5, 0⟩⟩]
    stamped := by
      unfold Timestamp.SubSecond
      decide
    sorted := by decide }

/-- The timers of seconds 1 to 4 are lost. -/
theorem not_readsInOrder_aroundEpoch :
    ¬ ∀ (q : TopChoice) (files : List Capture), ReadsInOrder q files := by
  intro h
  obtain ⟨s, n, hread, -, -, hfire⟩ :=
    (h .first [aroundEpoch]).ends 4 (by decide)
  have hall := hfire.all
  have hlost : ((initialReaderLoad [aroundEpoch]).readPackets .first 4
      (-1)).map (fun r => timers r.1.log == dueTimers (payloads r.1.log))
      = some false := by decide
  rw [hread] at hlost
  simp [hall] at hlost

end Mux

end TradingEngine.Net
