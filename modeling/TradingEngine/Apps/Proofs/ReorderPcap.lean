/-
`reorderpcap` sorts stably, except that a file with packets from before the
epoch never gets through a chunked pass.

A chunked pass holds back a batch of records and writes the least of them
for each one it reads. What is written and what is held back are, together
and in this order, sorted at all times (`Inv.sorted`): a record that belongs
before what has been written goes to the top, and the pass gives up. If
fewer than a batch of larger records come before each, the top is the least
of all that is to come (`top_le_unread`), and nothing makes the pass give up
but `last_ts`, which starts at the epoch.

# Passes

A pass over the whole file at once is a sort, and a stable one, as the queue
gives records of one time in the order in which they were read. A chunked
pass comes to the same wherever it gets to the end, because both are sorted
and have the same records in them. So the condition is all about getting to
the end: it is proved once for times that are no earlier than the start of
`last_ts`, and a packet from before the epoch is written at some point, at
which the pass gives up.
-/
import TradingEngine.Apps.ReorderPcap
import TradingEngine.Core.Proofs.Timestamp
import TradingEngine.Lib.StableSort
import Mathlib.Order.Basic

namespace TradingEngine.Apps

open OE (Timestamp)
open Lib (Before DisplacedBelow StablySorted before_or_before
  stablySorted_of_before)

-- =================================================================== records

namespace PcapRecord

/-- The time of a packet in nanoseconds. -/
def time (r : PcapRecord) : Int := r.sec * 1000000000 + r.usec

theorem ts_eq (r : PcapRecord) : r.ts = ⟨r.sec, r.usec⟩ := by
  have hsec := r.sec_fits
  have husec := r.usec_lt
  have hdiv : r.usec / 1000000000 = 0 := by omega
  have hmod : r.usec % 1000000000 = r.usec := by omega
  unfold ts
  rw [Timestamp.make_of_nonneg (by omega) (by omega), hdiv, hmod,
    Int.add_zero, Timestamp.signed_eq hsec.1 hsec.2]

theorem ts_nanos (r : PcapRecord) : r.ts.nanos = r.time := by
  rw [ts_eq]
  rfl

theorem ts_subSecond (r : PcapRecord) : r.ts.SubSecond := by
  rw [ts_eq]
  exact r.usec_lt

/-- Before the epoch. -/
theorem time_neg_iff (r : PcapRecord) : r.time < 0 ↔ r.sec < 0 := by
  have husec := r.usec_lt
  unfold time
  omega

end PcapRecord

namespace Record

/-- The time of the record's packet. -/
def time (r : Record) : Int := r.packet.time

/-- The record was made from its packet. -/
def Stamped (r : Record) : Prop := r.ts = r.packet.ts

/-- `operator>` is the order of (time, sequence number). -/
theorem gt_iff {a b : Record} (ha : a.Stamped) (hb : b.Stamped) :
    a.gt b = true ↔ Before time seqnum b a := by
  have hsub := a.packet.ts_subSecond
  have hsub' := b.packet.ts_subSecond
  unfold gt Before time
  rw [ha, hb]
  simp only [Bool.or_eq_true, Bool.and_eq_true, decide_eq_true_eq,
    Timestamp.gt_iff_nanos hsub hsub', Timestamp.eq_iff_nanos hsub hsub',
    PcapRecord.ts_nanos, gt_iff_lt]
  rw [eq_comm]

end Record

-- ===================================================================== queue

theorem emplace_perm (r : Record) (rs : Records) :
    (rs.emplace r).Perm (r :: rs) := by
  induction rs with
  | nil => exact List.Perm.refl _
  | cons q qs ih =>
      unfold Records.emplace
      split
      case isTrue => exact List.Perm.refl _
      case isFalse => exact (ih.cons q).trans (List.Perm.swap r q qs)

theorem length_emplace (r : Record) (rs : Records) :
    (rs.emplace r).length = rs.length + 1 := (emplace_perm r rs).length_eq

/-- A record with the last number goes to its place. -/
theorem emplace_sorted {r : Record} {rs : Records} (hr : r.Stamped)
    (hrs : ∀ q ∈ rs, q.Stamped ∧ q.seqnum < r.seqnum)
    (h : rs.Pairwise (Before Record.time Record.seqnum)) :
    (rs.emplace r).Pairwise (Before Record.time Record.seqnum) := by
  induction rs with
  | nil => exact List.pairwise_singleton _ _
  | cons q qs ih =>
      obtain ⟨hq, hqs⟩ := List.pairwise_cons.mp h
      have hthis := hrs q List.mem_cons_self
      unfold Records.emplace
      split
      case isTrue hgt =>
        have hbefore := (Record.gt_iff hthis.1 hr).mp hgt
        apply List.pairwise_cons.mpr
        refine ⟨fun x hx => ?_, h⟩
        rcases List.mem_cons.mp hx with heq | hmem
        · rw [heq]
          exact hbefore
        · exact hbefore.trans (hq x hmem)
      case isFalse hle =>
        have hbefore : Before Record.time Record.seqnum q r := by
          have hcmp : Before Record.time Record.seqnum q r
              ∨ r.time < q.time := before_or_before hthis.2
          rcases hcmp with hb | hlt
          · exact hb
          · exact absurd ((Record.gt_iff hthis.1 hr).mpr (Or.inl hlt)) hle
        apply List.pairwise_cons.mpr
        refine ⟨fun x hx => ?_, ?_⟩
        · rcases List.mem_cons.mp ((emplace_perm r qs).mem_iff.mp hx)
            with heq | hmem
          · rw [heq]
            exact hbefore
          · exact hq x hmem
        · exact ih (fun x hx => hrs x (List.mem_cons_of_mem q hx)) hqs

-- =================================================================== a chunk

namespace Pass1

/-- The record that `ingest` makes of a packet. -/
def next (s : Pass1) (pkt : PcapRecord) : Record := ⟨pkt.ts, s.seqnum, pkt⟩

/-- A batch is held back once the packet is in. -/
def Fills (bs : Int) (s : Pass1) : Prop :=
  bs > 0 ∧ (s.recs.length + 1 : Int) ≥ bs

/-- All that a pass of the loop does. -/
theorem step_cases (bs : Int) (s : Pass1) (pkt : PcapRecord) :
    (¬ Fills bs s ∧ step bs s pkt = .ok (s.ingest pkt))
    ∨ (Fills bs s ∧ ∃ r recs, s.recs.emplace (s.next pkt) = r :: recs
      ∧ ((s.lastTs.gt r.ts = true ∧ step bs s pkt = .error (s.seqnum + 1))
        ∨ (s.lastTs.gt r.ts = false ∧ step bs s pkt = .ok
          { recs := recs, seqnum := s.seqnum + 1, lastTs := r.ts
            dumped := s.dumped ++ [r] }))) := by
  have hlen : ((s.ingest pkt).recs.length : Int) = s.recs.length + 1 := by
    unfold ingest
    rw [length_emplace]
    omega
  unfold step Fills
  dsimp only
  rw [hlen]
  cases hrecs : (s.ingest pkt).recs with
  | nil =>
      rw [hrecs] at hlen
      simp only [List.length_nil] at hlen
      omega
  | cons r recs =>
      dsimp only
      by_cases hfull : bs > 0 ∧ (s.recs.length + 1 : Int) ≥ bs
      · refine Or.inr ⟨hfull, r, recs, hrecs, ?_⟩
        rw [if_pos hfull]
        have hts : (s.ingest pkt).lastTs = s.lastTs := rfl
        rw [hts]
        cases hgt : s.lastTs.gt r.ts with
        | true => exact Or.inl ⟨rfl, if_pos rfl⟩
        | false => exact Or.inr ⟨rfl, if_neg Bool.false_ne_true⟩
      · exact Or.inl ⟨hfull, if_neg hfull⟩

/-- After the packets of `seen`, which are the records made so far. -/
structure Inv (bs : Int) (seen : List Record) (s : Pass1) : Prop where
  numbered : seen.Pairwise fun a b => a.seqnum < b.seqnum
  below : ∀ r ∈ seen, r.Stamped ∧ r.seqnum < s.seqnum
  count : s.seqnum = seen.length
  perm : (s.dumped ++ s.recs).Perm seen
  sorted :
    (s.dumped ++ s.recs).Pairwise (Before Record.time Record.seqnum)
  last : ∀ o ∈ s.dumped, o.time ≤ s.lastTs.nanos
  lastSub : s.lastTs.SubSecond
  /-- Nothing is written until a batch is there. -/
  held : s.dumped = [] ∨ bs > 0 ∧ (s.recs.length + 1 : Int) ≥ bs

theorem inv_init (bs : Int) : Inv bs [] {} where
  numbered := .nil
  below := by simp
  count := rfl
  perm := .refl _
  sorted := List.Pairwise.nil
  last := by simp
  lastSub := by
    unfold Timestamp.SubSecond
    decide
  held := Or.inl rfl

variable {bs : Int} {seen : List Record} {s s' : Pass1} {pkt : PcapRecord}

theorem stamped_next (s : Pass1) (pkt : PcapRecord) :
    (s.next pkt).Stamped := rfl

/-- The numbers of the records, with the new one last. -/
theorem Inv.seen_next (h : Inv bs seen s) (pkt : PcapRecord) :
    (seen ++ [s.next pkt]).Pairwise (fun a b => a.seqnum < b.seqnum)
      ∧ ∀ r ∈ seen ++ [s.next pkt],
        r.Stamped ∧ r.seqnum < s.seqnum + 1 := by
  constructor
  · apply List.pairwise_append.mpr
    refine ⟨h.numbered, List.pairwise_singleton _ _, ?_⟩
    intro a ha b hb
    rw [List.mem_singleton.mp hb]
    exact (h.below a ha).2
  · intro r hr
    rcases List.mem_append.mp hr with hold | hnew
    · have hbelow := h.below r hold
      exact ⟨hbelow.1, by omega⟩
    · rw [List.mem_singleton.mp hnew]
      exact ⟨stamped_next s pkt, Int.lt_succ _⟩

/-- The queue with the new record. -/
theorem Inv.emplaced (h : Inv bs seen s) (pkt : PcapRecord) :
    (s.recs.emplace (s.next pkt)).Pairwise
        (Before Record.time Record.seqnum)
      ∧ (s.dumped ++ s.recs.emplace (s.next pkt)).Perm
        (seen ++ [s.next pkt]) := by
  constructor
  · refine emplace_sorted (stamped_next s pkt) (fun q hq => ?_)
      (List.pairwise_append.mp h.sorted).2.1
    exact h.below q (h.perm.mem_iff.mp (List.mem_append_right _ hq))
  · calc s.dumped ++ s.recs.emplace (s.next pkt)
        |>.Perm (s.dumped ++ (s.next pkt :: s.recs)) :=
          (emplace_perm _ _).append_left _
      _ |>.Perm (s.next pkt :: (s.dumped ++ s.recs)) :=
          List.perm_middle
      _ |>.Perm (seen ++ [s.next pkt]) :=
          (h.perm.cons _).trans (List.perm_append_singleton _ _).symm

/-- What has been written stands before the whole queue, as long as the top
is no earlier than what was written last. -/
theorem Inv.sorted_emplaced (h : Inv bs seen s)
    (htop : ∀ q ∈ s.recs.emplace (s.next pkt),
      s.dumped ≠ [] → s.lastTs.nanos ≤ q.time) :
    (s.dumped ++ s.recs.emplace (s.next pkt)).Pairwise
      (Before Record.time Record.seqnum) := by
  obtain ⟨hdumped, hrecs, hacross⟩ := List.pairwise_append.mp h.sorted
  refine List.pairwise_append.mpr ⟨hdumped, (h.emplaced pkt).1, ?_⟩
  intro o ho q hq
  have hle : o.time ≤ q.time :=
    Int.le_trans (h.last o ho) (htop q hq (List.ne_nil_of_mem ho))
  rcases List.mem_cons.mp ((emplace_perm _ _).mem_iff.mp hq)
    with hnew | hold
  · have hseen := h.perm.mem_iff.mp (List.mem_append_left s.recs ho)
    have hnum : o.seqnum < q.seqnum := by
      rw [hnew]
      exact (h.below o hseen).2
    have hcmp : Before Record.time Record.seqnum o q ∨ q.time < o.time :=
      before_or_before hnum
    rcases hcmp with hbefore | hlt
    · exact hbefore
    · omega
  · exact hacross o ho q hold

/-- The top of the queue is first in it. -/
theorem Inv.top_le (h : Inv bs seen s) {r : Record} {recs : Records}
    (htop : s.recs.emplace (s.next pkt) = r :: recs) :
    ∀ q ∈ s.recs.emplace (s.next pkt), r.time ≤ q.time := by
  have hsorted := (h.emplaced pkt).1
  rw [htop] at hsorted
  intro q hq
  rw [htop] at hq
  rcases List.mem_cons.mp hq with heq | hmem
  · rw [heq]
  · exact ((List.pairwise_cons.mp hsorted).1 q hmem).key_le

theorem Inv.top_stamped (h : Inv bs seen s) {r : Record} {recs : Records}
    (htop : s.recs.emplace (s.next pkt) = r :: recs) : r.Stamped := by
  have hmem : r ∈ s.dumped ++ s.recs.emplace (s.next pkt) := by
    rw [htop]
    simp
  exact ((h.seen_next pkt).2 r
    ((h.emplaced pkt).2.mem_iff.mp hmem)).1

theorem Inv.top_nanos (h : Inv bs seen s) {r : Record} {recs : Records}
    (htop : s.recs.emplace (s.next pkt) = r :: recs) :
    r.ts.nanos = r.time := by
  have hstamped := h.top_stamped htop
  unfold Record.Stamped at hstamped
  rw [hstamped, PcapRecord.ts_nanos]
  rfl

/-- The pass gives up when the top is earlier than what was written. -/
theorem Inv.gt_top_iff (h : Inv bs seen s) {r : Record} {recs : Records}
    (htop : s.recs.emplace (s.next pkt) = r :: recs) :
    s.lastTs.gt r.ts = true ↔ r.time < s.lastTs.nanos := by
  have hstamped := h.top_stamped htop
  unfold Record.Stamped at hstamped
  rw [hstamped, Timestamp.gt_iff_nanos h.lastSub r.packet.ts_subSecond,
    PcapRecord.ts_nanos]
  rfl

theorem map_seen_next (seen : List Record) (s : Pass1) (pkt : PcapRecord)
    (pkts : List PcapRecord) :
    (seen ++ [s.next pkt]).map Record.packet ++ pkts
      = seen.map Record.packet ++ pkt :: pkts := by
  rw [List.map_append, List.append_assoc]
  rfl

/-- A packet that is only put into the queue. -/
theorem Inv.ingest (h : Inv bs seen s) (hfills : ¬ Fills bs s) :
    Inv bs (seen ++ [s.next pkt]) (s.ingest pkt) := by
  have hnone : s.dumped = [] := h.held.resolve_right hfills
  exact
    { numbered := (h.seen_next pkt).1
      below := (h.seen_next pkt).2
      count := by
        rw [List.length_append, List.length_singleton, Int.natCast_add,
          ← h.count]
        rfl
      perm := (h.emplaced pkt).2
      sorted := h.sorted_emplaced fun _ _ hne => absurd hnone hne
      last := h.last
      lastSub := h.lastSub
      held := Or.inl hnone }

/-- A packet for which the top is written. -/
theorem Inv.emit (h : Inv bs seen s) (hfills : Fills bs s) {r : Record}
    {recs : Records} (htop : s.recs.emplace (s.next pkt) = r :: recs)
    (hle : s.lastTs.gt r.ts = false) :
    Inv bs (seen ++ [s.next pkt])
      { recs := recs, seqnum := s.seqnum + 1, lastTs := r.ts
        dumped := s.dumped ++ [r] } := by
  have hge : s.lastTs.nanos ≤ r.time := by
    have hnot := (not_congr (h.gt_top_iff htop)).mp (by simp [hle])
    omega
  have hlast := h.top_nanos htop
  have hlen : s.recs.length = recs.length := by
    have hlen := length_emplace (s.next pkt) s.recs
    rw [htop, List.length_cons] at hlen
    omega
  have hall : s.dumped ++ [r] ++ recs
      = s.dumped ++ s.recs.emplace (s.next pkt) := by
    rw [htop]
    simp
  exact
    { numbered := (h.seen_next pkt).1
      below := (h.seen_next pkt).2
      count := by
        rw [List.length_append, List.length_singleton, Int.natCast_add,
          ← h.count]
        rfl
      perm := hall ▸ (h.emplaced pkt).2
      sorted := hall ▸ h.sorted_emplaced fun q hq _ =>
        Int.le_trans hge (h.top_le htop q hq)
      last := by
        intro o ho
        dsimp only at ho ⊢
        rw [hlast]
        rcases List.mem_append.mp ho with hold | hnew
        · exact Int.le_trans (h.last o hold) hge
        · rw [List.mem_singleton.mp hnew]
      lastSub := by
        have hstamped := h.top_stamped htop
        unfold Record.Stamped at hstamped
        dsimp only
        rw [hstamped]
        exact r.packet.ts_subSecond
      held := Or.inr ⟨hfills.1, by
        have hroom := hfills.2
        dsimp only
        omega⟩ }

/-- Every pass of the loop that goes on keeps the invariant. -/
theorem Inv.step (h : Inv bs seen s) (hs : step bs s pkt = .ok s') :
    Inv bs (seen ++ [s.next pkt]) s' := by
  rcases step_cases bs s pkt with ⟨hfills, heq⟩ | ⟨hfills, r, recs, htop, hgo⟩
  · rw [heq] at hs
    cases hs
    exact h.ingest hfills
  · rcases hgo with ⟨-, heq⟩ | ⟨hle, heq⟩
    · rw [heq] at hs
      cases hs
    · rw [heq] at hs
      cases hs
      exact h.emit hfills htop hle

/-- So does the loop, which takes every packet in. -/
theorem Inv.loop (h : Inv bs seen s) {pkts : List PcapRecord}
    (hs : loop bs s pkts = .ok s') :
    ∃ more, more.map Record.packet = pkts ∧ Inv bs (seen ++ more) s' := by
  induction pkts generalizing seen s with
  | nil =>
      cases hs
      exact ⟨[], rfl, by simpa using h⟩
  | cons pkt pkts ih =>
      unfold Pass1.loop at hs
      split at hs
      case h_1 => cases hs
      case h_2 s1 hstep =>
        obtain ⟨more, hmap, hinv⟩ := ih (h.step hstep) hs
        refine ⟨s.next pkt :: more, ?_, ?_⟩
        · rw [List.map_cons, hmap]
          rfl
        · simpa using hinv

/-- A pass that gets to the end of the file has sorted it. -/
theorem Inv.stablySorted (h : Inv bs seen s) :
    StablySorted PcapRecord.time (seen.map Record.packet) s.drain :=
  StablySorted.map (stablySorted_of_before h.numbered h.perm h.sorted)

theorem loop_stablySorted {p : List PcapRecord}
    (hs : loop bs {} p = .ok s) :
    StablySorted PcapRecord.time p s.drain := by
  obtain ⟨seen, hmap, hinv⟩ := (inv_init bs).loop hs
  rw [← hmap]
  exact hinv.stablySorted

-- ============================================================ giving up

/-- A pass that gives up returns how many packets it has taken in. -/
theorem Inv.loop_error (h : Inv bs seen s) {pkts : List PcapRecord}
    {e : Int} (hs : Pass1.loop bs s pkts = .error e) : bs > 0 ∧ e > 0 := by
  induction pkts generalizing seen s with
  | nil => cases hs
  | cons pkt pkts ih =>
      unfold Pass1.loop at hs
      split at hs
      case h_1 e1 hstep =>
        cases hs
        rcases step_cases bs s pkt with
          ⟨-, heq⟩ | ⟨hfills, r, recs, -, ⟨-, heq⟩ | ⟨-, heq⟩⟩
        · rw [heq] at hstep
          cases hstep
        · rw [heq] at hstep
          cases hstep
          have hcount := h.count
          exact ⟨hfills.1, by omega⟩
        · rw [heq] at hstep
          cases hstep
      case h_2 s1 hstep => exact ih (h.step hstep) hs

/-- Fewer than a batch of larger records come before any. -/
abbrev Displaced (bs : Int) (p : List PcapRecord) : Prop :=
  DisplacedBelow PcapRecord.time bs.toNat p

/-- Under the bound, what is on top of a full queue is the least of all
that has not been written, read or not. -/
theorem top_le_unread (h : Inv bs seen s) (hfills : Fills bs s) {r : Record}
    {recs : Records} (htop : s.recs.emplace (s.next pkt) = r :: recs)
    {pkts : List PcapRecord}
    (hbound : Displaced bs (seen.map Record.packet ++ pkt :: pkts)) :
    ∀ x ∈ pkts, r.time ≤ x.time := by
  let queue := s.recs.emplace (s.next pkt)
  have hperm : (seen.map Record.packet ++ [pkt]).Perm
      (s.dumped.map Record.packet ++ queue.map Record.packet) := by
    have hall := ((h.emplaced pkt).2.map Record.packet).symm
    rw [List.map_append, List.map_append] at hall
    exact hall
  have hlen : bs.toNat ≤ (queue.map Record.packet).length := by
    have hroom := hfills.2
    rw [List.length_map, length_emplace]
    omega
  have hkept : ∀ x ∈ queue.map Record.packet, r.time ≤ x.time := by
    intro x hx
    obtain ⟨q, hq, hqx⟩ := List.mem_map.mp hx
    rw [← hqx]
    exact h.top_le htop q hq
  have hsplit : seen.map Record.packet ++ pkt :: pkts
      = seen.map Record.packet ++ [pkt] ++ pkts := by simp
  rw [hsplit] at hbound
  exact hbound.le_of_window hperm hlen hkept

/-- Under the bound, a pass whose `last_ts` is no later than anything still
to be written gets to the end. -/
theorem loop_ok_of_bound (h : Inv bs seen s) {pkts : List PcapRecord}
    (hbound : Displaced bs (seen.map Record.packet ++ pkts))
    (hrecs : ∀ q ∈ s.recs, s.lastTs.nanos ≤ q.time)
    (hpkts : ∀ x ∈ pkts, s.lastTs.nanos ≤ x.time) :
    ∃ s', loop bs s pkts = .ok s' := by
  induction pkts generalizing seen s with
  | nil => exact ⟨s, rfl⟩
  | cons pkt pkts ih =>
      have hmap := map_seen_next seen s pkt pkts
      have hqueue : ∀ q ∈ s.recs.emplace (s.next pkt),
          s.lastTs.nanos ≤ q.time := by
        intro q hq
        rcases List.mem_cons.mp ((emplace_perm _ _).mem_iff.mp hq)
          with hnew | hold
        · rw [hnew]
          exact hpkts pkt List.mem_cons_self
        · exact hrecs q hold
      unfold Pass1.loop
      rcases step_cases bs s pkt with
        ⟨hfills, heq⟩ | ⟨hfills, r, recs, htop, hgo⟩
      · rw [heq]
        exact ih (h.ingest hfills) (hmap ▸ hbound) hqueue
          fun x hx => hpkts x (List.mem_cons_of_mem _ hx)
      · have hle : s.lastTs.gt r.ts = false := by
          rw [Bool.eq_false_iff, ne_eq, h.gt_top_iff htop]
          have hr := hqueue r (htop ▸ List.mem_cons_self)
          omega
        have hgo := (hgo.resolve_left fun hgt => by simp [hle] at hgt).2
        have hinv := h.emit hfills htop hle
        have hlast := h.top_nanos htop
        rw [hgo]
        refine ih hinv (hmap ▸ hbound) (fun q hq => ?_) (fun x hx => ?_)
        · dsimp only
          rw [hlast]
          exact h.top_le htop q (htop ▸ List.mem_cons_of_mem r hq)
        · dsimp only
          rw [hlast]
          exact top_le_unread h hfills htop hbound x hx

/-- Under the bound, a chunked pass over a packet from before the epoch
gives up with the first record it would write. -/
theorem loop_error_of_neg (h : Inv bs seen s) {pkts : List PcapRecord}
    (hbound : Displaced bs (seen.map Record.packet ++ pkts))
    (hstart : s.lastTs = ⟨0, 0⟩) (hbs : bs > 0)
    (hroom : ¬ (s.recs.length : Int) ≥ bs)
    (hlen : (s.recs.length + pkts.length : Int) ≥ bs)
    (hneg : (∃ q ∈ s.recs, q.time < 0) ∨ ∃ x ∈ pkts, x.time < 0) :
    ∃ e, loop bs s pkts = .error e := by
  induction pkts generalizing seen s with
  | nil =>
      simp only [List.length_nil] at hlen
      omega
  | cons pkt pkts ih =>
      have hmap := map_seen_next seen s pkt pkts
      have hneg' : (∃ q ∈ s.recs.emplace (s.next pkt), q.time < 0)
          ∨ ∃ x ∈ pkts, x.time < 0 := by
        have hmem := fun q => (emplace_perm (s.next pkt) s.recs).mem_iff
          (a := q)
        rcases hneg with ⟨q, hq, hlt⟩ | ⟨x, hx, hlt⟩
        · exact Or.inl ⟨q, (hmem q).mpr (List.mem_cons_of_mem _ hq), hlt⟩
        · rcases List.mem_cons.mp hx with heq | hin
          · refine Or.inl ⟨s.next pkt, (hmem _).mpr List.mem_cons_self, ?_⟩
            rw [heq] at hlt
            exact hlt
          · exact Or.inr ⟨x, hin, hlt⟩
      unfold Pass1.loop
      rcases step_cases bs s pkt with
        ⟨hfills, heq⟩ | ⟨hfills, r, recs, htop, hgo⟩
      · rw [heq]
        have hqlen := length_emplace (s.next pkt) s.recs
        have hstep : ¬ ((s.ingest pkt).recs.length : Int) ≥ bs := by
          unfold Fills at hfills
          unfold Pass1.ingest Pass1.next at *
          dsimp only
          omega
        refine ih (h.ingest hfills) (hmap ▸ hbound) hstart hstep ?_ hneg'
        rw [List.length_cons] at hlen
        unfold Pass1.ingest Pass1.next at *
        dsimp only
        omega
      · have hlt : r.time < 0 := by
          rcases hneg' with ⟨q, hq, hlt⟩ | ⟨x, hx, hlt⟩
          · exact Int.lt_of_le_of_lt (h.top_le htop q hq) hlt
          · exact Int.lt_of_le_of_lt
              (top_le_unread h hfills htop hbound x hx) hlt
        have hgt : s.lastTs.gt r.ts = true := by
          rw [h.gt_top_iff htop, hstart]
          exact hlt
        have hgo := (hgo.resolve_right fun hle => by simp [hgt] at hle).2
        rw [hgo]
        exact ⟨_, rfl⟩

end Pass1

-- ===================================================================== pass1

/-- `pass1` sorts the file or says how far it got. -/
theorem pass1_cases (p : List PcapRecord) (bs : Int) :
    ((pass1 p bs).ret = 0
      ∧ ∃ out, (pass1 p bs).output = some out
        ∧ StablySorted PcapRecord.time p out)
    ∨ (bs > 0 ∧ (pass1 p bs).ret > 0 ∧ (pass1 p bs).output = none) := by
  unfold pass1
  cases hloop : Pass1.loop bs {} p with
  | ok s => exact Or.inl ⟨rfl, _, rfl, Pass1.loop_stablySorted hloop⟩
  | error e =>
      obtain ⟨hbs, he⟩ := (Pass1.inv_init bs).loop_error hloop
      exact Or.inr ⟨hbs, he, rfl⟩

/-- A whole file goes through, whatever its times. -/
theorem pass1_unchunked (p : List PcapRecord) {bs : Int} (h : bs ≤ 0) :
    (pass1 p bs).ret = 0 := by
  rcases pass1_cases p bs with hok | hgave
  · exact hok.1
  · omega

/-- A file of less than a batch is held back as a whole. -/
theorem loop_short (bs : Int) (s : Pass1) (p : List PcapRecord)
    (h : (s.recs.length + p.length : Int) < bs) :
    ∃ s', Pass1.loop bs s p = .ok s' := by
  induction p generalizing s with
  | nil => exact ⟨s, rfl⟩
  | cons pkt pkts ih =>
      rw [List.length_cons] at h
      unfold Pass1.loop
      rcases Pass1.step_cases bs s pkt with ⟨-, heq⟩ | ⟨hfills, -⟩
      · have hlen := length_emplace (s.next pkt) s.recs
        rw [heq]
        apply ih
        unfold Pass1.ingest
        unfold Pass1.next at hlen
        dsimp only
        omega
      · have hroom := hfills.2
        omega

/-- The pass is over the whole file at once, or no packet is from before the
epoch, or the batch is too small for the file anyway. -/
def Chunkable (p : List PcapRecord) (bs : Int) : Prop :=
  bs ≤ 0 ∨ p.length < bs ∨ (∀ pkt ∈ p, 0 ≤ pkt.sec)
    ∨ ¬ Pass1.Displaced bs p

/-- Under the bound, `pass1` gets through exactly the chunkable files. -/
theorem pass1_ret_iff {p : List PcapRecord} {bs : Int}
    (hbound : Pass1.Displaced bs p) :
    (pass1 p bs).ret = 0 ↔ Chunkable p bs := by
  have hof : (∃ s, Pass1.loop bs {} p = .ok s) → (pass1 p bs).ret = 0 := by
    intro ⟨s, hs⟩
    unfold pass1
    rw [hs]
  constructor
  · intro hret
    apply Classical.byContradiction
    intro hnot
    unfold Chunkable at hnot
    simp only [not_or, not_not, Classical.not_forall] at hnot
    obtain ⟨hbs, hlen, ⟨pkt, hpkt, hsec⟩, -⟩ := hnot
    have hneg : pkt.time < 0 := pkt.time_neg_iff.mpr (by omega)
    obtain ⟨e, he⟩ := Pass1.loop_error_of_neg (Pass1.inv_init bs) hbound
      rfl (by omega) (by simp only [List.length_nil]; omega)
      (by simp only [List.length_nil]; omega) (Or.inr ⟨pkt, hpkt, hneg⟩)
    have hpos := (Pass1.inv_init bs).loop_error he
    unfold pass1 at hret
    rw [he] at hret
    dsimp only at hret
    omega
  · intro h
    rcases h with hbs | hshort | hepoch | hover
    · exact pass1_unchunked p hbs
    · exact hof (loop_short bs {} p (by
        simp only [List.length_nil]
        omega))
    · apply hof
      apply Pass1.loop_ok_of_bound (Pass1.inv_init bs) hbound
      · intro q hq
        cases hq
      · intro pkt hpkt
        have hsec := hepoch pkt hpkt
        have hneg := pkt.time_neg_iff
        have hstart : ({} : Pass1).lastTs.nanos = 0 := rfl
        omega
    · exact absurd hbound hover

-- ====================================================================== main

/-- The passes come to an end, each being one less. -/
theorem passes_end (p : List PcapRecord) (noFallback : Bool) :
    ∀ (fuel : Nat) (remaining batchSize : Int), remaining.toNat < fuel →
      ∃ code, passes p noFallback fuel remaining batchSize = some code := by
  intro fuel
  induction fuel with
  | zero =>
      intro remaining batchSize h
      omega
  | succ fuel ih =>
      intro remaining batchSize h
      unfold passes
      split
      case isTrue => exact ⟨_, rfl⟩
      case isFalse =>
        dsimp only
        by_cases hrem : remaining > 0
        · rw [if_pos hrem]
          split
          · exact ⟨_, rfl⟩
          · split
            · exact ⟨_, rfl⟩
            · exact ih _ _ (by omega)
        · -- a pass over the whole file does not fail
          rw [if_neg hrem, if_pos (pass1_unchunked p (Int.le_refl 0))]
          exact ⟨_, rfl⟩

theorem main_ends (p : List PcapRecord) (numPasses chunkSize : Int)
    (noFallback : Bool) {fuel : Nat} (h : numPasses.toNat < fuel) :
    ∃ code, main p numPasses chunkSize noFallback fuel = some code := by
  have hend : ∀ remaining batchSize : Int, remaining ≤ numPasses ∨
      remaining = 0 → ∃ code, (if batchSize = 0 ∧ noFallback = true then
        some .failure else passes p noFallback fuel remaining batchSize)
          = some code := by
    intro remaining batchSize hle
    split
    case isTrue => exact ⟨_, rfl⟩
    case isFalse => exact passes_end p noFallback fuel _ _ (by omega)
  unfold main
  dsimp only
  split
  case isTrue => exact ⟨_, rfl⟩
  case isFalse =>
    apply hend
    split
    · exact Or.inr rfl
    · exact Or.inl (Int.le_refl _)

/-- What `reorderpcap` is to do with a file and a batch size. -/
structure Reorders (p : List PcapRecord) (bs : Int) : Prop where
  sorted : (pass1 p bs).ret = 0 →
    ∃ out, (pass1 p bs).output = some out
      ∧ StablySorted PcapRecord.time p out
  unchunked : bs ≤ 0 → (pass1 p bs).ret = 0
  chunked : bs > 0 → Pass1.Displaced bs p → (pass1 p bs).ret = 0
  ends : ∀ (numPasses : Int) (noFallback : Bool) (fuel : Nat),
    numPasses.toNat < fuel →
      ∃ code, main p numPasses bs noFallback fuel = some code

/-- It does so with the chunkable files. -/
theorem reorders_iff_chunkable (p : List PcapRecord) (bs : Int) :
    Reorders p bs ↔ Chunkable p bs := by
  constructor
  · intro h
    by_cases hbs : bs > 0
    · by_cases hbound : Pass1.Displaced bs p
      · exact (pass1_ret_iff hbound).mp (h.chunked hbs hbound)
      · exact Or.inr (Or.inr (Or.inr hbound))
    · exact Or.inl (by omega)
  · intro h
    exact
      { sorted := by
          intro hret
          rcases pass1_cases p bs with hok | hgave
          · exact hok.2
          · omega
        unchunked := pass1_unchunked p
        chunked := fun _ hbound => (pass1_ret_iff hbound).mpr h
        ends := fun numPasses noFallback fuel hfuel =>
          main_ends p numPasses bs noFallback hfuel }

/-- A packet from a second before the epoch. -/
def early : PcapRecord where
  sec := -1
  usec := 0
  len := 0
  data := []
  sec_fits := by decide
  usec_lt := by decide

/-- A batch of one, and a file of one packet from before the epoch. -/
theorem not_reorders_early :
    ¬ ∀ (p : List PcapRecord) (bs : Int), Reorders p bs := by
  intro h
  have hbound : Pass1.Displaced 1 [early] := by
    intro before x after hsplit
    cases before with
    | nil => exact Nat.lt_succ_self 0
    | cons b bs => simp at hsplit
  have hret := (h [early] 1).chunked (by decide) hbound
  revert hret
  decide

end TradingEngine.Apps
