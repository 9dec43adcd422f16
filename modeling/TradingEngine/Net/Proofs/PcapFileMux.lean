/-
The mux merges its files: each `read_next_packet` takes the least of the
heads of what the files have left.

A file has left what it has in the queue, and then what its reader has not
read (`Mux.merge`). There is one packet in the queue for every file that
has any left (`Shape`), so the top of the queue is the least head, and
reading on from the file it came from restores that
(`loaded_packetsFromReader`).

# The merge

The abstract merge takes the least of the heads, and among equal ones any
(`Lib/Merge`), so that what it takes is in order and takes each source in its
own order. A step of the mux is a step of the merge: it takes a packet off
the queue, which is the least head, and loads the next one of the same file.
The priority queue of the source leaves open which of equal packets is on
top, and so does the model, by a choice that the results are for all of.
-/
import TradingEngine.Net.PcapFileMux
import TradingEngine.Core.Proofs.Timestamp
import TradingEngine.Lib.Merge
import Mathlib.Data.List.Induction
import Mathlib.Order.Basic

namespace TradingEngine.Net

open OE (Timestamp)
open Lib (Merge)

/-- The time of a packet in nanoseconds. -/
def UDPPkt.time (p : UDPPkt) : Int := p.ts.nanos

-- =================================================================== reading

namespace Mux

/-- The packets that a reader has yet to read and hand over, with its
latency added. -/
def unread (s : Mux) (r : Nat) : List UDPPkt :=
  match s.readers[r]? with
  | some entry => (handled entry.packets).map (adjust entry.latency)
  | none => []

/-- What `packets_from_reader` does: the next packet of the reader that is
handled goes into the queue. -/
structure Loaded (s : Mux) (r : Nat) (s' : Mux) : Prop where
  stopTs : s'.stopTs = s.stopTs
  lastTs : s'.lastTs = s.lastTs
  timerTs : s'.timerTs = s.timerTs
  log : s'.log = s.log
  size : s'.readers.length = s.readers.length
  others : ∀ j, j ≠ r → s'.unread j = s.unread j
  next : (s.unread r = [] ∧ s'.unread r = [] ∧ s'.queue = s.queue)
    ∨ ∃ p rest, s.unread r = p :: rest ∧ s'.unread r = rest
      ∧ s'.queue = s.queue ++ [⟨r, p⟩]

/-- The current reader after it has read on. -/
theorem readers_left (s : Mux) (ps : List Packet) {entry : ReaderEntry}
    (h : s.readers[s.currentReader]? = some entry) :
    (s.left ps).readers[s.currentReader]?
      = some { entry with packets := ps } := by
  unfold left
  dsimp only
  rw [List.getElem?_modify_eq, h]
  rfl

/-- A reader that is not the current one has read nothing. -/
theorem unread_left_of_ne (s : Mux) (ps : List Packet) {j : Nat}
    (h : j ≠ s.currentReader) : (s.left ps).unread j = s.unread j := by
  unfold unread left
  dsimp only
  rw [List.getElem?_modify_ne _ _ (Ne.symm h)]

/-- What a reader has yet to give are the packets it handles, with its
latency. -/
theorem unread_eq {s : Mux} {r : Nat} {entry : ReaderEntry}
    (h : s.readers[r]? = some entry) :
    s.unread r = (handled entry.packets).map (adjust entry.latency) := by
  unfold unread
  rw [h]

/-- The loop of `read_packets` stops with the next packet loaded. -/
theorem loaded_packetsLoop (ps : List Packet) :
    ∀ (s : Mux) (count : Int) (entry : ReaderEntry),
      s.readers[s.currentReader]? = some entry → entry.packets = ps →
        Loaded s s.currentReader (s.packetsLoop count ps).1 := by
  induction ps with
  | nil =>
      intro s count entry hentry hps
      have hnil : s.unread s.currentReader = [] := by
        rw [unread_eq hentry, hps]
        rfl
      exact ⟨rfl, rfl, rfl, rfl, rfl, fun _ _ => rfl,
        Or.inl ⟨hnil, hnil, rfl⟩⟩
  | cons pkt ps ih =>
      intro s count entry hentry hps
      have hleft := readers_left s ps hentry
      have hsize : (s.left ps).readers.length = s.readers.length :=
        List.length_modify _ _ _
      have hrest : (s.left ps).unread s.currentReader
          = (handled ps).map (adjust entry.latency) := unread_eq hleft
      cases pkt with
      | none =>
          -- not UDP: the loop goes on with what is behind it
          have hsame : s.unread s.currentReader
              = (s.left ps).unread s.currentReader := by
            rw [unread_eq hentry, hrest, hps]
            rfl
          obtain ⟨hstop, hlast, htimer, hlog, hlen, hothers, hnext⟩ :=
            ih (s.left ps) (count + 1) _ hleft rfl
          unfold packetsLoop
          refine ⟨hstop, hlast, htimer, hlog, hlen.trans hsize, ?_, ?_⟩
          · intro j hj
            rw [hothers j hj, unread_left_of_ne s ps hj]
          · rw [hsame]
            exact hnext
      | some p =>
          have hcons : s.unread s.currentReader
              = adjust entry.latency p
                :: (s.left ps).unread s.currentReader := by
            rw [unread_eq hentry, hrest, hps]
            rfl
          have hlatency : (s.left ps).latency s.currentReader
              = entry.latency := by
            unfold latency
            rw [hleft]
          unfold packetsLoop
          refine ⟨rfl, rfl, rfl, rfl, hsize,
            fun j hj => unread_left_of_ne s ps hj,
            Or.inr ⟨adjust entry.latency p,
              (s.left ps).unread s.currentReader, hcons, rfl, ?_⟩⟩
          unfold handlePayload
          dsimp only
          rw [show (s.left ps).currentReader = s.currentReader from rfl,
            hlatency]
          rfl

/-- So does a call for one reader. -/
theorem loaded_packetsFromReader (s : Mux) (r : Nat) :
    Loaded s r (s.packetsFromReader r).1 := by
  unfold packetsFromReader
  dsimp only
  cases hentry : s.readers[r]? with
  | none =>
      have hnil : s.unread r = [] := by
        unfold unread
        rw [hentry]
      exact ⟨rfl, rfl, rfl, rfl, rfl, fun _ _ => rfl,
        Or.inl ⟨hnil, hnil, rfl⟩⟩
  | some entry =>
      have h := loaded_packetsLoop entry.packets
        { s with currentReader := r } 0 entry hentry rfl
      exact ⟨h.stopTs, h.lastTs, h.timerTs, h.log, h.size, h.others,
        h.next⟩

-- ===================================================================== shape

/-- The queue holds a packet of every file that has any left, and no more
than one. -/
structure Shape (s : Mux) : Prop where
  single : (s.queue.map PktEntry.reader).Nodup
  known : ∀ e ∈ s.queue, e.reader < s.readers.length
  loaded : ∀ r, r ∉ s.queue.map PktEntry.reader → s.unread r = []

variable {s s' : Mux} {r : Nat}

/-- Nothing is in the queue for a file without a reader. -/
theorem unread_of_le (h : s.readers.length ≤ r) : s.unread r = [] := by
  unfold unread
  rw [List.getElem?_eq_none h]

/-- A file that is not in the queue is read on. -/
theorem Loaded.shape (h : Loaded s r s')
    (hsingle : (s.queue.map PktEntry.reader).Nodup)
    (hknown : ∀ e ∈ s.queue, e.reader < s.readers.length)
    (hloaded : ∀ j, j ≠ r → j ∉ s.queue.map PktEntry.reader →
      s.unread j = [])
    (hr : r ∉ s.queue.map PktEntry.reader) : Shape s' := by
  rcases h.next with ⟨-, hnil, hqueue⟩ | ⟨p, rest, hcons, hrest, hqueue⟩
  · refine ⟨hqueue ▸ hsingle, ?_, ?_⟩
    · intro e he
      rw [h.size]
      exact hknown e (hqueue ▸ he)
    · intro j hj
      rw [hqueue] at hj
      by_cases hjr : j = r
      · rw [hjr]
        exact hnil
      · rw [h.others j hjr]
        exact hloaded j hjr hj
  · have hlt : r < s.readers.length := by
      apply Nat.lt_of_not_le
      intro hle
      rw [unread_of_le hle] at hcons
      cases hcons
    have hmap : s'.queue.map PktEntry.reader
        = s.queue.map PktEntry.reader ++ [r] := by
      rw [hqueue, List.map_append]
      rfl
    refine ⟨?_, ?_, ?_⟩
    · rw [hmap]
      apply List.nodup_append.mpr
      refine ⟨hsingle, by simp, ?_⟩
      intro a ha b hb heq
      rw [List.mem_singleton.mp hb] at heq
      exact hr (heq ▸ ha)
    · intro e he
      rw [h.size]
      rw [hqueue] at he
      rcases List.mem_append.mp he with hold | hnew
      · exact hknown e hold
      · rw [List.mem_singleton.mp hnew]
        exact hlt
    · intro j hj
      rw [hmap, List.mem_append, not_or] at hj
      have hjr : j ≠ r := fun heq => hj.2 (List.mem_singleton.mpr heq)
      rw [h.others j hjr]
      exact hloaded j hjr hj.1

/-- Before the files there is nothing. -/
theorem shape_init : Shape {} where
  single := List.nodup_nil
  known := by simp
  loaded := fun _ _ => rfl

/-- A new reader, of which nothing is read yet. -/
def addReader (s : Mux) (f : Capture) : Mux :=
  { s with readers := s.readers ++ [⟨f.packets, f.latency⟩] }

/-- A file has a reader of its own. -/
theorem length_addReader (s : Mux) (f : Capture) :
    (s.addReader f).readers.length = s.readers.length + 1 :=
  List.length_append

/-- It is added, and its first packet is loaded. -/
theorem loadFile_eq (s : Mux) (f : Capture) :
    s.loadFile f
      = ((s.addReader f).packetsFromReader s.readers.length).1 := by
  have hlen := length_addReader s f
  show ((s.addReader f).packetsFromReader
    ((s.addReader f).readers.length - 1)).1 = _
  rw [hlen, Nat.add_sub_cancel]

/-- The others are not touched. -/
theorem unread_addReader_of_ne (s : Mux) (f : Capture) {j : Nat}
    (hj : j ≠ s.readers.length) : (s.addReader f).unread j = s.unread j := by
  have hlen := length_addReader s f
  unfold unread
  rcases Nat.lt_or_gt_of_ne hj with hlt | hgt
  · have hold : (s.addReader f).readers[j]? = s.readers[j]? :=
      List.getElem?_append_left hlt
    rw [hold]
  · rw [List.getElem?_eq_none (by omega), List.getElem?_eq_none (by omega)]

/-- The new one has yet to give all its packets. -/
theorem unread_addReader (s : Mux) (f : Capture) :
    (s.addReader f).unread s.readers.length
      = (handled f.packets).map (adjust f.latency) := by
  have hnew : (s.addReader f).readers[s.readers.length]?
      = some ⟨f.packets, f.latency⟩ := by
    unfold addReader
    simp
  rw [unread_eq hnew]

/-- The queue knows nothing of a new reader. -/
theorem Shape.not_queued_new (h : Shape s) :
    s.readers.length ∉ s.queue.map PktEntry.reader := by
  intro hmem
  obtain ⟨e, he, heq⟩ := List.mem_map.mp hmem
  have hknown := h.known e he
  omega

/-- A file with a new reader. -/
theorem Shape.loadFile (h : Shape s) (f : Capture) :
    Shape (s.loadFile f) := by
  have hlen := length_addReader s f
  rw [loadFile_eq]
  refine (loaded_packetsFromReader (s.addReader f) _).shape h.single ?_ ?_
    h.not_queued_new
  · intro e he
    have hknown := h.known e he
    omega
  · intro j hj hnot
    rw [unread_addReader_of_ne s f hj]
    exact h.loaded j hnot

/-- After the files are loaded every reader has its first packet in the queue. -/
theorem shape_initialReaderLoad (files : List Capture) :
    Shape (initialReaderLoad files) := by
  have hfold : ∀ s, Shape s → Shape (files.foldl Mux.loadFile s) := by
    induction files with
    | nil => exact fun s h => h
    | cons f files ih => exact fun s h => ih _ (h.loadFile f)
  exact hfold {} shape_init

-- ===================================================================== timers

/-- So many whole seconds after a time. -/
def after (t : Timestamp) (n : Nat) : Timestamp := ⟨t.sec + n, t.nsec⟩

/-- What `update_timers` makes of the time of the timers and that of the
packet: where the timers are then, and what fires. -/
def timerStep (timer last : Timestamp) : Timestamp × List Timestamp :=
  if timer.sec = 0 then
    (last, [])
  else
    let n := (last.sub timer).sec.toNat
    (after timer n, (List.range n).map fun k => after timer (k + 1))

/-- Timers that fire come into the log, and the clock goes with them. -/
theorem fireTimers_eq (n : Nat) (s : Mux) :
    fireTimers n s = { s with
      timerTs := after s.timerTs n
      log := s.log
        ++ (List.range n).map fun k =>
          .onTimer (after s.timerTs (k + 1)) } := by
  induction n generalizing s with
  | zero => simp [fireTimers, after]
  | succ n ih =>
      have hafter : ∀ k : Nat, after
          { s.timerTs with sec := s.timerTs.sec + 1 } k
          = after s.timerTs (k + 1) := by
        intro k
        unfold after
        congr 1
        dsimp only
        omega
      unfold fireTimers
      dsimp only
      rw [ih]
      dsimp only
      simp only [hafter, List.range_succ_eq_map, List.map_cons,
        List.map_map, List.append_assoc, List.singleton_append]
      rfl

/-- The timers up to the packet that is given next. -/
theorem updateTimers_eq (s : Mux) :
    s.updateTimers = { s with
      timerTs := (timerStep s.timerTs s.lastTs).1
      log := s.log
        ++ (timerStep s.timerTs s.lastTs).2.map Event.onTimer } := by
  unfold updateTimers timerStep
  split
  case isTrue => simp
  case isFalse =>
    dsimp only
    split
    case isTrue hge =>
      rw [fireTimers_eq]
      simp [Function.comp_def]
    case isFalse hlt =>
      have hnone : (s.lastTs.sub s.timerTs).sec.toNat = 0 := by omega
      rw [hnone]
      simp [after]

-- ===================================================================== merge

/-- The packets in the queue for a file. -/
def queued (s : Mux) (r : Nat) : List UDPPkt :=
  (s.queue.filter (·.reader = r)).map PktEntry.pkt

/-- A call of the listener. -/
def payload? : Event → Option (Nat × UDPPkt)
  | .onTimer _ => none
  | .handlePayload r p => some (r, p)

/-- The packets the listener was called with, and their files. -/
def payloads (log : List Event) : List (Nat × UDPPkt) :=
  log.filterMap payload?

/-- What each file has left, and what was taken. -/
def merge (s : Mux) : Merge Nat UDPPkt where
  left := fun r => s.queued r ++ s.unread r
  taken := payloads s.log

/-- The entry at a place of the queue, and the others. -/
theorem split_eraseIdx {α : Type} {xs : List α} {k : Nat} {x : α}
    (h : xs[k]? = some x) :
    ∃ before after, xs = before ++ x :: after
      ∧ xs.eraseIdx k = before ++ after := by
  obtain ⟨hk, hget⟩ := List.getElem?_eq_some_iff.mp h
  refine ⟨xs.take k, xs.drop (k + 1), ?_, ?_⟩
  · rw [← hget, List.getElem_cons_drop, List.take_append_drop]
  · exact List.eraseIdx_eq_take_drop_succ xs k

/-- A queue without a file has none of it queued. -/
theorem filter_reader_eq_nil {es : List PktEntry} {r : Nat}
    (h : r ∉ es.map PktEntry.reader) : es.filter (·.reader = r) = [] := by
  apply List.filter_eq_nil_iff.mpr
  intro e he heq
  exact h (List.mem_map.mpr ⟨e, he, of_decide_eq_true heq⟩)

/-- The readers of the queue around an entry. -/
theorem nodup_around {before after : List PktEntry} {e : PktEntry}
    (h : ((before ++ e :: after).map PktEntry.reader).Nodup) :
    e.reader ∉ (before ++ after).map PktEntry.reader
      ∧ ((before ++ after).map PktEntry.reader).Nodup := by
  have hperm : ((before ++ e :: after).map PktEntry.reader).Perm
      (e.reader :: (before ++ after).map PktEntry.reader) :=
    (List.perm_middle).map PktEntry.reader
  exact List.nodup_cons.mp (hperm.nodup_iff.mp h)

/-- Of its file the entry is the only one. -/
theorem filter_around_self {before after : List PktEntry} {e : PktEntry}
    (h : e.reader ∉ (before ++ after).map PktEntry.reader) :
    (before ++ e :: after).filter (·.reader = e.reader) = [e] := by
  rw [List.map_append, List.mem_append, not_or] at h
  rw [List.filter_append, filter_reader_eq_nil h.1,
    List.filter_cons_of_pos (by simp), filter_reader_eq_nil h.2]
  rfl

/-- Without it the other files have the same queued. -/
theorem filter_around_of_ne {before after : List PktEntry} {e : PktEntry}
    {j : Nat} (hj : j ≠ e.reader) :
    (before ++ e :: after).filter (·.reader = j)
      = (before ++ after).filter (·.reader = j) := by
  have hne : ¬ e.reader = j := fun heq => hj heq.symm
  simp [hne]

/-- So a file without any queued has none with it either. -/
theorem reader_notMem_around {before after : List PktEntry} {e : PktEntry}
    {j : Nat} (hj : j ≠ e.reader)
    (h : j ∉ (before ++ after).map PktEntry.reader) :
    j ∉ (before ++ e :: after).map PktEntry.reader := by
  simp only [List.map_append, List.map_cons, List.mem_append, List.mem_cons,
    not_or] at h ⊢
  exact ⟨h.1, hj, h.2⟩

/-- One packet delivered: the least of the heads is taken, after the timers
that are due before it. -/
structure Delivers (s : Mux) (e : PktEntry) (s' : Mux) : Prop where
  mem : e ∈ s.queue
  least : ∀ e' ∈ s.queue, e.gt e' = false
  shape : Shape s'
  size : s'.readers.length = s.readers.length
  rest : ∃ rest, s.merge.left e.reader = e.pkt :: rest
    ∧ s'.merge = s.merge.take e.reader e.pkt rest
  lastTs : s'.lastTs = e.pkt.ts
  stopTs : s'.stopTs = s.stopTs
  timerTs : s'.timerTs = (timerStep s.timerTs e.pkt.ts).1
  log : s'.log = s.log
    ++ (timerStep s.timerTs e.pkt.ts).2.map Event.onTimer
    ++ [.handlePayload e.reader e.pkt]

/-- Timers are no calls of the listener. -/
theorem payloads_onTimer (ts : List Timestamp) :
    (ts.map Event.onTimer).filterMap payload? = [] := by
  apply List.filterMap_eq_nil_iff.mpr
  intro ev hev
  obtain ⟨t, -, heq⟩ := List.mem_map.mp hev
  rw [← heq]
  rfl

/-- What a file has left, when none of it is queued. -/
theorem Loaded.left (h : Loaded s r s')
    (hr : r ∉ s.queue.map PktEntry.reader) :
    s'.queued r ++ s'.unread r = s.unread r := by
  have hnil := filter_reader_eq_nil hr
  unfold queued
  rcases h.next with ⟨hs, hs', hqueue⟩ | ⟨p, rest, hs, hs', hqueue⟩
  · rw [hqueue, hnil, hs, hs']
    rfl
  · rw [hqueue, List.filter_append, hnil, hs, hs']
    simp

/-- Reading a file leaves the other files what they have. -/
theorem Loaded.left_of_ne (h : Loaded s r s') {j : Nat} (hj : j ≠ r) :
    s'.queued j ++ s'.unread j = s.queued j ++ s.unread j := by
  rw [h.others j hj]
  unfold queued
  rcases h.next with ⟨-, -, hqueue⟩ | ⟨p, rest, -, -, hqueue⟩
  · rw [hqueue]
  · have hjr : ¬ r = j := fun heq => hj heq.symm
    rw [hqueue, List.filter_append]
    simp [hjr]

/-- The top goes to the listener, and its file is read on. -/
theorem delivers_of_top (h : Shape s) {k : Nat} {e : PktEntry}
    (htop : s.queue[k]? = some e)
    (hleast : ∀ e' ∈ s.queue, e.gt e' = false) (s1 : Mux)
    (hqueue : s1.queue = s.queue.eraseIdx k)
    (hreaders : s1.readers = s.readers) (hlast : s1.lastTs = e.pkt.ts)
    (hstop : s1.stopTs = s.stopTs)
    (htimer : s1.timerTs = (timerStep s.timerTs e.pkt.ts).1)
    (hlog : s1.log = s.log
      ++ (timerStep s.timerTs e.pkt.ts).2.map Event.onTimer
      ++ [.handlePayload e.reader e.pkt]) :
    Delivers s e (s1.packetsFromReader e.reader).1 := by
  obtain ⟨before, after, hsplit, herase⟩ := split_eraseIdx htop
  have hsingle := h.single
  rw [hsplit] at hsingle
  obtain ⟨hnot, hnodup⟩ := nodup_around hsingle
  rw [← herase, ← hqueue] at hnot hnodup
  have hunread : ∀ j, s1.unread j = s.unread j := by
    intro j
    unfold unread
    rw [hreaders]
  have hloaded := loaded_packetsFromReader s1 e.reader
  have hshape : Shape (s1.packetsFromReader e.reader).1 := by
    refine hloaded.shape hnodup ?_ ?_ hnot
    · intro e' he'
      rw [hqueue] at he'
      rw [hreaders]
      exact h.known e' (List.mem_of_mem_eraseIdx he')
    · intro j hj hnone
      rw [hqueue, herase] at hnone
      rw [hunread j]
      apply h.loaded j
      rw [hsplit]
      exact reader_notMem_around hj hnone
  have hown : s.queued e.reader = [e.pkt] := by
    rw [hqueue, herase] at hnot
    unfold queued
    rw [hsplit, filter_around_self hnot]
    rfl
  have hrest : ∀ j, j ≠ e.reader → s1.queued j = s.queued j := by
    intro j hj
    unfold queued
    rw [hqueue, herase, hsplit, filter_around_of_ne hj]
  have hmerge : (s1.packetsFromReader e.reader).1.merge
      = s.merge.take e.reader e.pkt (s.unread e.reader) := by
    unfold merge Merge.take
    congr 1
    · funext j
      by_cases hj : j = e.reader
      · rw [hj, Function.update_self, hloaded.left hnot, hunread]
      · rw [Function.update_of_ne hj, hloaded.left_of_ne hj, hrest j hj,
          hunread j]
    · unfold payloads
      rw [hloaded.log, hlog, List.filterMap_append, List.filterMap_append,
        payloads_onTimer]
      simp [payload?]
  exact
    { mem := List.mem_of_getElem? htop
      least := hleast
      shape := hshape
      size := hloaded.size.trans (congrArg List.length hreaders)
      rest := ⟨s.unread e.reader, by simp [merge, hown], hmerge⟩
      lastTs := hloaded.lastTs.trans hlast
      stopTs := hloaded.stopTs.trans hstop
      timerTs := hloaded.timerTs.trans htimer
      log := hloaded.log.trans hlog }

/-- All that `read_next_packet` does. -/
theorem readNextPacket_cases (q : TopChoice) (h : Shape s) :
    (s.queue = [] ∧ s.readNextPacket q = (s, false))
    ∨ ∃ e s', s.readNextPacket q = (s', true) ∧ Delivers s e s' := by
  by_cases hempty : s.queue = []
  · refine Or.inl ⟨hempty, ?_⟩
    unfold readNextPacket
    rw [hempty]
    rfl
  · obtain ⟨e, htop, hleast⟩ := q.least s hempty
    refine Or.inr ⟨e, _, ?_, delivers_of_top h htop hleast
      { s with
        lastTs := e.pkt.ts
        timerTs := (timerStep s.timerTs e.pkt.ts).1
        log := s.log
          ++ (timerStep s.timerTs e.pkt.ts).2.map Event.onTimer
          ++ [.handlePayload e.reader e.pkt]
        queue := s.queue.eraseIdx (q.pick s) }
      rfl rfl rfl rfl rfl rfl⟩
    unfold readNextPacket
    rw [htop]
    dsimp only
    rw [updateTimers_eq]

-- =================================================================== sources

/-- A time in nanoseconds alone is carried into seconds. -/
theorem make_zero {n : Int} (h0 : 0 ≤ n) (h1 : n < 9223372036854775808) :
    Timestamp.make 0 n = ⟨n / 1000000000, n % 1000000000⟩ := by
  rw [Timestamp.make_of_nonneg h0 h1, Int.zero_add,
    Timestamp.signed_eq (by omega) (by omega)]

/-- The latency is added to the nanoseconds. -/
theorem adjust_ts (f : Capture) {p : UDPPkt} (hp : p ∈ handled f.packets) :
    (adjust f.latency p).ts.SubSecond
      ∧ (adjust f.latency p).time = p.time + f.latency
      ∧ -2147483648 ≤ (adjust f.latency p).ts.sec
      ∧ (adjust f.latency p).ts.sec < 4611686018427387904 := by
  obtain ⟨hlo, hhi, hn0, hn1⟩ := f.stamped p hp
  have hl0 := f.latency_nonneg
  have hl1 := f.latency_fits
  have hsub : (Timestamp.make 0 f.latency).SubSecond := by
    rw [make_zero hl0 hl1]
    exact ⟨by dsimp only; omega, by dsimp only; omega⟩
  have hadd : (adjust f.latency p).ts
      = ⟨p.ts.sec + f.latency / 1000000000
          + (p.ts.nsec + f.latency % 1000000000) / 1000000000,
        (p.ts.nsec + f.latency % 1000000000) % 1000000000⟩ := by
    unfold adjust
    dsimp only
    rw [Timestamp.add_eq ⟨hn0, hn1⟩ hsub, make_zero hl0 hl1,
      Timestamp.signed_eq (by dsimp only; omega) (by dsimp only; omega)]
  unfold UDPPkt.time Timestamp.SubSecond Timestamp.nanos
  rw [hadd]
  dsimp only
  omega

/-- The packets of a file that are to be delivered. -/
def source (f : Capture) : List UDPPkt :=
  (handled f.packets).map (adjust f.latency)

/-- The packets of each file, by the place of its reader. -/
def sources (files : List Capture) (r : Nat) : List UDPPkt :=
  match files[r]? with
  | some f => source f
  | none => []

/-- What the time of every packet is like. -/
def Stamped (t : Timestamp) : Prop :=
  t.SubSecond ∧ -2147483648 ≤ t.sec ∧ t.sec < 4611686018427387904

/-- A packet of a file has a proper time. -/
theorem stamped_of_mem_source {f : Capture} {p : UDPPkt}
    (hp : p ∈ source f) : Stamped p.ts := by
  obtain ⟨p', hp', heq⟩ := List.mem_map.mp hp
  obtain ⟨hsub, -, hrange⟩ := adjust_ts f hp'
  rw [← heq]
  exact ⟨hsub, hrange⟩

/-- The packets of a file are in the order of their times. -/
theorem source_sorted (f : Capture) :
    (source f).Pairwise fun a b => a.time ≤ b.time := by
  apply List.pairwise_map.mpr
  refine (List.Pairwise.and_mem.mp f.sorted).imp fun {a b} h => ?_
  have ha := (adjust_ts f h.1).2.1
  have hb := (adjust_ts f h.2.1).2.1
  have hle := (Timestamp.le_iff_nanos (f.stamped a h.1).2.2
    (f.stamped b h.2.1).2.2).mp h.2.2
  unfold UDPPkt.time at *
  omega

variable {files : List Capture}

/-- Over all the files. -/
theorem stamped_of_mem_sources {p : UDPPkt} (hp : p ∈ sources files r) :
    Stamped p.ts := by
  unfold sources at hp
  split at hp
  case h_1 f hf => exact stamped_of_mem_source hp
  case h_2 => cases hp

/-- Each of them. -/
theorem sources_sorted (files : List Capture) (r : Nat) :
    (sources files r).Pairwise fun a b => a.time ≤ b.time := by
  unfold sources
  split
  case h_1 f hf => exact source_sorted f
  case h_2 => exact List.Pairwise.nil

/-- Loading a file gives its reader all there is in it. -/
theorem left_loadFile (h : Shape s) (f : Capture) (j : Nat) :
    (s.loadFile f).merge.left j
      = if j = s.readers.length then source f else s.merge.left j := by
  have hloaded := loaded_packetsFromReader (s.addReader f) s.readers.length
  rw [loadFile_eq]
  unfold merge
  dsimp only
  split
  case isTrue hj =>
    rw [hj, hloaded.left h.not_queued_new, unread_addReader]
    rfl
  case isFalse hj =>
    rw [hloaded.left_of_ne hj, unread_addReader_of_ne s f hj]
    rfl

/-- One more file. -/
theorem sources_concat (fs : List Capture) (f : Capture) (j : Nat) :
    sources (fs ++ [f]) j
      = if j = fs.length then source f else sources fs j := by
  have hlen : (fs ++ [f]).length = fs.length + 1 := List.length_append
  unfold sources
  by_cases hj : j = fs.length
  · rw [if_pos hj, hj]
    simp
  · rw [if_neg hj]
    rcases Nat.lt_or_gt_of_ne hj with hlt | hgt
    · rw [List.getElem?_append_left hlt]
    · rw [List.getElem?_eq_none (Nat.le_of_lt hgt),
        List.getElem?_eq_none (by omega)]

/-- After the files are loaded nothing is delivered. -/
theorem merge_initialReaderLoad (files : List Capture) :
    (initialReaderLoad files).readers.length = files.length
      ∧ (initialReaderLoad files).log = []
      ∧ (initialReaderLoad files).merge.left = sources files := by
  induction files using List.reverseRecOn with
  | nil => exact ⟨rfl, rfl, rfl⟩
  | append_singleton fs f ih =>
      obtain ⟨hlen, hlog, hleft⟩ := ih
      have hload : initialReaderLoad (fs ++ [f])
          = (initialReaderLoad fs).loadFile f := by
        unfold initialReaderLoad
        rw [List.foldl_append]
        rfl
      have hloaded := loaded_packetsFromReader
        ((initialReaderLoad fs).addReader f)
        (initialReaderLoad fs).readers.length
      rw [← loadFile_eq] at hloaded
      rw [hload]
      refine ⟨?_, ?_, ?_⟩
      · rw [hloaded.size, length_addReader, hlen, List.length_append]
        rfl
      · rw [hloaded.log]
        exact hlog
      · funext j
        rw [left_loadFile (shape_initialReaderLoad fs), sources_concat,
          hlen, hleft]

/-- Loading leaves the times as they are. -/
theorem times_initialReaderLoad (files : List Capture) :
    (initialReaderLoad files).stopTs = ⟨0, 0⟩
      ∧ (initialReaderLoad files).lastTs = ⟨0, 0⟩
      ∧ (initialReaderLoad files).timerTs = ⟨0, 0⟩ := by
  have hfold : ∀ s : Mux, (files.foldl Mux.loadFile s).stopTs = s.stopTs
      ∧ (files.foldl Mux.loadFile s).lastTs = s.lastTs
      ∧ (files.foldl Mux.loadFile s).timerTs = s.timerTs := by
    induction files with
    | nil => exact fun s => ⟨rfl, rfl, rfl⟩
    | cons f files ih =>
        intro s
        have hloaded := loaded_packetsFromReader (s.addReader f)
          s.readers.length
        rw [← loadFile_eq] at hloaded
        obtain ⟨hstop, hlast, htimer⟩ := ih (s.loadFile f)
        exact ⟨hstop.trans hloaded.stopTs, hlast.trans hloaded.lastTs,
          htimer.trans hloaded.timerTs⟩
  exact hfold {}

-- ======================================================================= log

/-- What is called for the packets, in order, from a time of the timers:
the timers that are due before each, and then the listener. -/
def timed (timer : Timestamp) : List (Nat × UDPPkt) → List Event
  | [] => []
  | (r, p) :: ps =>
      (timerStep timer p.ts).2.map Event.onTimer
        ++ .handlePayload r p :: timed (timerStep timer p.ts).1 ps

/-- Where the timers are after the packets. -/
def timerAt (timer : Timestamp) (ps : List (Nat × UDPPkt)) : Timestamp :=
  ps.foldl (fun t p => (timerStep t p.2.ts).1) timer

/-- A packet more at the end of the log. -/
theorem timed_concat (ps : List (Nat × UDPPkt)) (r : Nat) (p : UDPPkt) :
    ∀ timer, timed timer (ps ++ [(r, p)])
      = timed timer ps ++ (timerStep (timerAt timer ps) p.ts).2.map
          Event.onTimer ++ [.handlePayload r p] := by
  induction ps with
  | nil => exact fun timer => rfl
  | cons q ps ih =>
      intro timer
      rw [List.cons_append]
      unfold timed
      rw [ih]
      simp [timerAt]

/-- The mux, with its readers made of the files: it merges what is in them
and has called what is due for the packets delivered. -/
structure Merges (files : List Capture) (s : Mux) : Prop where
  shape : Shape s
  size : s.readers.length = files.length
  inv : Merge.Inv UDPPkt.time (sources files) s.merge
  log : s.log = timed ⟨0, 0⟩ (payloads s.log)
  timerTs : s.timerTs = timerAt ⟨0, 0⟩ (payloads s.log)

/-- Loading the files gives nothing yet. -/
theorem merges_initialReaderLoad (files : List Capture) :
    Merges files (initialReaderLoad files) := by
  obtain ⟨hlen, hlog, hleft⟩ := merge_initialReaderLoad files
  have hmerge : (initialReaderLoad files).merge = ⟨sources files, []⟩ := by
    unfold merge at hleft ⊢
    rw [hlog]
    congr 1
  have htimer := (times_initialReaderLoad files).2.2
  refine ⟨shape_initialReaderLoad files, hlen, ?_, ?_, ?_⟩
  · rw [hmerge]
    exact Merge.inv_init
  · rw [hlog]
    rfl
  · rw [hlog]
    exact htimer

-- ================================================================ deliveries

/-- The packets remaining, file by file. -/
def pending (s : Mux) : List UDPPkt :=
  (List.range s.readers.length).flatMap s.merge.left

/-- The packets remaining are of the files. -/
theorem Merges.stamped (h : Merges files s) {p : UDPPkt}
    (hp : p ∈ s.pending) : Stamped p.ts := by
  obtain ⟨r, -, hr⟩ := List.mem_flatMap.mp hp
  have hsrc := h.inv.whole r
  exact stamped_of_mem_sources (r := r)
    (hsrc ▸ List.mem_append_right _ hr)

/-- A packet that is delivered is one less to come. -/
theorem Delivers.pending {e : PktEntry} (hd : Delivers s e s')
    (h : Shape s) : s.pending.Perm (e.pkt :: s'.pending) := by
  obtain ⟨rest, hhead, hmerge⟩ := hd.rest
  have hmem : e.reader ∈ List.range s.readers.length :=
    List.mem_range.mpr (h.known e hd.mem)
  unfold Mux.pending
  rw [hd.size, hmerge]
  exact Merge.perm_flatMap_take List.nodup_range hmem hhead

/-- The top of the queue is the least of the heads. -/
theorem Merges.least (h : Merges files s) {e : PktEntry}
    (hd : Delivers s e s') {rest : List UDPPkt}
    (hhead : s.merge.left e.reader = e.pkt :: rest) :
    Merge.Least UDPPkt.time s.merge e.reader e.pkt rest where
  head := hhead
  least := by
    intro j y ys hj
    have hof : ∀ e' ∈ s.queue, Stamped e'.pkt.ts := by
      intro e' he'
      have hown : e'.pkt ∈ s.merge.left e'.reader := by
        apply List.mem_append_left
        apply List.mem_map.mpr
        exact ⟨e', List.mem_filter.mpr ⟨he', by simp⟩, rfl⟩
      exact stamped_of_mem_sources (r := e'.reader)
        (h.inv.whole e'.reader ▸ List.mem_append_right _ hown)
    have hqueued : s.queued j ≠ [] := by
      intro hnil
      have hnone : j ∉ s.queue.map PktEntry.reader := by
        intro hmem
        obtain ⟨e', he', heq⟩ := List.mem_map.mp hmem
        have hin : e'.pkt ∈ s.queued j :=
          List.mem_map.mpr ⟨e', List.mem_filter.mpr ⟨he', by simp [heq]⟩,
            rfl⟩
        rw [hnil] at hin
        cases hin
      unfold merge at hj
      dsimp only at hj
      rw [hnil, h.shape.loaded j hnone] at hj
      cases hj
    obtain ⟨z, zs, hz⟩ := List.exists_cons_of_ne_nil hqueued
    have hyz : y = z := by
      unfold merge at hj
      dsimp only at hj
      rw [hz] at hj
      exact (List.cons.inj hj).1.symm
    have hmem : z ∈ s.queued j := hz ▸ List.mem_cons_self
    obtain ⟨e', he', heq⟩ := List.mem_map.mp hmem
    have hin := (List.mem_filter.mp he').1
    have hle := hd.least e' hin
    unfold PktEntry.gt at hle
    rw [Bool.eq_false_iff, ne_eq,
      Timestamp.gt_iff_nanos (hof e hd.mem).1 (hof e' hin).1] at hle
    rw [hyz, ← heq]
    unfold UDPPkt.time
    omega

/-- A delivery goes on merging, and takes the least of all that remains. -/
theorem Merges.delivers (h : Merges files s) {e : PktEntry}
    (hd : Delivers s e s') :
    Merges files s' ∧ ∀ y ∈ s.pending, e.pkt.time ≤ y.time := by
  obtain ⟨rest, hhead, hmerge⟩ := hd.rest
  have hleast := h.least hd hhead
  have hpayloads : payloads s'.log
      = payloads s.log ++ [(e.reader, e.pkt)] := by
    unfold payloads
    rw [hd.log, List.filterMap_append, List.filterMap_append,
      payloads_onTimer]
    simp [payload?]
  constructor
  · refine ⟨hd.shape, hd.size.trans h.size, ?_, ?_, ?_⟩
    · rw [hmerge]
      exact h.inv.take (sources_sorted files) hleast
    · rw [hpayloads, timed_concat, ← h.log, ← h.timerTs]
      exact hd.log
    · rw [hpayloads, hd.timerTs, h.timerTs]
      simp [timerAt]
  · intro y hy
    obtain ⟨r, -, hr⟩ := List.mem_flatMap.mp hy
    exact h.inv.least_le (sources_sorted files) hleast r y hr

/-- The queue is empty exactly when nothing remains. -/
theorem Merges.pending_eq_nil (h : Merges files s) :
    s.pending = [] ↔ s.queue = [] := by
  constructor
  · intro hnil
    cases hqueue : s.queue with
    | nil => rfl
    | cons e es =>
        have hmem : e ∈ s.queue := hqueue ▸ List.mem_cons_self
        have hin : e.pkt ∈ s.pending := by
          apply List.mem_flatMap.mpr
          refine ⟨e.reader, List.mem_range.mpr (h.shape.known e hmem), ?_⟩
          apply List.mem_append_left
          exact List.mem_map.mpr
            ⟨e, List.mem_filter.mpr ⟨hmem, by simp⟩, rfl⟩
        rw [hnil] at hin
        cases hin
  · intro hnil
    apply List.flatMap_eq_nil_iff.mpr
    intro r _
    have hunread : s.unread r = [] := h.shape.loaded r (by simp [hnil])
    unfold merge queued
    dsimp only
    rw [hnil, hunread]
    rfl

end Mux

-- ======================================================================= top

/-- A queue that is not empty has a least entry. -/
theorem exists_least (es : List PktEntry) (h : es ≠ []) :
    ∃ e ∈ es, ∀ e' ∈ es, e.gt e' = false := by
  induction es with
  | nil => exact absurd rfl h
  | cons x xs ih =>
      unfold PktEntry.gt at *
      simp only [Timestamp.gt_eq_false, List.mem_cons, forall_eq_or_imp,
        exists_eq_or_imp] at *
      by_cases hxs : xs = []
      · left
        simp [hxs]
      · obtain ⟨e, he, hleast⟩ := ih hxs
        by_cases hxe : x.pkt.ts.sec < e.pkt.ts.sec
            ∨ x.pkt.ts.sec = e.pkt.ts.sec ∧ x.pkt.ts.nsec ≤ e.pkt.ts.nsec
        · refine Or.inl ⟨by simp, fun e' he' => ?_⟩
          have hle := hleast e' he'
          omega
        · exact Or.inr ⟨e, he, by omega, hleast⟩

/-- The first of the least entries is on top. -/
def TopChoice.first : TopChoice where
  pick := fun s => s.queue.findIdx fun e => s.queue.all fun e' => !e.gt e'
  least := by
    intro s hne
    obtain ⟨e, he, hleast⟩ := exists_least s.queue hne
    have hlt := List.findIdx_lt_length_of_exists
      (p := fun e => s.queue.all fun e' => !e.gt e')
      ⟨e, he, by simpa using hleast⟩
    have hfound := List.findIdx_getElem (w := hlt)
    refine ⟨_, List.getElem?_eq_getElem hlt, ?_⟩
    simpa using hfound

end TradingEngine.Net
