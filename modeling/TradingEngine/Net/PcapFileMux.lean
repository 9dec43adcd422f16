/-
`net/PcapFileMux.hpp`, `net/PcapFileMux.cpp`: several capture files read as
one stream in the order of time.

A file is the list of its packets, of which those that are UDP call
`handle_payload` when they are read; `Reader::read_packets(1)` reads one
packet of it and returns 1, or 0 at its end. Its timestamps are those of
`Reader`: a signed 32-bit field of seconds, and a sub-second field below a
second (`Capture`).

A priority queue says nothing of the order among packets of one time, so
the queue is a list and `TopChoice` says which of the least is on top, from
all that has happened.

`count` in `read_packets` is an `int` there and unbounded here. The two are
the same up to 2^31 passes of the loop, after which the source's overflows.

What the callbacks do is not modelled, only that they are called, in the
log; the mux reads nothing from them. `Timestamp::last_event` is a global
that nothing here reads.
-/
import TradingEngine.Core.Timestamp

namespace TradingEngine.Net

open OE (Timestamp)

-- =================================================================== packets

/-- `FileMuxBase::UDPPkt`; `len` is the length of `buf`. -/
structure UDPPkt where
  srcAddr : UInt32
  srcPort : UInt16
  addr : UInt32
  port : UInt16
  buf : List UInt8
  ts : Timestamp
  deriving DecidableEq, Repr

/-- A packet of a file: one that is handled, or `none`. -/
abbrev Packet := Option UDPPkt

/-- The packets of a file that are handled. -/
def handled (ps : List Packet) : List UDPPkt := ps.filterMap id

/-- A file and its latency in nanoseconds (`FileWithLatency`). -/
structure Capture where
  packets : List Packet
  latency : Int
  latency_nonneg : 0 ≤ latency
  latency_fits : latency < 9223372036854775808
  stamped : ∀ p ∈ handled packets,
    -2147483648 ≤ p.ts.sec ∧ p.ts.sec < 2147483648 ∧ p.ts.SubSecond
  sorted : (handled packets).Pairwise fun a b => a.ts.le b.ts = true

/-- `ReaderEntry`: what the reader has left, and the latency. -/
structure ReaderEntry where
  packets : List Packet
  latency : Int
  deriving DecidableEq, Repr

/-- `PktEntry`, with the place of its reader. -/
structure PktEntry where
  reader : Nat
  pkt : UDPPkt
  deriving DecidableEq, Repr

/-- `operator>`. -/
def PktEntry.gt (e p : PktEntry) : Bool := e.pkt.ts.gt p.pkt.ts

/-- What the mux calls: each timer listener, and its own. -/
inductive Event
  | onTimer (ts : Timestamp)
  | handlePayload (reader : Nat) (pkt : UDPPkt)
  deriving DecidableEq, Repr

-- ===================================================================== state

/-- `PcapFileMux`, and what it has called. -/
structure Mux where
  readers : List ReaderEntry := []
  currentReader : Nat := 0
  queue : List PktEntry := []
  stopTs : Timestamp := ⟨0, 0⟩
  lastTs : Timestamp := ⟨0, 0⟩
  timerTs : Timestamp := ⟨0, 0⟩
  log : List Event := []

/-- Which of the least entries is on top. -/
structure TopChoice where
  pick : Mux → Nat
  least : ∀ s : Mux, s.queue ≠ [] →
    ∃ e, s.queue[pick s]? = some e ∧ ∀ e' ∈ s.queue, e.gt e' = false

namespace Mux

/-- `*ts + Timestamp{0, latency}`. -/
def adjust (latency : Int) (p : UDPPkt) : UDPPkt :=
  { p with ts := p.ts.add (.make 0 latency) }

/-- The latency of a reader. -/
def latency (s : Mux) (r : Nat) : Int :=
  match s.readers[r]? with
  | some entry => entry.latency
  | none => 0

/-- `handle_payload`. -/
def handlePayload (s : Mux) (p : UDPPkt) : Mux :=
  { s with queue := s.queue
      ++ [⟨s.currentReader, adjust (s.latency s.currentReader) p⟩] }

/-- The current reader has these packets left. -/
def left (s : Mux) (ps : List Packet) : Mux :=
  { s with readers :=
      s.readers.modify s.currentReader fun r => { r with packets := ps } }

/-- The loop of `packets_from_reader` over what the reader has: a packet at
a time until one has called `handle_payload`, which is when `m_handled` is
set. -/
def packetsLoop (s : Mux) (count : Int) : List Packet → Mux × Int
  | [] => (s, count)
  | pkt :: ps =>
      match pkt with
      | none => packetsLoop (s.left ps) (count + 1) ps
      | some p => ((s.left ps).handlePayload p, count + 1)

/-- `packets_from_reader`, and the number of packets it read. -/
def packetsFromReader (s : Mux) (r : Nat) : Mux × Int :=
  let s := { s with currentReader := r }
  match s.readers[r]? with
  | some entry => s.packetsLoop 0 entry.packets
  | none => (s, 0)

/-- One file of `initial_reader_load`. -/
def loadFile (s : Mux) (f : Capture) : Mux :=
  let entry : ReaderEntry := ⟨f.packets, f.latency⟩
  let s := { s with readers := s.readers ++ [entry] }
  (s.packetsFromReader (s.readers.length - 1)).1

/-- `initial_reader_load`, which is all that the constructor does. -/
def initialReaderLoad (files : List Capture) : Mux :=
  files.foldl loadFile {}

-- ==================================================================== timers

/-- So many passes of the loop of `update_timers`. -/
def fireTimers : Nat → Mux → Mux
  | 0, s => s
  | n + 1, s =>
      let ts : Timestamp := { s.timerTs with sec := s.timerTs.sec + 1 }
      fireTimers n { s with timerTs := ts, log := s.log ++ [.onTimer ts] }

/-- `update_timers`. -/
def updateTimers (s : Mux) : Mux :=
  if s.timerTs.sec = 0 then
    { s with timerTs := s.lastTs }
  else
    let diff := s.lastTs.sub s.timerTs
    if diff.sec ≥ 1 then fireTimers diff.sec.toNat s else s

-- =================================================================== reading

/-- `read_next_packet`. -/
def readNextPacket (q : TopChoice) (s : Mux) : Mux × Bool :=
  match s.queue[q.pick s]? with
  | some pkte =>
      let top := q.pick s
      let s := { s with lastTs := pkte.pkt.ts }
      let s := s.updateTimers
      let s := { s with
        log := s.log ++ [Event.handlePayload pkte.reader pkte.pkt]
        queue := s.queue.eraseIdx top }
      ((s.packetsFromReader pkte.reader).1, true)
  | none => (s, false)

/-- The condition of the loop of `read_packets`. -/
def goesOn (s : Mux) (num count : Int) : Bool :=
  (s.stopTs.sec == 0 && (decide (num < 0) || decide (count < num)))
    || s.lastTs.lt s.stopTs

/-- The loop of `read_packets`, for so many passes at most. -/
def readLoop (q : TopChoice) (num : Int) : Nat → Int → Mux →
    Option (Mux × Int)
  | 0, _, _ => none
  | fuel + 1, count, s =>
      if s.goesOn num count then
        match s.readNextPacket q with
        | (s, true) => readLoop q num fuel (count + 1) s
        | (s, false) => some (s, count + 1)
      else
        some (s, count)

/-- `read_packets`. -/
def readPackets (q : TopChoice) (fuel : Nat) (num : Int) (s : Mux) :
    Option (Mux × Int) :=
  readLoop q num fuel 0 s

/-- `read_packets_until`. -/
def readPacketsUntil (q : TopChoice) (fuel : Nat) (ts : Timestamp)
    (s : Mux) : Option (Mux × Int) :=
  readPackets q fuel (-1) { s with stopTs := ts }

end Mux

end TradingEngine.Net
