/-
`apps/reorderpcap/reorderpcap.cpp`: sorting a capture file by time.

Files are lists of records. Reads, writes and memory do not fail, and the
temporary file is not there beforehand, so `pass1` returns no negative
value; its progress output is left out, and so is `pass0`, which only looks
at paths.

The priority queue is the list of its records with the top first. The
sub-second field of a packet is below a second (`PcapRecord.usec_lt`); its
seconds are those of `struct timeval`, which are filled from a signed field
of the file.
-/
import TradingEngine.Core.Timestamp

namespace TradingEngine.Apps

open OE (Timestamp)

-- =================================================================== records

/-- `pcap_pkthdr` and the bytes captured. -/
structure PcapRecord where
  sec : Int
  /-- `tv_usec`, which counts nanoseconds. -/
  usec : Int
  len : Nat
  data : List UInt8
  sec_fits : -9223372036854775808 ≤ sec ∧ sec < 9223372036854775808
  usec_lt : 0 ≤ usec ∧ usec < 1000000000

namespace PcapRecord

/-- `rec.ts`. -/
def ts (r : PcapRecord) : Timestamp := .make r.sec r.usec

end PcapRecord

/-- `Record`. -/
structure Record where
  ts : Timestamp
  seqnum : Int
  /-- `hdr` and `buf`. -/
  packet : PcapRecord

namespace Record

/-- `operator>`. -/
def gt (lhs rhs : Record) : Bool :=
  lhs.ts.gt rhs.ts
    || (lhs.ts.eq rhs.ts && decide (lhs.seqnum > rhs.seqnum))

end Record

-- ===================================================================== pass1

/-- `std::priority_queue<Record, std::vector<Record>,
std::greater<Record>>`. -/
abbrev Records := List Record

/-- `recs.emplace`. -/
def Records.emplace (r : Record) : Records → Records
  | [] => [r]
  | q :: qs => if q.gt r then r :: q :: qs else q :: Records.emplace r qs

/-- The variables of `pass1`, and the records written to `opc`. -/
structure Pass1 where
  recs : Records := []
  seqnum : Int := 0
  lastTs : Timestamp := ⟨0, 0⟩
  dumped : List Record := []

namespace Pass1

/-- The record of a packet, added to `recs`. -/
def ingest (s : Pass1) (pkt : PcapRecord) : Pass1 :=
  { s with
    recs := Records.emplace ⟨pkt.ts, s.seqnum, pkt⟩ s.recs
    seqnum := s.seqnum + 1 }

/-- One pass of the loop. An error is what `pass1` returns from within. -/
def step (bs : Int) (s : Pass1) (pkt : PcapRecord) : Except Int Pass1 :=
  let s := s.ingest pkt
  match s.recs with
  | [] => .ok s
  | r :: recs =>
      if bs > 0 ∧ (s.recs.length : Int) ≥ bs then
        if s.lastTs.gt r.ts then
          .error s.seqnum
        else
          .ok { s with
            recs := recs, lastTs := r.ts, dumped := s.dumped ++ [r] }
      else
        .ok s

/-- The loop over the packets of the file. -/
def loop (bs : Int) (s : Pass1) : List PcapRecord → Except Int Pass1
  | [] => .ok s
  | pkt :: pkts =>
      match step bs s pkt with
      | .error e => .error e
      | .ok s => loop bs s pkts

/-- At the end of the file the queue is emptied from the top. -/
def drain (s : Pass1) : List PcapRecord :=
  (s.dumped ++ s.recs).map Record.packet

end Pass1

/-- What `pass1` returns, and the output file when it left one. -/
structure Pass1Result where
  ret : Int
  output : Option (List PcapRecord)

/-- `pass1`. -/
def pass1 (p : List PcapRecord) (bs : Int) : Pass1Result :=
  match Pass1.loop bs {} p with
  | .error seqnum => { ret := seqnum, output := none }
  | .ok s => { ret := 0, output := some s.drain }

-- ====================================================================== main

inductive ExitCode
  | success
  | failure
  deriving DecidableEq, Repr

/-- The loop of `main` over the passes, for so many of them at most. The
batch size doubles without overflow, as it was no larger than the file. -/
def passes (p : List PcapRecord) (noFallback : Bool) :
    Nat → Int → Int → Option ExitCode
  | 0, _, _ => none
  | fuel + 1, remaining, batchSize =>
      if (remaining ≤ 0 ∨ batchSize = 0) ∧ noFallback then
        some .failure
      else
        let ret := (pass1 p (if remaining > 0 then batchSize else 0)).ret
        if ret = 0 then
          some .success
        else if ret < 0 then
          some .failure
        else if remaining > 0 then
          passes p noFallback fuel (remaining - 1)
            (if remaining - 1 = 0 then 0 else batchSize * 2)
        else
          passes p noFallback fuel remaining batchSize

/-- `main`, from the options on. -/
def main (p : List PcapRecord) (numPasses initialPassChunkSize : Int)
    (noFallback : Bool) (fuel : Nat) : Option ExitCode :=
  if initialPassChunkSize < 0 then
    some .failure
  else
    let remaining :=
      if numPasses ≤ 0 ∨ initialPassChunkSize ≤ 0 then 0 else numPasses
    let batchSize :=
      if numPasses ≤ 0 ∨ initialPassChunkSize ≤ 0 then 0
      else initialPassChunkSize
    if batchSize = 0 ∧ noFallback then
      some .failure
    else
      passes p noFallback fuel remaining batchSize

end TradingEngine.Apps
