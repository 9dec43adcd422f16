/-
`apps/seqnumcap/SeqnumCap.hpp`, `apps/seqnumcap/SeqnumCap.cpp`: a log of
sequence numbers, gaps and timeouts of a feed, and reading it back.

The writer's file is an `AsyncMappedFile` of its own; its mutex makes the
writes one after another. What the writer says on `std::cerr` is left out,
and so is the printing of a log.

A pointer into a file is its distance from the beginning of the mapping.
-/
import TradingEngine.Core.AsyncMappedFile
import TradingEngine.OE.Types

namespace TradingEngine.Apps.SeqnumCap

open TradingEngine.Core (AsyncMappedFile)
open OE (Timestamp)

-- ================================================================== the file

/-- `core::MIC::Enum`, with the markets of `MIC.def.hpp`. -/
inductive MIC
  | unknown
  | xnys
  | xnas
  | arcx
  | xbos
  | xpsx
  | baty
  | bats
  | edga
  | edgx
  | caes
  deriving DecidableEq

/-- `index`, as it is stored. -/
def MIC.index : MIC → UInt8
  | unknown => 0
  | xnys => 1
  | xnas => 2
  | arcx => 3
  | xbos => 4
  | xpsx => 5
  | baty => 6
  | bats => 7
  | edga => 8
  | edgx => 9
  | caes => 10

/-- `sizeof(FileHeader::feed_name)`. -/
def feedNameSize : Nat := 15

/-- `FileHeader`. -/
structure FileHeader where
  magicNumber : UInt32
  version : UInt32
  mic : UInt8
  feedName : List UInt8
  deriving DecidableEq

/-- `sizeof(FileHeader)`. -/
def fileHeaderSize : Nat := 24

/-- `sizeof(EventHeader)`. -/
def eventHeaderSize : Nat := 21

/-- `SeqnumWriter::MAGIC_NUMBER`. -/
def magicNumber : UInt32 := 0xEEAD0BF0

/-- `SeqnumWriter::VERSION_NUMBER`. -/
def versionNumber : UInt32 := 1

/-- The header as it is in memory: packed, on a little-endian machine. -/
def FileHeader.bytes (fh : FileHeader) : List UInt8 :=
  Lib.leBytes 4 fh.magicNumber.toNat ++ Lib.leBytes 4 fh.version.toNat
    ++ [fh.mic] ++ fh.feedName

-- ==================================================================== events

/-- `EventType`, of the events that are written. -/
inductive EventType
  | seqnum
  | gap
  | timeout
  deriving DecidableEq

def EventType.code : EventType → UInt8
  | seqnum => 1
  | gap => 2
  | timeout => 3

/-- The calls of a `SeqnumListener`. -/
inductive Event
  | onSeqnum (ts : Timestamp) (seqnum : UInt64) (index : UInt32)
  | onGap (ts : Timestamp) (addr : UInt32) (port : UInt16) (unit : UInt8)
      (expected received : UInt64) (lastTs : Timestamp)
  | onTimeout (ts : Timestamp) (started : Bool) (unit : UInt8)
      (lastTs : Timestamp)
  deriving DecidableEq

/-- The two members of a timestamp, in eight bytes each. -/
def timestampBytes (ts : Timestamp) : List UInt8 :=
  Lib.leBytes 8 (UInt64.ofInt ts.sec).toNat
    ++ Lib.leBytes 8 (UInt64.ofInt ts.nsec).toNat

/-- `EventHeader`. -/
def eventHeaderBytes (type : EventType) (ts : Timestamp) (length : UInt32) :
    List UInt8 :=
  [type.code] ++ timestampBytes ts ++ Lib.leBytes 4 length.toNat

namespace Event

/-- `sizeof` of `SeqnumEvent`, `GapEvent` and `TimeoutEvent`. -/
def size : Event → UInt32
  | onSeqnum .. => 33
  | onGap .. => 60
  | onTimeout .. => 39

/-- What `do_on_seqnum_event`, `do_on_gap_event` and `do_on_timeout_event`
pass to `write`. -/
def bytes : Event → List UInt8
  | onSeqnum ts seqnum index =>
      eventHeaderBytes .seqnum ts 33
        ++ Lib.leBytes 4 index.toNat ++ Lib.leBytes 8 seqnum.toNat
  | onGap ts addr port unit expected received lastTs =>
      eventHeaderBytes .gap ts 60
        ++ Lib.leBytes 4 addr.toNat ++ Lib.leBytes 2 port.toNat ++ [unit]
        ++ Lib.leBytes 8 expected.toNat ++ Lib.leBytes 8 received.toNat
        ++ timestampBytes lastTs
  | onTimeout ts started unit lastTs =>
      eventHeaderBytes .timeout ts 39
        ++ [unit] ++ [if started then 1 else 0] ++ timestampBytes lastTs

end Event

-- ==================================================================== writer

/-- `conforming_name`. -/
def conformingName (str : List UInt8) : List UInt8 := str.take feedNameSize

/-- `write_header`: its name, in a field of spaces. -/
def headerOf (mic : MIC) (name : List UInt8) : FileHeader where
  magicNumber
  version := versionNumber
  mic := mic.index
  feedName := conformingName name
    ++ List.replicate (feedNameSize - (conformingName name).length) 32

/-- `read_header`: what of it is looked at. -/
def readHeader (file : AsyncMappedFile) : UInt8 × List UInt8 :=
  (file.asReadonlyBuffer.1 8,
    (List.range feedNameSize).map fun i => file.asReadonlyBuffer.1 (9 + i))

/-- What the constructor throws. -/
inductive OpenError
  | noSpaceForHeader
  | couldNotWriteHeader
  | tooSmallForHeader
  | doesNotMatch
  deriving DecidableEq

/-- The messages. -/
def OpenError.what : OpenError → String
  | noSpaceForHeader => "SeqnumWriter: no space in file to write header"
  | couldNotWriteHeader => "SeqnumWriter: could not write header to file"
  | tooSmallForHeader =>
      "SeqnumWriter: existing file too small to contain header"
  | doesNotMatch =>
      "SeqnumWriter: existing file does not match MIC or feed name"

/-- `SeqnumWriter::SeqnumWriter`, and what it leaves of the file. -/
def openWriter (mic : MIC) (name : List UInt8) (file : AsyncMappedFile) :
    Except OpenError Unit × AsyncMappedFile :=
  if file.counter = 0 then
    if file.capacity.toNat < fileHeaderSize then
      (.error .noSpaceForHeader, file)
    else
      let r := file.write (headerOf mic name).bytes
      if r.1 < 0 then (.error .couldNotWriteHeader, r.2) else (.ok (), r.2)
  else if file.counter.toNat < fileHeaderSize then
    (.error .tooSmallForHeader, file)
  else
    let fh := readHeader file
    let fn := fh.2.filter fun b => b ≠ 0
    if fh.1 ≠ mic.index ∨ conformingName name ≠ fn then
      (.error .doesNotMatch, file)
    else (.ok (), file)

/-- `do_on_seqnum_event` and the others: one `write`. -/
def onEvent (file : AsyncMappedFile) (e : Event) : AsyncMappedFile :=
  (file.write e.bytes).2

/-- A log that is being written: its file, and the events that were. -/
structure SeqnumLog where
  file : AsyncMappedFile
  written : List Event

namespace SeqnumLog

/-- An event: `write` says whether it was written. -/
def step (log : SeqnumLog) (e : Event) : SeqnumLog where
  file := onEvent log.file e
  written :=
    if (log.file.write e.bytes).1 < 0 then log.written
    else log.written ++ [e]

end SeqnumLog

-- ==================================================================== reader

/-- `SeqnumReader`. A null pointer is `none`. -/
structure SeqnumReader where
  /-- The mapping. -/
  data : Nat → UInt8
  buf : Option Nat
  len : Nat

/-- `SeqnumReader::const_iterator`. -/
structure ConstIterator where
  buf : Option Nat
  endOfBuf : Option Nat
  len : Nat
  deriving DecidableEq

/-- `const_iterator::const_iterator`. -/
def ConstIterator.make (buf : Option Nat) (len : Nat) : ConstIterator where
  buf
  endOfBuf := if len ≠ 0 then buf.map (· + len) else none
  len

/-- The `length` member of the event header at an address. -/
def lengthAt (data : Nat → UInt8) (p : Nat) : Nat :=
  (data (p + 17)).toNat + 256 * ((data (p + 18)).toNat
    + 256 * ((data (p + 19)).toNat + 256 * (data (p + 20)).toNat))

namespace SeqnumReader

/-- `SeqnumReader::SeqnumReader`, of a file that could be mapped. -/
def make (file : AsyncMappedFile) : SeqnumReader :=
  let r := file.asReadonlyBuffer
  if r.2.toNat ≥ fileHeaderSize then
    ⟨r.1, some fileHeaderSize, r.2.toNat - fileHeaderSize⟩
  else ⟨r.1, none, 0⟩

def begin (r : SeqnumReader) : ConstIterator := .make r.buf r.len

/-- `end`. -/
def finish (r : SeqnumReader) : ConstIterator :=
  if r.len > 0 then .make (r.buf.map (· + r.len)) 0 else .make none 0

/-- `operator!=`, against `end`. -/
def more (r : SeqnumReader) (it : ConstIterator) : Bool :=
  it.buf ≠ r.finish.buf

/-- `operator++`. No pointer is below a null pointer; a null pointer is
never moved on, since it is the end. -/
def next (r : SeqnumReader) (it : ConstIterator) : ConstIterator :=
  match it.buf, it.endOfBuf with
  | some p, some e =>
      if lengthAt r.data p + p ≤ e then
        { it with buf := some (p + lengthAt r.data p) }
      else { it with buf := some e }
  | some _, none => { it with buf := none }
  | none, _ => it

/-- The events that a loop from an iterator to the end visits in its first
turns. -/
def visits (r : SeqnumReader) : Nat → ConstIterator → List Nat
  | 0, _ => []
  | turns + 1, it =>
      if r.more it then
        it.buf.toList ++ visits r turns (r.next it)
      else []

/-- The loop is over after so many turns. -/
def ends (r : SeqnumReader) : Nat → ConstIterator → Bool
  | 0, it => !r.more it
  | turns + 1, it => !r.more it || ends r turns (r.next it)

end SeqnumReader

end TradingEngine.Apps.SeqnumCap
