/-
`oe/BlotterReader.cpp`, `oe/FileBlotterReader.cpp`: an order log as bytes.

The log is mapped into memory and the reader goes through it with a
pointer, here an offset. `decode` casts what it finds to the struct of the
record's type and passes a reference on, so what it and the listeners read
is said in extents: the header, then the whole struct. Its size is that of
the packed struct; three of its members are declared outside of this
source, their sizes are parameters.
-/
import TradingEngine.OE.OrderLogFormat
import TradingEngine.Lib.Bytes

namespace TradingEngine.OE

open Lib

-- ================================================================== sizes

/-- `sizeof` of what is declared elsewhere: the symbol index, `MICEnum` and
`POSIXTimeSpec`. -/
structure Sizes where
  esi : Nat
  mic : Nat
  timeSpec : Nat

/-- As on the platform the source is built for. -/
def Sizes.usual : Sizes := ⟨4, 4, 16⟩

namespace Sizes

variable (sz : Sizes)

/-- `MessageHeader`: length, type, subtype, timestamp. -/
def header : Nat := 2 + 1 + 1 + sz.timeSpec

/-- `OrderIdentifier`: account, local id, session name. -/
def orderIdentifier : Nat := 2 + 4 + 8

def newInstrumentBody : Nat := sz.esi + sz.mic + 10 + 12

/-- `NewOrderBody`, and the two bodies that hold one: instrument, market,
identifier, client order id, price, size, side, tif, type, user data. -/
def newOrderBody : Nat :=
  sz.esi + sz.mic + orderIdentifier + 20 + 8 + 4 + 4 + 4 + 4 + 8

/-- The struct `decode` casts to, for the types that have one. -/
def body : MessageType → Option Nat
  | .unknown | .timestamp | .startOfLog | .endOfLog => none
  | .newInstrument => some sz.newInstrumentBody
  | .newOrder | .orderLocalReject | .orderSent => some sz.newOrderBody
  | .orderAcknowledgement => some (orderIdentifier + 4 + 8)
  | .orderPartialFill | .orderFill =>
      some (orderIdentifier + 4 + 8 + 4 + 8)
  | .orderCancelRequest => some (orderIdentifier + 4)
  | .orderPartialCancel | .orderCancel => some (orderIdentifier + 4 + 8)
  | .orderCxlreplRequest | .orderCancelReplace =>
      some (orderIdentifier + sz.newOrderBody)
  | .orderRemoteReject | .orderCancelReject => some (orderIdentifier + 8)
  | .orderDestroy => some orderIdentifier
  | .position => some (1 + sz.newInstrumentBody + 8 + 8 + 8)
  | .manualPositionAdj => some (sz.esi + 4 + 4)
  | .newSession => some (8 + sz.mic)
  | .orderSessionData => some orderIdentifier
  | .newAccount => some (2 + 256)

end Sizes

/-- `static_cast<MessageType>` of the header's byte; what is no type goes
the way of `UNKNOWN`. -/
def MessageType.ofByte (b : UInt8) : MessageType :=
  match b.toNat with
  | 1 => .timestamp
  | 2 => .startOfLog
  | 3 => .endOfLog
  | 4 => .newInstrument
  | 5 => .newOrder
  | 6 => .orderLocalReject
  | 7 => .orderSent
  | 8 => .orderAcknowledgement
  | 9 => .orderPartialFill
  | 10 => .orderFill
  | 11 => .orderCancelRequest
  | 12 => .orderPartialCancel
  | 13 => .orderCancel
  | 14 => .orderCxlreplRequest
  | 15 => .orderCancelReplace
  | 16 => .orderRemoteReject
  | 17 => .orderCancelReject
  | 18 => .orderDestroy
  | 19 => .position
  | 20 => .manualPositionAdj
  | 21 => .newSession
  | 22 => .orderSessionData
  | 23 => .newAccount
  | _ => .unknown

-- ================================================================ decode

/-- `Errors`, negated. -/
def noHeaderSize : Int := -1

def noMsgSize : Int := -2

/-- What `decode` returns, and what it and the listeners read, from where
it was called. -/
structure Decoded where
  ret : Int
  reads : List Extent

/-- `header->length`. -/
def recordLength (buf : List UInt8) : Nat := le16 buf 0

def recordType (buf : List UInt8) : MessageType := .ofByte (byteAt buf 2)

/-- `BlotterReader::decode`. -/
def decode (sz : Sizes) (buf : List UInt8) : Decoded :=
  if sz.header > buf.length then ⟨noHeaderSize, []⟩
  else if sz.header + recordLength buf > buf.length then
    ⟨noMsgSize, [⟨0, sz.header⟩]⟩
  else
    ⟨sz.header + recordLength buf, ⟨0, sz.header⟩
      :: ((sz.body (recordType buf)).map fun n =>
        ⟨sz.header, n⟩).toList⟩

-- ============================================================= the reader

/-- A call of `decode`, by where in the log it was made. -/
structure DecodeCall where
  offset : Nat
  reads : List Extent

structure FileBlotterReader where
  /-- `m_buf_start` and `m_buffer_len`. -/
  buffer : List UInt8
  /-- `m_buf`, as an offset; `none` is the null pointer. -/
  buf : Option Nat

namespace FileBlotterReader

/-- The constructor rewinds. -/
def create (buffer : List UInt8) : FileBlotterReader := ⟨buffer, some 0⟩

/-- `do_at_end`, of a log that stays as long as it is. -/
def atEnd (r : FileBlotterReader) : Bool :=
  match r.buf with
  | none => true
  | some off => decide (off ≥ r.buffer.length)

/-- `do_next`. -/
def next (sz : Sizes) (r : FileBlotterReader) :
    FileBlotterReader × List DecodeCall :=
  match r.buf with
  | none => (r, [])
  | some off =>
      if off < r.buffer.length then
        let d := decode sz (r.buffer.drop off)
        ({ r with buf := if d.ret > 0 then some (off + d.ret.toNat)
                         else none },
          [⟨off, d.reads.map (·.shift off)⟩])
      else (r, [])

/-- `replay`, with a bound on the turns of its loop. -/
def replay (sz : Sizes) : Nat → FileBlotterReader →
    FileBlotterReader × List DecodeCall
  | 0, r => (r, [])
  | turns + 1, r =>
      if r.atEnd then (r, [])
      else
        let n := r.next sz
        let rest := replay sz turns n.1
        (rest.1, n.2 ++ rest.2)

end FileBlotterReader

end TradingEngine.OE
