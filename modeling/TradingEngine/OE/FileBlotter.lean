/-
`oe/FileBlotter.cpp`, `oe/OrderLogFormat.hpp`: the order log in bytes, and
what `BlotterReader::decode` tells its listeners from these.

# Structs

The structs are packed, and written as they lie in memory. The symbol index
is declared outside of this source and is a parameter; what is left is as on
the platform the source is built for, with an `int` for an enumeration that
names no type.

# Records

An order manager reads the `Message`s. `POSITION` and `NEW_ACCOUNT` are
written too, and mean nothing to it. A record of a type that no writer
writes is passed over here.

The header of a record is read through the constructor of `Timestamp`, so
that its nanoseconds are brought below a second.
-/
import TradingEngine.Core.AsyncMappedFile
import TradingEngine.Core.Timestamp
import TradingEngine.Lib.Codec
import TradingEngine.OE.FileBlotterReader

namespace TradingEngine.OE

open Lib

variable {ι : Type}

-- ================================================================= members

/-- `MD::EphemeralSymbolIndex`, no wider than a pointer. -/
structure EsiCodec (ι : Type) extends Codec ι where
  size_le : size ≤ 8

/-- An index of four bytes. -/
def EsiCodec.u32 : EsiCodec Nat where
  toCodec := .nat 4
  size_le := by decide

/-- `strncpy` into `n` bytes: padded with NUL, and ended by one only if
there is room. -/
def FileBlotter.strncpy (n : Nat) (s : Bytes) : Bytes :=
  (cString s).take n ++ List.replicate (n - ((cString s).take n).length) 0

/-- An enumeration, by its codes. -/
def enumCodec {α : Type} (code : α → Nat) (ofCode : Nat → α) : Codec α :=
  (Codec.nat 4).via code ofCode

def Side.ofCode : Nat → Side
  | 1 => .buy
  | 2 => .sell
  | 3 => .short
  | 4 => .shortExempt
  | _ => .unknown

def OrderType.code : OrderType → Nat
  | .unknown => 0
  | .market => 1
  | .limit => 2
  | .stop => 4
  | .midpointPeg => 8

def OrderType.ofCode : Nat → OrderType
  | 1 => .market
  | 2 => .limit
  | 4 => .stop
  | 8 => .midpointPeg
  | _ => .unknown

def TimeInForce.code : TimeInForce → Nat
  | .unknown => 0
  | .day => 1
  | .ext => 2
  | .gtc => 3
  | .auctionOpen => 4
  | .auctionClose => 5
  | .auctionHalt => 6
  | .timed => 7
  | .immediateOrCancel => 8
  | .fillOrKill => 9

def TimeInForce.ofCode : Nat → TimeInForce
  | 1 => .day
  | 2 => .ext
  | 3 => .gtc
  | 4 => .auctionOpen
  | 5 => .auctionClose
  | 6 => .auctionHalt
  | 7 => .timed
  | 8 => .immediateOrCancel
  | 9 => .fillOrKill
  | _ => .unknown

def FillFeeCode.code : FillFeeCode → Nat
  | .unknown => 0
  | .flag code => code

def FillFeeCode.ofCode : Nat → FillFeeCode
  | 0 => .unknown
  | code => .flag code

/-- The place in `MIC.def.hpp`, from one on. -/
def MIC.code : MIC → Nat
  | .unknown => 0
  | .xnas => 2
  | .bats => 7
  | .other code => code

def MIC.ofCode : Nat → MIC
  | 0 => .unknown
  | 2 => .xnas
  | 7 => .bats
  | code => .other code

def Side.codec : Codec Side := enumCodec code ofCode

def OrderType.codec : Codec OrderType := enumCodec code ofCode

def TimeInForce.codec : Codec TimeInForce := enumCodec code ofCode

def FillFeeCode.codec : Codec FillFeeCode := enumCodec code ofCode

def MIC.codec : Codec MIC := enumCodec code ofCode

/-- `POSIXTimeSpec`. -/
def Timestamp.codec : Codec Timestamp :=
  ((Codec.int 8).prod (.int 8)).via (fun t => (t.sec, t.nsec))
    fun p => ⟨p.1, p.2⟩

def SessionName.codec : Codec SessionName :=
  (Codec.array 8).via SessionName.arr fun bs =>
    ⟨(bs ++ List.replicate 8 0).take 8, by
      rw [List.length_take, List.length_append, List.length_replicate]
      omega⟩

-- ================================================================= structs

/-- `FileHeader`. -/
structure FileHeader where
  magicNumber : Nat
  version : Nat
  gitCommitSha1 : Bytes
  deriving DecidableEq

/-- `reset`. The commit is copied if it has forty characters; else what is
in its place stays there. -/
def FileHeader.reset (h : FileHeader) (version : Nat) (commit : Bytes) :
    FileHeader where
  magicNumber := 0x4F4C4649
  version
  gitCommitSha1 :=
    if (cString commit).length = 40 then cString commit
    else h.gitCommitSha1

def FileHeader.codec : Codec FileHeader :=
  ((Codec.nat 4).prod ((Codec.nat 8).prod (.array 40))).via
    (fun h => (h.magicNumber, h.version, h.gitCommitSha1))
    fun p => ⟨p.1, p.2.1, p.2.2⟩

/-- `FileTrailer`, as it is written. -/
def trailerBytes : Bytes := (Codec.nat 4).encode 0xDEADBEEF

/-- `MessageHeader`. -/
structure MessageHeader where
  length : Nat
  type : UInt8
  subtype : UInt8
  timestamp : Timestamp
  deriving DecidableEq

/-- A `std::uint8_t`. -/
def byteCodec : Codec UInt8 := (Codec.nat 1).via UInt8.toNat UInt8.ofNat

def MessageHeader.codec : Codec MessageHeader :=
  ((Codec.nat 2).prod (byteCodec.prod (byteCodec.prod Timestamp.codec))).via
    (fun h => (h.length, h.type, h.subtype, h.timestamp))
    fun p => ⟨p.1, p.2.1, p.2.2.1, p.2.2.2⟩

def OrderIdentifier.codec : Codec OrderIdentifier :=
  ((Codec.nat 2).prod ((Codec.nat 4).prod SessionName.codec)).via
    (fun o => (o.localAccount, o.localID, o.sessionName))
    fun p => ⟨p.1, p.2.1, p.2.2⟩

/-- `NewOrderBody`. -/
def NewOrderBody.codec (esi : EsiCodec ι) : Codec (NewOrderBody ι) :=
  (esi.toCodec.prod (MIC.codec.prod (OrderIdentifier.codec.prod ((Codec.array 20).prod
    (Codec.double.prod ((Codec.nat 4).prod (Side.codec.prod
      (TimeInForce.codec.prod (OrderType.codec.prod (.nat 8)))))))))).via
    (fun b => (b.instrumentEsi, b.marketMic, b.oid, b.clientOrderID,
      b.origPrice, b.size, b.side, b.tif, b.type, b.userData))
    fun (esi, mic, oid, id, price, size, side, tif, type, data) =>
      ⟨esi, mic, oid, id, price, size % 4294967296, side, tif, type, data,
        Nat.mod_lt _ (by decide)⟩

def OrderAckBody.codec : Codec OrderAckBody :=
  (OrderIdentifier.codec.prod ((Codec.nat 4).prod (.nat 8))).via
    (fun b => (b.oid, b.openSize, b.exchangeTs))
    fun p => ⟨p.1, p.2.1, p.2.2⟩

def OrderFillBody.codec : Codec OrderFillBody :=
  (OrderIdentifier.codec.prod ((Codec.nat 4).prod (Codec.double.prod
    (FillFeeCode.codec.prod (.nat 8))))).via
    (fun b => (b.oid, b.filledQty, b.filledPrice, b.filledFeeCode,
      b.exchangeTs))
    fun p => ⟨p.1, p.2.1, p.2.2.1, p.2.2.2.1, p.2.2.2.2⟩

def OrderCxlReqBody.codec : Codec OrderCxlReqBody :=
  (OrderIdentifier.codec.prod (.nat 4)).via (fun b => (b.oid, b.newQty))
    fun p => ⟨p.1, p.2⟩

def OrderCxlBody.codec : Codec OrderCxlBody :=
  (OrderIdentifier.codec.prod ((Codec.nat 4).prod (.nat 8))).via
    (fun b => (b.oid, b.cxledQty, b.exchangeTs))
    fun p => ⟨p.1, p.2.1, p.2.2⟩

def OrderRejectBody.codec : Codec OrderRejectBody :=
  (OrderIdentifier.codec.prod (.nat 8)).via (fun b => (b.oid, b.exchangeTs))
    fun p => ⟨p.1, p.2⟩

def OrderCxlRejectBody.codec : Codec OrderCxlRejectBody :=
  (OrderIdentifier.codec.prod (.nat 8)).via (fun b => (b.oid, b.exchangeTs))
    fun p => ⟨p.1, p.2⟩

def OrderDestroyBody.codec : Codec OrderDestroyBody :=
  OrderIdentifier.codec.via OrderDestroyBody.oid OrderDestroyBody.mk

def NewSessionBody.codec : Codec NewSessionBody :=
  (SessionName.codec.prod MIC.codec).via (fun b => (b.name, b.marketMic))
    fun p => ⟨p.1, p.2⟩

structure NewInstrumentBody (ι : Type) where
  esi : ι
  listingMarket : MIC
  symbol : Bytes
  bloombergGidFigi : Bytes
  deriving DecidableEq

def NewInstrumentBody.codec (esi : EsiCodec ι) : Codec (NewInstrumentBody ι) :=
  (esi.toCodec.prod (MIC.codec.prod ((Codec.array 10).prod (.array 12)))).via
    (fun b => (b.esi, b.listingMarket, b.symbol, b.bloombergGidFigi))
    fun p => ⟨p.1, p.2.1, p.2.2.1, p.2.2.2⟩

structure PositionBody (ι : Type) where
  source : Nat
  instrument : NewInstrumentBody ι
  qty : Int
  avgPrice : Rat
  markPrice : Rat
  deriving DecidableEq

def PositionBody.codec (esi : EsiCodec ι) : Codec (PositionBody ι) :=
  ((Codec.nat 1).prod ((NewInstrumentBody.codec esi).prod ((Codec.int 8).prod
    (Codec.double.prod .double)))).via
    (fun b => (b.source, b.instrument, b.qty, b.avgPrice, b.markPrice))
    fun p => ⟨p.1, p.2.1, p.2.2.1, p.2.2.2.1, p.2.2.2.2⟩

structure NewAccountBody where
  la : Nat
  name : Bytes
  deriving DecidableEq

def NewAccountBody.codec : Codec NewAccountBody :=
  ((Codec.nat 2).prod (.array 256)).via (fun b => (b.la, b.name))
    fun p => ⟨p.1, p.2⟩

/-- The sizes that the reader casts by. -/
def sizesOf (esi : EsiCodec ι) : Sizes := ⟨esi.size, 4, 16⟩

section Size

variable (esi : EsiCodec ι)

theorem NewOrderBody.size_codec :
    (NewOrderBody.codec esi).size = (sizesOf esi).newOrderBody := by
  show esi.size + (4 + (14 + (20 + (8 + (4 + (4 + (4 + (4 + 8))))))))
    = esi.size + 4 + 14 + 20 + 8 + 4 + 4 + 4 + 4 + 8
  omega

theorem PositionBody.size_codec :
    (PositionBody.codec esi).size
      = 1 + (sizesOf esi).newInstrumentBody + 8 + 8 + 8 := by
  show 1 + ((esi.size + (4 + (10 + 12))) + (8 + (8 + 8)))
    = 1 + (esi.size + 4 + 10 + 12) + 8 + 8 + 8
  omega

end Size

-- ================================================================= records

def MessageType.toByte : MessageType → UInt8
  | .unknown => 0
  | .timestamp => 1
  | .startOfLog => 2
  | .endOfLog => 3
  | .newInstrument => 4
  | .newOrder => 5
  | .orderLocalReject => 6
  | .orderSent => 7
  | .orderAcknowledgement => 8
  | .orderPartialFill => 9
  | .orderFill => 10
  | .orderCancelRequest => 11
  | .orderPartialCancel => 12
  | .orderCancel => 13
  | .orderCxlreplRequest => 14
  | .orderCancelReplace => 15
  | .orderRemoteReject => 16
  | .orderCancelReject => 17
  | .orderDestroy => 18
  | .position => 19
  | .manualPositionAdj => 20
  | .newSession => 21
  | .orderSessionData => 22
  | .newAccount => 23

/-- What `FileBlotter` writes a record of. -/
inductive LogEntry (ι : Type)
  | message (m : Message ι)
  | position (timestamp : Timestamp) (body : PositionBody ι)
  | newAccount (timestamp : Timestamp) (body : NewAccountBody)
  deriving DecidableEq

/-- `log_position`. -/
def logPosition (source : Nat) (esi : ι) (listingMarket : MIC)
    (symbol : Bytes) (qty : Int) (avgPrice markPrice : Rat)
    (now : Timestamp) : LogEntry ι :=
  .position now {
    source
    instrument := ⟨esi, listingMarket, FileBlotter.strncpy 10 symbol,
      List.replicate 12 0⟩
    qty, avgPrice, markPrice }

/-- `log_add_strategy`, of an account that is not zero. -/
def logAddStrategy (name : Bytes) (la : Nat) (now : Timestamp) :
    Option (LogEntry ι) :=
  if la = 0 then none else some (.newAccount now ⟨la, FileBlotter.strncpy 256 name⟩)

/-- The type of a message is one that its body is written under. -/
def Message.Typed (m : Message ι) : Prop :=
  match m.body with
  | .fileHeader => m.type = .startOfLog
  | .fileTrailer => m.type = .endOfLog
  | .orderLocalReject _ => m.type = .orderLocalReject
  | .orderSent _ => m.type = .orderSent
  | .orderAck _ => m.type = .orderAcknowledgement
  | .orderFill _ => m.type = .orderPartialFill ∨ m.type = .orderFill
  | .orderCxlReq _ => m.type = .orderCancelRequest
  | .orderCxl _ => m.type = .orderCancel
  | .orderReject _ => m.type = .orderRemoteReject
  | .orderCxlReject _ => m.type = .orderCancelReject
  | .orderDestroy _ => m.type = .orderDestroy
  | .newSession _ => m.type = .newSession

/-- The bytes of a body. -/
def Body.bytes (esi : EsiCodec ι) (header : FileHeader) : Body ι → Bytes
  | .fileHeader => FileHeader.codec.encode header
  | .fileTrailer => trailerBytes
  | .orderLocalReject b => (NewOrderBody.codec esi).encode b
  | .orderSent b => (NewOrderBody.codec esi).encode b
  | .orderAck b => OrderAckBody.codec.encode b
  | .orderFill b => OrderFillBody.codec.encode b
  | .orderCxlReq b => OrderCxlReqBody.codec.encode b
  | .orderCxl b => OrderCxlBody.codec.encode b
  | .orderReject b => OrderRejectBody.codec.encode b
  | .orderCxlReject b => OrderCxlRejectBody.codec.encode b
  | .orderDestroy b => OrderDestroyBody.codec.encode b
  | .newSession b => NewSessionBody.codec.encode b

namespace LogEntry

def type : LogEntry ι → MessageType
  | .message m => m.type
  | .position .. => .position
  | .newAccount .. => .newAccount

def timestamp : LogEntry ι → Timestamp
  | .message m => m.timestamp
  | .position ts _ => ts
  | .newAccount ts _ => ts

def body (esi : EsiCodec ι) (header : FileHeader) : LogEntry ι → Bytes
  | .message m => m.body.bytes esi header
  | .position _ b => (PositionBody.codec esi).encode b
  | .newAccount _ b => NewAccountBody.codec.encode b

/-- `Message<T>`: the length is that of the body. -/
def bytes (esi : EsiCodec ι) (header : FileHeader) (e : LogEntry ι) : Bytes :=
  MessageHeader.codec.encode
      ⟨(e.body esi header).length, e.type.toByte, 0, e.timestamp⟩
    ++ e.body esi header

/-- A record takes a few hundred bytes. -/
theorem length_body_le (esi : EsiCodec ι) (header : FileHeader)
    (e : LogEntry ι) : (e.body esi header).length ≤ 512 := by
  have hesi := esi.size_le
  have horder : (sizesOf esi).newOrderBody ≤ 512 := by
    show esi.size + 4 + 14 + 20 + 8 + 4 + 4 + 4 + 4 + 8 ≤ 512
    omega
  cases e with
  | message m =>
      show (m.body.bytes esi header).length ≤ 512
      cases m.body with
      | fileHeader => rw [Body.bytes, Codec.length_encode]; decide
      | fileTrailer =>
          show trailerBytes.length ≤ 512
          decide
      | orderLocalReject b =>
          rw [Body.bytes, Codec.length_encode, NewOrderBody.size_codec]
          exact horder
      | orderSent b =>
          rw [Body.bytes, Codec.length_encode, NewOrderBody.size_codec]
          exact horder
      | orderAck b => rw [Body.bytes, Codec.length_encode]; decide
      | orderFill b => rw [Body.bytes, Codec.length_encode]; decide
      | orderCxlReq b => rw [Body.bytes, Codec.length_encode]; decide
      | orderCxl b => rw [Body.bytes, Codec.length_encode]; decide
      | orderReject b => rw [Body.bytes, Codec.length_encode]; decide
      | orderCxlReject b => rw [Body.bytes, Codec.length_encode]; decide
      | orderDestroy b => rw [Body.bytes, Codec.length_encode]; decide
      | newSession b => rw [Body.bytes, Codec.length_encode]; decide
  | position ts b =>
      show ((PositionBody.codec esi).encode b).length ≤ 512
      rw [Codec.length_encode, PositionBody.size_codec]
      show 1 + (esi.size + 4 + 10 + 12) + 8 + 8 + 8 ≤ 512
      omega
  | newAccount ts b =>
      show (NewAccountBody.codec.encode b).length ≤ 512
      rw [Codec.length_encode]
      decide

theorem length_bytes (esi : EsiCodec ι) (header : FileHeader)
    (e : LogEntry ι) :
    (e.bytes esi header).length
      = (sizesOf esi).header + (e.body esi header).length := by
  unfold bytes
  rw [List.length_append, Codec.length_encode]
  rfl

/-- A record, as an argument of `write`. -/
def chunk (esi : EsiCodec ι) (header : FileHeader) (e : LogEntry ι) :
    Core.Chunk where
  bytes := e.bytes esi header
  length_pos := by
    rw [length_bytes]
    exact Nat.add_pos_left (show 0 < 2 + 1 + 1 + 16 by decide) _
  length_lt := by
    have hbody := e.length_body_le esi header
    rw [length_bytes]
    show 2 + 1 + 1 + 16 + _ < 2147483648
    omega

end LogEntry

-- ================================================================ in range

/-- Every member of a body is one that its type can hold. -/
def Body.Fits (esi : EsiCodec ι) : Body ι → Prop
  | .fileHeader | .fileTrailer => True
  | .orderLocalReject b | .orderSent b => (NewOrderBody.codec esi).Holds b
  | .orderAck b => OrderAckBody.codec.Holds b
  | .orderFill b => OrderFillBody.codec.Holds b
  | .orderCxlReq b => OrderCxlReqBody.codec.Holds b
  | .orderCxl b => OrderCxlBody.codec.Holds b
  | .orderReject b => OrderRejectBody.codec.Holds b
  | .orderCxlReject b => OrderCxlRejectBody.codec.Holds b
  | .orderDestroy b => OrderDestroyBody.codec.Holds b
  | .newSession b => NewSessionBody.codec.Holds b

/-- As `Timestamp`'s constructor leaves it. -/
def Timestamp.Fits (ts : Timestamp) : Prop :=
  codec.Holds ts ∧ Timestamp.make ts.sec ts.nsec = ts

/-- What the members of a record are by their types, and the nanoseconds
below a second. -/
def LogEntry.Fits (esi : EsiCodec ι) : LogEntry ι → Prop
  | .message m => m.Typed ∧ m.timestamp.Fits ∧ m.body.Fits esi
  | .position ts b => ts.Fits ∧ (PositionBody.codec esi).Holds b
  | .newAccount ts b => ts.Fits ∧ NewAccountBody.codec.Holds b

/-- The order log, of a writer whose file header is known. -/
def logBytes (esi : EsiCodec ι) (header : FileHeader) (es : List (LogEntry ι)) :
    Bytes :=
  es.flatMap (LogEntry.bytes esi header)

-- ================================================================== reader

/-- What the listeners get to see of the record that begins with `buf`:
its struct is cast from what comes behind the header. -/
def LogEntry.read (esi : EsiCodec ι) (type : MessageType) (ts : Timestamp)
    (buf : Bytes) : Option (LogEntry ι) :=
  match type with
  | .startOfLog => some (.message ⟨type, ts, .fileHeader⟩)
  | .endOfLog => some (.message ⟨type, ts, .fileTrailer⟩)
  | .orderLocalReject =>
      some (.message ⟨type, ts,
        .orderLocalReject ((NewOrderBody.codec esi).read buf 0)⟩)
  | .orderSent =>
      some (.message ⟨type, ts,
        .orderSent ((NewOrderBody.codec esi).read buf 0)⟩)
  | .orderAcknowledgement =>
      some (.message ⟨type, ts, .orderAck (OrderAckBody.codec.read buf 0)⟩)
  | .orderPartialFill | .orderFill =>
      some (.message ⟨type, ts, .orderFill (OrderFillBody.codec.read buf 0)⟩)
  | .orderCancelRequest =>
      some (.message ⟨type, ts,
        .orderCxlReq (OrderCxlReqBody.codec.read buf 0)⟩)
  | .orderPartialCancel | .orderCancel =>
      some (.message ⟨type, ts, .orderCxl (OrderCxlBody.codec.read buf 0)⟩)
  | .orderRemoteReject =>
      some (.message ⟨type, ts,
        .orderReject (OrderRejectBody.codec.read buf 0)⟩)
  | .orderCancelReject =>
      some (.message ⟨type, ts,
        .orderCxlReject (OrderCxlRejectBody.codec.read buf 0)⟩)
  | .orderDestroy =>
      some (.message ⟨type, ts,
        .orderDestroy (OrderDestroyBody.codec.read buf 0)⟩)
  | .newSession =>
      some (.message ⟨type, ts,
        .newSession (NewSessionBody.codec.read buf 0)⟩)
  | .position => some (.position ts ((PositionBody.codec esi).read buf 0))
  | .newAccount => some (.newAccount ts (NewAccountBody.codec.read buf 0))
  | _ => none

/-- What a call of `decode` tells the listeners. -/
def told (esi : EsiCodec ι) (buf : Bytes) : Option (LogEntry ι) :=
  let sz := sizesOf esi
  if sz.header + recordLength buf ≤ buf.length then
    let ts := Timestamp.codec.read buf 4
    LogEntry.read esi (recordType buf) (.make ts.sec ts.nsec)
      (buf.drop sz.header)
  else none

/-- What a replay of a log tells the listeners, in order. -/
def replayed (esi : EsiCodec ι) (log : Bytes) : List (LogEntry ι) :=
  ((FileBlotterReader.create log).replay (sizesOf esi) log.length).2.filterMap
    fun call => told esi (log.drop call.offset)

/-- What an order manager among the listeners takes in. -/
def messages (es : List (LogEntry ι)) : List (Message ι) :=
  es.filterMap fun
    | .message m => some m
    | _ => none

-- ==================================================================== file

/-- What `as_readonly_buffer` gives: the bytes that the counter counts. -/
def contents (file : Core.AsyncMappedFile) : Bytes :=
  (List.range file.asReadonlyBuffer.2.toNat).map file.asReadonlyBuffer.1

/-- A thread writes a record: into `AsyncMappedFile::write` with it, and out
again. -/
inductive LogTurn (ω ι : Type)
  | enter (writer : ω) (e : LogEntry ι)
  | leave (writer : ω)
  deriving DecidableEq

namespace LogTurn

variable {ω : Type} (esi : EsiCodec ι) (header : FileHeader)

/-- The step of the file's writers that it is. -/
def op : LogTurn ω ι → Core.SharedFile.Op ω
  | .enter writer e => .reserve writer (e.chunk esi header)
  | .leave writer => .finish writer

/-- The record of a turn. A thread that is in `write` does not enter it
again. -/
def entry [DecidableEq ω] (s : Core.SharedFile ω) :
    LogTurn ω ι → List (LogEntry ι)
  | .enter writer e => if s.busy writer then [] else [e]
  | .leave _ => []

/-- The records that are written, in the order of the reservations. -/
def entered [DecidableEq ω] (s : Core.SharedFile ω) :
    List (LogTurn ω ι) → List (LogEntry ι)
  | [] => []
  | turn :: turns =>
      turn.entry s ++ entered (s.step (turn.op esi header)) turns

end LogTurn

end TradingEngine.OE
