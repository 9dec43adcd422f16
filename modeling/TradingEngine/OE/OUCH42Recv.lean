/-
`oe/NASDAQ/OUCH42Session.cpp`, the receiving side: `on_recv`,
`defer_bytes` and `dispatch_packet`, from bytes to SoupBinTCP packets.

What the handlers do with a packet is not modelled here; they touch none
of these members. A packet counts as handled when it reaches an arm of the
switch in `dispatch_packet`: one for each `handle_packet`, one for debug
packets and one for types it does not know.
-/
import TradingEngine.Lib.Bytes
import TradingEngine.Lib.Framing
import TradingEngine.OE.Types

namespace TradingEngine.OE

open Lib (be16 byteAt)

namespace SoupBinTCP30

/-- `sizeof(PacketHeader)`: the packed length and type. -/
def packetHeaderSize : Nat := 3

/-- `ntohs(hdr->packet_length)`, which counts the type but not itself. -/
def packetLength (buf : Bytes) : Nat := be16 buf 0

/-- The arms of the switch on `DownstreamPacketType`. -/
inductive Handler
  | debug
  | loginAccept
  | loginReject
  | sequencedData
  | serverHeartbeat
  | endOfSession
  | skippingInvalid
  deriving DecidableEq, Repr

/-- `switch (hdr->packet_type)`. -/
def handlerOf (buf : Bytes) : Handler :=
  match (byteAt buf 2).toNat with
  | 43 => .debug
  | 65 => .loginAccept
  | 74 => .loginReject
  | 83 => .sequencedData
  | 72 => .serverHeartbeat
  | 90 => .endOfSession
  | _ => .skippingInvalid

end SoupBinTCP30

open SoupBinTCP30

/-- A packet as its arm of the switch gets it: the bytes from its length
field on, `consumed_len` of them. -/
abbrev HandledPacket := Handler × Bytes

/-- The members of `OUCH42Session` that `on_recv` works on. -/
structure OUCH42Recv where
  /-- The first `m_dangly_length` bytes of `m_dangly_bytes`. -/
  danglyBytes : Bytes
  handled : List HandledPacket
  /-- A write went past the end of `m_dangly_bytes`. -/
  overrun : Bool
  deriving DecidableEq

namespace OUCH42Recv

/-- A new session. -/
def init : OUCH42Recv := ⟨[], [], false⟩

/-- `std::array<char, 4096>`. -/
def danglyCapacity : Nat := 4096

def danglyLength (s : OUCH42Recv) : Nat := s.danglyBytes.length

/-- `defer_bytes`: a `memcpy` to the end of what is there, unchecked. -/
def deferBytes (s : OUCH42Recv) (buf : Bytes) : OUCH42Recv :=
  if buf.length = 0 then s
  else
    { s with
      danglyBytes := s.danglyBytes ++ buf
      overrun := s.overrun
        || decide (s.danglyLength + buf.length > danglyCapacity) }

/-- What `dispatch_packet` returns for a buffer: the length of the packet
at its front, zero unless all of it is there. -/
def dispatchLength (buf : Bytes) : Nat :=
  if buf.length < packetHeaderSize then 0
  else
    let consumedLen := 2 + packetLength buf
    if buf.length < consumedLen then 0 else consumedLen

/-- `dispatch_packet`, on the `len` bytes at `buf`. -/
def dispatchPacket (s : OUCH42Recv) (buf : Bytes) (len : Nat) :
    Nat × OUCH42Recv :=
  let ret := dispatchLength (buf.take len)
  if ret = 0 then (0, s)
  else
    (ret, { s with handled := s.handled ++ [(handlerOf buf, buf.take ret)] })

/-- The loop at the end of `on_recv`, which dispatches from the front and
defers what is left. It ends because every turn but the last consumes. -/
def dispatchAll : Nat → OUCH42Recv → Bytes → OUCH42Recv
  | 0, s, cur => s.deferBytes cur
  | turns + 1, s, cur =>
      let r := s.dispatchPacket cur cur.length
      if r.1 > 0 then dispatchAll turns r.2 (cur.drop r.1)
      else r.2.deferBytes cur

/-- `premlen`, a `size_t`: it wraps for a packet length of zero. -/
def premlen (dangly : Bytes) : Nat :=
  (packetLength dangly + 2 + 18446744073709551616 - packetHeaderSize)
    % 18446744073709551616

/-- `on_recv`. -/
def onRecv (s : OUCH42Recv) (buf : Bytes) : OUCH42Recv :=
  if s.danglyLength + buf.length < packetHeaderSize then s.deferBytes buf
  else if s.danglyLength > 0 then
    -- the remainder of the header first
    let bufOff :=
      if s.danglyLength < packetHeaderSize then
        packetHeaderSize - s.danglyLength
      else 0
    let s := s.deferBytes (buf.take bufOff)
    let cur := buf.drop bufOff
    let premlen := premlen s.danglyBytes
    if cur.length < premlen then s.deferBytes cur
    else
      let s := s.deferBytes (cur.take premlen)
      let cur := cur.drop premlen
      let s := (s.dispatchPacket s.danglyBytes 0).2
      dispatchAll cur.length s cur
  else dispatchAll buf.length s buf

end OUCH42Recv

end TradingEngine.OE
