/-
`ts/tps/TPSServer.cpp`, handshakes with their strings: what `HandshakeEvent`
writes, and what `HandshakeEventBufWrapper` reads.

`TPSServer` has the wrapper as far as `handle_raw_bytes` looks at it, its
validity and its bytes. Here it is with the pointers to its strings; a
pointer with its length is the bytes it points to, or nothing while it is
null. Numbers are written in the byte order of the host, least significant
byte first.
-/
import TradingEngine.TS.TPSServer

namespace TradingEngine.TS.TPS

open Lib (le16 leBytes bytesAt)

-- =================================================================== writer

/-- The `uint16_t` of an enumerator. -/
def EventType.toU16 : EventType → Nat
  | .marketEvent => 0
  | .orderStatusEvent => 2
  | .nasdaqClosingCrossEvent => 3
  | .parentOrderStatusEvent => 4
  | .rootOrderStatusEvent => 5
  | .netEvent => 6
  | .subscriptionEvent => 7
  | .snapshotRequestEvent => 8
  | .snapshotEvent => 9
  | .netMarketEvent => 10
  | .handshakeEvent => 11
  | .expretEvent => 12

/-- `Inst{inst_type, inst_id}`. -/
def inst (instType instId : UInt32) : DataBuffer :=
  leBytes 4 instType.toNat ++ leBytes 4 instId.toNat

/-- `TimeType{tt_secs, tt_nsecs}`. -/
def timeType (secs nsecs : UInt64) : DataBuffer :=
  leBytes 8 secs.toNat ++ leBytes 8 nsecs.toNat

/-- `Event(et, p)`: the header, an instrument and no date and time. -/
def event (et : EventType) : DataBuffer :=
  [0, 1] ++ leBytes 2 et.toU16 ++ inst 0 (-1)
    ++ (leBytes 4 0 ++ timeType 0 0)

/-- `NetEvent(ne, et)`. -/
def netEvent (et : EventType) : DataBuffer :=
  event et ++ [0, 1] ++ timeType 0 0

/-- `Event::EXPECTED_VERSION_STRING`: `EVS111111221`. -/
def expectedVersionString : DataBuffer :=
  [69, 86, 83, 49, 49, 49, 49, 49, 49, 50, 50, 49]

/-- `sizeof(HandshakeEventBuf::Layout)`. -/
def handshakeLayoutSize : Nat := 4

/-- `HandshakeEvent(version, alias)`: the bytes of `m_data`. -/
def handshakeEvent (version name : DataBuffer) : DataBuffer :=
  netEvent .handshakeEvent ++ [0, 1] ++ leBytes 2 version.length ++ version
    ++ leBytes 2 name.length ++ name

/-- `num_bytes_needed`. -/
def numBytesNeeded (version name : DataBuffer) : Nat :=
  netEventBufSize + handshakeLayoutSize + 2 + version.length + name.length

-- =================================================================== reader

/-- `HandshakeEventBufWrapper`, with its strings. -/
structure HandshakeEventBufWrapper extends EventBufWrapper where
  versionBuf : Option DataBuffer
  aliasBuf : Option DataBuffer
  deriving DecidableEq, Repr

/-- `version()`, unless the string is built from a null pointer. -/
def HandshakeEventBufWrapper.versionString (w : HandshakeEventBufWrapper) :
    Option DataBuffer := w.versionBuf

/-- `alias()`, unless the string is built from a null pointer. -/
def HandshakeEventBufWrapper.aliasString (w : HandshakeEventBufWrapper) :
    Option DataBuffer := w.aliasBuf

/-- The label `invalid`. -/
def HandshakeEventBufWrapper.invalid (versionBuf : Option DataBuffer) :
    HandshakeEventBufWrapper := ⟨⟨false, 0⟩, versionBuf, none⟩

/-- `HandshakeEventBufWrapper(buf, len)`. -/
def handshakeEventBuf (buf : DataBuffer) : HandshakeEventBufWrapper :=
  let w := netEventBufWrapper buf
  if w.valid then
    if buf.length - w.bytesRead < handshakeEventBufSize then .invalid none
    else
      let bytesRead := handshakeEventBufSize
      if le16 buf netEventBufSize ≠ HandshakeEventBuf.expectedVersion then
        .invalid none
      else if bytesRead + versionStringLen buf ≤ buf.length then
        let versionBuf := some (bytesAt buf bytesRead (versionStringLen buf))
        let bytesRead := bytesRead + versionStringLen buf
        if bytesRead + 2 ≤ buf.length then
          let bytesRead := bytesRead + 2
          if bytesRead + aliasLen buf ≤ buf.length then
            ⟨⟨true, bytesRead + aliasLen buf⟩, versionBuf,
              some (bytesAt buf bytesRead (aliasLen buf))⟩
          -- no `goto invalid` here
          else ⟨⟨true, bytesRead⟩, versionBuf, none⟩
        else .invalid versionBuf
      else .invalid none
  else .invalid none

end TradingEngine.TS.TPS
