/-
`ts/tps/TPSServer.cpp`, the receiving side of a client session:
`handle_raw_bytes`, `next_event_from_buffer` and the constructors of the
event wrappers.

A wrapper is the event at the front of a buffer: whether it is valid, and
how many bytes were read for it. What `handle_event` does with it is not
modelled here.
-/
import TradingEngine.Lib.Bytes
import TradingEngine.Lib.Framing

namespace TradingEngine.TS.TPS

open Lib (byteAt le16)

/-- `DataBuffer`. -/
abbrev DataBuffer := List UInt8

-- ================================================================== layouts

inductive EventType
  | marketEvent
  | orderStatusEvent
  | nasdaqClosingCrossEvent
  | parentOrderStatusEvent
  | rootOrderStatusEvent
  | netEvent
  | subscriptionEvent
  | snapshotRequestEvent
  | snapshotEvent
  | netMarketEvent
  | handshakeEvent
  | expretEvent
  deriving DecidableEq, Repr

/-- The enumerator of a `uint16_t`, if it has one. -/
def EventType.ofU16 : Nat → Option EventType
  | 0 => some .marketEvent
  | 2 => some .orderStatusEvent
  | 3 => some .nasdaqClosingCrossEvent
  | 4 => some .parentOrderStatusEvent
  | 5 => some .rootOrderStatusEvent
  | 6 => some .netEvent
  | 7 => some .subscriptionEvent
  | 8 => some .snapshotRequestEvent
  | 9 => some .snapshotEvent
  | 10 => some .netMarketEvent
  | 11 => some .handshakeEvent
  | 12 => some .expretEvent
  | _ => none

/-- `SerializeVersion`, two bytes compared as one number. -/
def version (a b : UInt8) : Nat := le16 [a, b] 0

/-- `sizeof(EventBufHeader)`: a version and a type. -/
def eventBufHeaderSize : Nat := 4

/-- `sizeof(EventBuf)`: the header, an instrument and a date and time. -/
def eventBufSize : Nat := 32

def EventBuf.expectedVersion : Nat := version 0 1

/-- `sizeof(NetEventBuf)`: an event, a version and a time. -/
def netEventBufSize : Nat := 50

def NetEventBuf.expectedVersion : Nat := version 0 1

/-- `sizeof(HandshakeEventBuf)`: a net event, a version and the length of
the version string. -/
def handshakeEventBufSize : Nat := 54

def HandshakeEventBuf.expectedVersion : Nat := version 0 1

/-- `sizeof(SubscriptionEventBuf)`: a net event, a version and flags. -/
def subscriptionEventBufSize : Nat := 56

def SubscriptionEventBuf.expectedVersion : Nat := version 0 1

/-- `sizeof(SnapshotRequestEventBuf)`: a net event, a version and what is
asked for. -/
def snapshotRequestEventBufSize : Nat := 66

def SnapshotRequestEventBuf.expectedVersion : Nat := version 0 2

/-- `event_type` of the header. -/
def eventType (buf : DataBuffer) : Option EventType :=
  EventType.ofU16 (le16 buf 2)

/-- `version_string_len`, at the end of a `HandshakeEventBuf`. -/
def versionStringLen (buf : DataBuffer) : Nat := le16 buf 52

/-- The alias length, behind the version string. -/
def aliasLen (buf : DataBuffer) : Nat :=
  le16 buf (handshakeEventBufSize + versionStringLen buf)

-- ================================================================= wrappers

structure EventBufWrapper where
  valid : Bool
  bytesRead : Nat
  deriving DecidableEq, Repr

/-- `EventBufWrapper(buf, len)`. -/
def eventBufWrapper (buf : DataBuffer) : EventBufWrapper :=
  if eventBufSize ≤ buf.length then
    if le16 buf 0 = EventBuf.expectedVersion then ⟨true, eventBufSize⟩
    else ⟨false, 0⟩
  else ⟨false, 0⟩

/-- A wrapper of a layout of fixed size over its base `w`: with too few
bytes it is not valid, and with another version the base's bytes count. -/
def layoutWrapper (w : EventBufWrapper) (size versionAt expected : Nat)
    (buf : DataBuffer) : EventBufWrapper :=
  if w.valid then
    if size ≤ buf.length then
      if le16 buf versionAt = expected then { w with bytesRead := size }
      else w
    else ⟨false, 0⟩
  else w

/-- `NetEventBufWrapper(buf, len)`. -/
def netEventBufWrapper (buf : DataBuffer) : EventBufWrapper :=
  layoutWrapper (eventBufWrapper buf) netEventBufSize eventBufSize
    NetEventBuf.expectedVersion buf

/-- `SubscriptionEventBufWrapper(buf, len)`. -/
def subscriptionEventBufWrapper (buf : DataBuffer) : EventBufWrapper :=
  layoutWrapper (netEventBufWrapper buf) subscriptionEventBufSize
    netEventBufSize SubscriptionEventBuf.expectedVersion buf

/-- `SnapshotRequestEventBufWrapper(buf, len)`. -/
def snapshotRequestEventBufWrapper (buf : DataBuffer) : EventBufWrapper :=
  layoutWrapper (netEventBufWrapper buf) snapshotRequestEventBufSize
    netEventBufSize SnapshotRequestEventBuf.expectedVersion buf

/-- `HandshakeEventBufWrapper(buf, len)`. The bytes read so far are taken
off the buffer, but the layout to come begins at its front again; and an
alias that is not all there is left out. -/
def handshakeEventBufWrapper (buf : DataBuffer) : EventBufWrapper :=
  let w := netEventBufWrapper buf
  if w.valid then
    if buf.length - w.bytesRead < handshakeEventBufSize then ⟨false, 0⟩
    else
      let bytesRead := handshakeEventBufSize
      if le16 buf netEventBufSize ≠ HandshakeEventBuf.expectedVersion then
        ⟨false, 0⟩
      else if bytesRead + versionStringLen buf ≤ buf.length then
        let bytesRead := bytesRead + versionStringLen buf
        if bytesRead + 2 ≤ buf.length then
          let bytesRead := bytesRead + 2
          if bytesRead + aliasLen buf ≤ buf.length then
            ⟨true, bytesRead + aliasLen buf⟩
          else ⟨true, bytesRead⟩
        else ⟨false, 0⟩
      else ⟨false, 0⟩
  else ⟨false, 0⟩

/-- `next_event_from_buffer`. -/
def nextEventFromBuffer (buf : DataBuffer) : Option EventBufWrapper :=
  if eventBufHeaderSize ≤ buf.length then
    match eventType buf with
    | some .subscriptionEvent => some (subscriptionEventBufWrapper buf)
    | some .snapshotRequestEvent => some (snapshotRequestEventBufWrapper buf)
    | some .handshakeEvent => some (handshakeEventBufWrapper buf)
    | _ => none
  else none

-- ================================================================== session

/-- The member of `ClientSession` that `handle_raw_bytes` works on. -/
structure ClientSession where
  danglyBytes : DataBuffer
  /-- The bytes of the events that `handle_event` got. -/
  handled : List DataBuffer
  deriving DecidableEq

namespace ClientSession

/-- A new session. -/
def init : ClientSession := ⟨[], []⟩

/-- `handle_event`, with the bytes its wrapper covers. -/
def handleEvent (s : ClientSession) (event : DataBuffer) : ClientSession :=
  { s with handled := s.handled ++ [event] }

/-- The loop of `handle_raw_bytes`, and `use_buf` after it. Every turn but
the last reads bytes, so the length of the buffer bounds it. -/
def readEvents :
    Nat → ClientSession → DataBuffer → ClientSession × DataBuffer
  | 0, s, useBuf => (s, useBuf)
  | turns + 1, s, useBuf =>
      match nextEventFromBuffer useBuf with
      | some ep =>
          if ep.valid then
            readEvents turns (s.handleEvent (useBuf.take ep.bytesRead))
              (useBuf.drop ep.bytesRead)
          else (s, useBuf)
      | none => (s, useBuf)

/-- `handle_raw_bytes`. -/
def handleRawBytes (s : ClientSession) (buf : DataBuffer) : ClientSession :=
  let hasDangly := s.danglyBytes.length ≠ 0
  let s :=
    if hasDangly then { s with danglyBytes := s.danglyBytes ++ buf } else s
  let useBuf := if hasDangly then s.danglyBytes else buf
  let r := readEvents useBuf.length s useBuf
  let s := r.1
  let useBuf := r.2
  if useBuf.length ≠ 0 then
    -- shifted to the beginning, or pushed onto an empty vector
    if s.danglyBytes.length ≠ 0 then { s with danglyBytes := useBuf }
    else { s with danglyBytes := s.danglyBytes ++ useBuf }
  else s

end ClientSession

end TradingEngine.TS.TPS
