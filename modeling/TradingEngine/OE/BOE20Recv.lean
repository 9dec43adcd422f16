/-
`oe/BATS/BOE20Session.cpp`, the receiving side: `handle_raw_bytes`, from
bytes to BOE messages.

What `handle_raw_msg` does with a message is not modelled here, apart from
the assertion it begins with. A failed assertion and a read past the end of
the buffer end the run; a disconnect does not.
-/
import TradingEngine.Lib.Bytes
import TradingEngine.Lib.Framing
import TradingEngine.OE.Types

namespace TradingEngine.OE

open Lib (le16)

namespace BOE20

/-- `START_OF_MESSAGE_SENTINEL`. -/
def startOfMessageSentinel : Nat := 0xBABA

/-- `sizeof(StartOfMessage)`. -/
def startOfMessageSize : Nat := 2

/-- `sizeof(StartOfMessage) + sizeof(MessageLength)`. -/
def prefixSize : Nat := 4

def startOfMessage (buf : Bytes) : Nat := le16 buf 0

/-- It counts itself, but not the start of message. -/
def messageLength (buf : Bytes) : Nat := le16 buf startOfMessageSize

end BOE20

open BOE20

/-- The members of `BOE20Session` that `handle_raw_bytes` works on. -/
structure BOE20Recv where
  danglyBytes : Bytes
  /-- The messages `handle_raw_msg` got. -/
  handled : List Bytes
  /-- `disconnect_connection` was called. -/
  disconnected : Bool
  deriving DecidableEq

namespace BOE20Recv

/-- What ends a run. -/
inductive Fault
  | assertion
  /-- `buf[idx]` with `idx` not below `len`. -/
  | readPastEnd
  deriving DecidableEq, Repr

/-- A new session. -/
def init : BOE20Recv := ⟨[], [], false⟩

/-- `handle_raw_msg`, on the bytes of a message. -/
def handleRawMsg (s : BOE20Recv) (msg : Bytes) : Except Fault BOE20Recv :=
  if startOfMessage msg = startOfMessageSentinel then
    .ok { s with handled := s.handled ++ [msg] }
  else .error .assertion

/-- `handle_raw_bytes` from `assert(mlen > dbs)` on, when `m_dangly_bytes`
holds the beginning of a message and its length. The copy goes on at
`buf[idx]`, but counts to `len`. -/
def continueMessage (again : BOE20Recv → Bytes → Except Fault BOE20Recv)
    (s : BOE20Recv) (buf : Bytes) (idx : Nat) : Except Fault BOE20Recv :=
  let len := buf.length
  let dbs := s.danglyBytes.length
  let mlen := messageLength s.danglyBytes + startOfMessageSize
  -- past the assertion, the branch for `mlen < dbs` is never taken
  if ¬mlen > dbs then .error .assertion
  else
    let remains := mlen - dbs
    let copied := min remains len
    if idx + copied > len then .error .readPastEnd
    else
      let s := { s with
        danglyBytes := s.danglyBytes ++ (buf.drop idx).take copied }
      let idx := idx + copied
      if remains ≤ len then
        (s.handleRawMsg (s.danglyBytes.take mlen)).bind fun s =>
          if mlen ≠ s.danglyBytes.length then .error .assertion
          else
            let s := { s with danglyBytes := [] }
            if idx < len then again s (buf.drop idx) else .ok s
      else .ok s

/-- `handle_raw_bytes`, with a bound on the depth of its recursion. Every
call consumes bytes before the next, so the length of the buffer and one
more is enough. -/
def handleRawBytesWithin : Nat → BOE20Recv → Bytes → Except Fault BOE20Recv
  | 0, s, _ => .ok s
  | depth + 1, s, buf =>
      let len := buf.length
      let dbs := s.danglyBytes.length
      if dbs ≠ 0 then
        -- at least enough to read the message length
        let idx := if dbs < prefixSize then prefixSize - dbs else 0
        let s := { s with danglyBytes := s.danglyBytes ++ buf.take idx }
        if len < idx then .ok s
        else if startOfMessage s.danglyBytes ≠ startOfMessageSentinel then
          .ok { s with danglyBytes := [], disconnected := true }
        else continueMessage (handleRawBytesWithin depth) s buf idx
      else
        if len < prefixSize then
          .ok { s with danglyBytes := s.danglyBytes ++ buf }
        else if startOfMessage buf ≠ startOfMessageSentinel then
          .ok { s with disconnected := true }
        else
          let mlen := messageLength buf + startOfMessageSize
          if mlen ≤ len then
            (s.handleRawMsg (buf.take mlen)).bind fun s =>
              if len > mlen then
                handleRawBytesWithin depth s (buf.drop mlen)
              else .ok s
          else .ok { s with danglyBytes := s.danglyBytes ++ buf }

/-- `handle_raw_bytes`. -/
def handleRawBytes (s : BOE20Recv) (buf : Bytes) : Except Fault BOE20Recv :=
  handleRawBytesWithin (buf.length + 1) s buf

end BOE20Recv

end TradingEngine.OE
