/-
`oe/NASDAQ/OUCH42Session.cpp`, the session state machine: `connect`,
`disconnect`, the callbacks of the connection and the timer, and what
`handle_packet` does with the SoupBinTCP packets of the login.

# What is outside

The connection is: of `m_connection` only what is passed to its `send`
appears, in `sent`. How many bytes it took and what the clock shows then
come with the event (`Sending`). Timestamps are milliseconds since
midnight, the only thing that is ever asked of them.

Every event is one step. Sequenced data and server heartbeats do not touch
the session's state, and are left out.
-/
import TradingEngine.OE.Types

namespace TradingEngine.OE

-- ================================================================= messages

namespace SoupBinTCP30

/-- `Messages::LoginRequest`, less its length and type. -/
structure LoginRequest where
  username : Bytes
  password : Bytes
  requestedSession : Bytes
  requestedSequenceNumber : Bytes
  deriving DecidableEq

/-- What the session sends of its own accord. -/
inductive UpstreamPacket
  | loginRequest (msg : LoginRequest)
  | logoffRequest
  | heartbeatMessage
  deriving DecidableEq

/-- `' '`. -/
def space : UInt8 := 32

/-- `copy_to_array<ArrayType, WIDTH, false>`: right-aligned. -/
def copyToArray (width : Nat) (str : Bytes) (padding : UInt8) : Bytes :=
  List.replicate (width - str.length) padding
    ++ str.drop (str.length - width)

/-- A turn of its loop, over an array of `size` bytes. -/
def copyTurn (size : Nat) (str : Bytes) (padding : UInt8) (arr : Bytes)
    (i : Nat) : Bytes :=
  arr.set (size - i - 1)
    (if i < str.length then str.getD (str.length - i - 1) padding
    else padding)

/-- The loop, over the array it is given. -/
def copyIntoArray (arr str : Bytes) (padding : UInt8) : Bytes :=
  (List.range arr.length).foldl (copyTurn arr.length str padding) arr

/-- `memcpy` of a string over a field of spaces. -/
def copyOverSpaces (width : Nat) (str : Bytes) : Bytes :=
  str.take width ++ List.replicate (width - str.length) space

/-- `std::to_string`. -/
def toBytes (n : UInt64) : Bytes :=
  (Nat.toDigits 10 n.toNat).map fun c => c.toNat.toUInt8

/-- The loop over `msg->sequence_number`, from `seqnum` on: spaces are
skipped, and anything else that is not a digit ends it. -/
def parseSequenceNumber (seqnum : UInt64) : Bytes → Option UInt64
  | [] => some seqnum
  | b :: bs =>
      if b = space then parseSequenceNumber seqnum bs
      else if 48 ≤ b ∧ b ≤ 57 then
        parseSequenceNumber (seqnum * 10 + (b - 48).toUInt64) bs
      else none

end SoupBinTCP30

open SoupBinTCP30

-- ==================================================================== state

namespace OUCH42Session

/-- `OUCH42Session::State`. -/
inductive State
  | timedOut
  | loginRejected
  | disconnected
  | error
  | unknown
  | initialized
  | connecting
  | connected
  | loggedIn
  deriving DecidableEq, Repr

/-- The enumerators' values. -/
def State.toInt : State → Int
  | timedOut => -4
  | loginRejected => -3
  | disconnected => -2
  | error => -1
  | unknown => 0
  | initialized => 1
  | connecting => 2
  | connected => 3
  | loggedIn => 4

/-- What `m_connection.send` took all of, or not, and what the clock shows
after it. -/
structure Sending where
  sent : Bool
  now : UInt64
  deriving DecidableEq

end OUCH42Session

open OUCH42Session (State Sending)

/-- The members of `OUCH42Session` that its state machine works on. -/
structure OUCH42Session where
  username : Bytes
  password : Bytes
  reqSession : Bytes
  heartbeatGraceSec : UInt64
  sessionState : State
  /-- `m_active`, of the base class. -/
  active : Bool
  lastMessageReceived : UInt64
  lastMessageSent : UInt64
  /-- `m_persist->data()->last_seqnum_received`. -/
  lastSeqnumReceived : UInt64
  /-- `m_persist->data()->session`. -/
  session : Bytes
  /-- What was passed to `m_connection.send`. -/
  sent : List UpstreamPacket
  deriving DecidableEq

namespace OUCH42Session

/-- The constructor, after `recover_state`. -/
def init (username password reqSession : Bytes) (heartbeatGraceSec : UInt64)
    (lastSeqnumReceived : UInt64) (session : Bytes) : OUCH42Session where
  username
  password
  reqSession
  heartbeatGraceSec
  sessionState := .unknown
  active := false
  lastMessageReceived := 0
  lastMessageSent := 0
  lastSeqnumReceived
  session
  sent := []

def loggedIn (s : OUCH42Session) : Bool := s.sessionState = .loggedIn

/-- `__sync_val_compare_and_swap` on the state, and its result as the `bool`
it is assigned to: the old value is not zero. -/
def compareAndSwap (s : OUCH42Session) (old new : State) :
    Bool × OUCH42Session :=
  (s.sessionState.toInt ≠ 0,
    if s.sessionState = old then { s with sessionState := new } else s)

/-- `send_order_data`, for messages without an order. -/
def sendOrderData (s : OUCH42Session) (msg : UpstreamPacket)
    (io : Sending) : Bool × OUCH42Session :=
  let s := { s with sent := s.sent ++ [msg] }
  if io.sent then (true, { s with lastMessageSent := io.now }) else (false, s)

-- =================================================================== events

/-- `connect`. -/
def connect (s : OUCH42Session) : OUCH42Session :=
  { s with sessionState := .connecting }

/-- `disconnect`. -/
def disconnect (s : OUCH42Session) (force : Bool) : OUCH42Session :=
  let s := { s with active := false }
  let r := s.compareAndSwap .loggedIn .disconnected
  let wasLoggedIn := r.1
  let s := r.2
  let s :=
    if !force && wasLoggedIn then
      { s with sent := s.sent ++ [.logoffRequest] }
    else s
  { s with sessionState := .disconnected }

/-- The message that `on_connected` puts together. -/
def loginRequest (s : OUCH42Session) : LoginRequest where
  username := copyOverSpaces 6 s.username
  password := copyOverSpaces 10 s.password
  requestedSession := copyOverSpaces 10 s.reqSession
  requestedSequenceNumber :=
    copyToArray 20 (toBytes (s.lastSeqnumReceived + 1)) space

/-- `on_connected`. -/
def onConnected (s : OUCH42Session) (io : Sending) : OUCH42Session :=
  let r := s.compareAndSwap .connecting .connected
  let wasConnecting := r.1
  let s := r.2
  if !wasConnecting then s
  else (s.sendOrderData (.loginRequest s.loginRequest) io).2

/-- `on_peer_disconnect`. -/
def onPeerDisconnect (s : OUCH42Session) : OUCH42Session :=
  { s with active := false, sessionState := .disconnected }

/-- `on_local_disconnect`. -/
def onLocalDisconnect (s : OUCH42Session) : OUCH42Session :=
  { s with active := false, sessionState := .disconnected }

/-- `handle_packet` of a `LoginAccept`. -/
def handleLoginAccept (s : OUCH42Session)
    (session sequenceNumber : Bytes) : OUCH42Session :=
  let r := s.compareAndSwap .connected .loggedIn
  let wasConnected := r.1
  let s := r.2
  if !wasConnected then s
  else
    let s := { s with session := session }
    match parseSequenceNumber 0 sequenceNumber with
    | none =>
        { s with active := false, sessionState := .error }.disconnect true
    | some seqnum =>
        { s with lastSeqnumReceived := seqnum - 1, active := true }

/-- `handle_packet` of a `LoginReject`. -/
def handleLoginReject (s : OUCH42Session) : OUCH42Session :=
  { s with active := false, sessionState := .loginRejected }

/-- `handle_packet` of an `EndOfSession`. -/
def handleEndOfSession (s : OUCH42Session) : OUCH42Session :=
  { s with active := false, sessionState := .disconnected }.disconnect false

/-- `on_timer`. -/
def onTimer (s : OUCH42Session) (ts : UInt64) (io : Sending) :
    OUCH42Session :=
  if !s.loggedIn then s
  else
    let s :=
      if s.lastMessageReceived < ts - s.heartbeatGraceSec * 1000 then
        let s := { s with sessionState := .timedOut }
        if s.active then ({ s with active := false }.disconnect true).connect
        else s
      else s
    if s.loggedIn then
      if ts - s.lastMessageSent ≥ 250 then
        let r := s.sendOrderData .heartbeatMessage io
        let s := r.2
        if !r.1 then
          { s with active := false, sessionState := .error }.disconnect true
        else s
      else s
    else s

-- ==================================================================== steps

/-- What happens to a session. The packets come out of `on_recv`, which
notes when. -/
inductive Event
  | connect
  | onConnected (io : Sending)
  | loginAccept (ts : UInt64) (session sequenceNumber : Bytes)
  | loginReject (ts : UInt64)
  | endOfSession (ts : UInt64)
  | disconnect (force : Bool)
  | onPeerDisconnect
  | onLocalDisconnect
  | onTimer (ts : UInt64) (io : Sending)
  deriving DecidableEq

/-- `on_recv`: the time of the last message. -/
def onRecv (s : OUCH42Session) (ts : UInt64) : OUCH42Session :=
  { s with lastMessageReceived := ts }

def step (s : OUCH42Session) : Event → OUCH42Session
  | .connect => s.connect
  | .onConnected io => s.onConnected io
  | .loginAccept ts session sequenceNumber =>
      (s.onRecv ts).handleLoginAccept session sequenceNumber
  | .loginReject ts => (s.onRecv ts).handleLoginReject
  | .endOfSession ts => (s.onRecv ts).handleEndOfSession
  | .disconnect force => s.disconnect force
  | .onPeerDisconnect => s.onPeerDisconnect
  | .onLocalDisconnect => s.onLocalDisconnect
  | .onTimer ts io => s.onTimer ts io

end OUCH42Session

end TradingEngine.OE
