/-
`oe/BATS/BOE20Session.cpp`: `on_timer`, and what it calls.

The connection is outside: what is passed to its `send` is in `sent`, and
its `connect` and `disconnect` are counted. The clock readings of
`send_helper` come with the call.
-/
import TradingEngine.Core.Time
import TradingEngine.OE.BOE20Send

namespace TradingEngine.OE

namespace BOE20

/-- The messages without a sequence number that the session sends. -/
inductive SessionMessage
  | logoutRequest
  | clientHeartbeat
  deriving DecidableEq

end BOE20

open BOE20

/-- The members of `BOE20Session` that `on_timer` works on. -/
structure BOE20Timer where
  state : BOE20Sender.State
  /-- `m_active`, of the base class. -/
  active : Bool
  heartbeatMs : UInt64
  missedHbBeforeLogout : UInt64
  lastMessageRecv : Timestamp
  lastMessageSent : Timestamp
  autoReconnect : Bool
  lastReconnectAttempt : Timestamp
  reconnectIntervalMs : UInt32
  sent : List SessionMessage
  /-- Calls of `m_connection.connect`. -/
  connects : Nat
  /-- Calls of `m_connection.disconnect`. -/
  disconnects : Nat

namespace BOE20Timer

variable (s : BOE20Timer)

/-- The constructor, after `init_conf`. -/
def init (autoReconnect : Bool) (reconnectIntervalMs : UInt32) :
    BOE20Timer where
  state := .unconnected
  active := false
  heartbeatMs := 1000
  missedHbBeforeLogout := 5
  lastMessageRecv := ⟨0, 0⟩
  lastMessageSent := ⟨0, 0⟩
  autoReconnect
  lastReconnectAttempt := ⟨0, 0⟩
  reconnectIntervalMs
  sent := []
  connects := 0
  disconnects := 0

/-- `send_helper`. What the connection returns is not looked at. -/
def sendHelper (msg : SessionMessage) (now : Timestamp) : BOE20Timer :=
  { s with sent := s.sent ++ [msg], lastMessageSent := now }

/-- `send_logout_request`. -/
def sendLogoutRequest (now : Timestamp) : BOE20Timer :=
  { s with state := .logoutSent, active := false }.sendHelper
    .logoutRequest now

/-- `disconnect_connection`. -/
def disconnectConnection (requested : Bool) : BOE20Timer :=
  { s with
    active := false
    state := if requested then .disconnect else .errorDisconnect
    disconnects := s.disconnects + 1 }

/-- `do_logout`. -/
def doLogout (requested : Bool) (now : Timestamp) : BOE20Timer :=
  (s.sendLogoutRequest now).disconnectConnection requested

/-- `connect`, to the host and port of the configuration. -/
def connect : BOE20Timer :=
  match s.state with
  | .unconnected | .disconnect | .errorDisconnect =>
      { s with connects := s.connects + 1 }
  | _ => s

/-- The states in which messages of the exchange are expected. -/
def expecting : Bool := s.state = .active || s.state = .replay

/-- `on_timer`. -/
def onTimer (ts sentAt : Timestamp) : BOE20Timer :=
  let now := ts.millisecondsSinceMidnight
  -- check for stale server
  let diff := now - s.lastMessageRecv.millisecondsSinceMidnight
  if s.expecting && s.missedHbBeforeLogout * s.heartbeatMs ≤ diff
      || s.state = .userLogoutRequest then
    s.doLogout false sentAt
  else
    let diff := now - s.lastMessageSent.millisecondsSinceMidnight
    let s :=
      if s.expecting && s.heartbeatMs ≤ diff then
        s.sendHelper .clientHeartbeat sentAt
      else s
    if s.state = .errorDisconnect && s.autoReconnect
        && s.reconnectIntervalMs.toUInt64
          ≤ now - s.lastReconnectAttempt.millisecondsSinceMidnight then
      { s with lastReconnectAttempt := ts }.connect
    else s

end BOE20Timer

end TradingEngine.OE
