/-
`oe/BATS/BOE20Session.cpp`: the state of a session and the sequence numbers
of its orders, with the connection and the exchange at its other end.

# Numbers

`outbound_seqnum` is the number of the next order. It is kept on disk; a
login response sets it to what the exchange has received and one more. A
number is used up when an order is written, whatever becomes of the bytes.

# Interleavings

`send` and `cancel` test the state first and take the number later, under the
mutex, so that the state may have changed in between. The exchange reads what
was sent on a connection at any time, also after the session has closed its
end; a new connection ends that. What the exchange reads before the login is
accepted it does not take.
-/
import TradingEngine.Lib.Run
import TradingEngine.OE.BOE20Send

namespace TradingEngine.OE

namespace BOE20

-- ================================================================= session

/-- The members of a `BOE20Session` that logins, logouts and the numbering
work on. -/
structure Line where
  state : BOE20Sender.State
  /-- `m_active`. -/
  active : Bool
  /-- `m_persist_state->data()->outbound_seqnum`. -/
  outboundSeqnum : UInt32
  deriving DecidableEq

namespace Line

variable (s : Line)

/-- `recover_state`: what is stored was the next number, and is taken back
by one. The override is the configured value, or negative. -/
def recoverState (stored : UInt32) (override : Int) : UInt32 :=
  if 0 ≤ override then .ofNat override.toNat
  else if stored ≠ 0 then stored - 1
  else stored

/-- The constructor. -/
def init (stored : UInt32) (override : Int) : Line where
  state := .unconnected
  active := false
  outboundSeqnum := recoverState stored override

/-- The states in which `connect` connects and `on_connected` logs in. -/
def idle : Bool :=
  s.state = .unconnected || s.state = .disconnect || s.state = .errorDisconnect

/-- `on_connected`, if it sends the login request. -/
def onConnected : Option Line :=
  if s.idle then some { s with state := .waitingForLogin } else none

/-- `handle_msg(LoginResponse)`. -/
def handleLoginResponse (accepted : Bool) (lastReceived : UInt32) : Line :=
  if accepted then
    { s with state := .replay, outboundSeqnum := lastReceived + 1 }
  else { s with state := .unconnected }

/-- `handle_msg(ReplayComplete)`. -/
def handleReplayComplete : Line := { s with state := .active, active := true }

/-- `disconnect_connection`. -/
def disconnectConnection (requested : Bool) : Line :=
  { s with
    active := false
    state := if requested then .disconnect else .errorDisconnect }

/-- `send_logout_request`. -/
def sendLogoutRequest : Line := { s with state := .logoutSent, active := false }

/-- `disconnect(false)`. -/
def requestLogout : Line :=
  { s with active := false, state := .userLogoutRequest }

/-- `outbound_seqnum++`. -/
def takeNumber : Line := { s with outboundSeqnum := s.outboundSeqnum + 1 }

end Line

-- ==================================================================== wire

/-- What a session sends, by its kind. Heartbeats are left out. -/
inductive ToExchange
  | loginRequest
  | logoutRequest
  | order (sequenceNumber : UInt32)
  deriving DecidableEq

/-- What an exchange sends. Orders that are replayed are left out. -/
inductive ToSession
  | loginResponse (accepted : Bool) (lastReceived : UInt32)
  | replayComplete
  | logout
  deriving DecidableEq

/-- The number of an order. -/
def ToExchange.orderNumber : ToExchange → Option UInt32
  | .order n => some n
  | _ => none

def ToSession.isLoginResponse : ToSession → Bool
  | .loginResponse .. => true
  | _ => false

/-- A session, an exchange, and what is between them. -/
structure Wire where
  session : Line
  /-- The session's end of the connection is open. -/
  connected : Bool
  toExchange : List ToExchange
  toSession : List ToSession
  /-- The exchange has accepted a login on the connection. -/
  loggedIn : Bool
  /-- The numbers of the orders that the exchange has taken. -/
  received : List UInt32
  /-- The session knows of it. -/
  answered : Bool
  /-- Threads that have found the session `ACTIVE` and have not written
  yet. -/
  sending : Nat
  deriving DecidableEq

inductive Turn
  /-- A connection is made: `on_connected`. -/
  | connect
  /-- The exchange reads a message; it accepts a login or not. -/
  | exchange (accept : Bool)
  /-- The session reads one. -/
  | session
  /-- A `send` or a `cancel` finds the session `ACTIVE`. -/
  | check
  /-- It writes its order: all of the bytes, or not. -/
  | write (whole : Bool)
  /-- The connection is gone; the session does not know yet. -/
  | cut
  /-- `on_peer_disconnect`, `on_local_disconnect`. -/
  | noticed
  /-- `do_logout`, by `on_timer` or by a user. -/
  | logout (requested : Bool)
  /-- A user asks `on_timer` for a logout. -/
  | requestLogout
  /-- The process ends and is started again. -/
  | restart (override : Int)
  deriving DecidableEq

namespace Wire

variable (w : Wire)

/-- A first process, with a new state file. -/
def start : Wire where
  session := .init 0 (-1)
  connected := false
  toExchange := []
  toSession := []
  loggedIn := false
  received := []
  answered := false
  sending := 0

/-- The number an exchange gives as the last it has received. -/
def lastReceived : UInt32 := .ofNat w.received.length

/-- What the exchange answers, as long as the session's end is open. -/
def answer (ms : List ToSession) : List ToSession :=
  if w.connected then w.toSession ++ ms else w.toSession

/-- The exchange reads the next message. -/
def exchangeReads (accept : Bool) : Wire :=
  match w.toExchange with
  | [] => w
  | .loginRequest :: rest =>
      { w with
        toExchange := rest
        loggedIn := accept
        toSession := w.answer (.loginResponse accept w.lastReceived
          :: if accept then [.replayComplete] else []) }
  | .logoutRequest :: rest =>
      { w with toExchange := rest, toSession := w.answer [.logout] }
  | .order n :: rest =>
      { w with
        toExchange := rest
        received := if w.loggedIn then w.received ++ [n] else w.received }

/-- The session reads the next message. -/
def sessionReads : Wire :=
  match w.toSession with
  | [] => w
  | .loginResponse accepted n :: rest =>
      { w with
        toSession := rest
        session := w.session.handleLoginResponse accepted n
        answered := w.answered || accepted }
  | .replayComplete :: rest =>
      { w with toSession := rest, session := w.session.handleReplayComplete }
  | .logout :: rest =>
      { w with
        toSession := rest
        session := w.session.disconnectConnection false
        connected := false }

def step : Turn → Wire
  | .connect =>
      let fresh : Wire := { w with
        connected := true
        toExchange := []
        toSession := []
        loggedIn := false
        answered := false }
      match w.session.onConnected with
      | some session =>
          { fresh with session, toExchange := [.loginRequest] }
      | none => fresh
  | .exchange accept => w.exchangeReads accept
  | .session => w.sessionReads
  | .check =>
      if w.session.state = .active then { w with sending := w.sending + 1 }
      else w
  | .write whole =>
      if w.sending = 0 then w
      else
        { w with
          sending := w.sending - 1
          session := w.session.takeNumber
          toExchange :=
            if w.connected && whole then
              w.toExchange ++ [.order w.session.outboundSeqnum]
            else w.toExchange }
  | .cut => { w with connected := false }
  | .noticed =>
      { w with
        session := w.session.disconnectConnection false
        connected := false }
  | .logout requested =>
      { w with
        session :=
          (w.session.sendLogoutRequest).disconnectConnection requested
        toExchange :=
          if w.connected then w.toExchange ++ [.logoutRequest]
          else w.toExchange
        connected := false }
  | .requestLogout => { w with session := w.session.requestLogout }
  | .restart override =>
      { w with
        session := .init w.session.outboundSeqnum override
        connected := false
        toSession := []
        answered := false
        sending := 0 }

-- ================================================================= numbers

/-- The numbers of the orders on their way. -/
def inFlight : List UInt32 := w.toExchange.filterMap ToExchange.orderNumber

/-- So many numbers, after so many others. -/
def numbersAfter (taken count : Nat) : List UInt32 :=
  (List.range count).map fun i => .ofNat (taken + i + 1)

/-- The exchange has taken the numbers from one on, the next ones are on
their way, and then comes the session's own next number. Before the login on
a connection is answered, there are none on it. -/
structure Numbered : Prop where
  received : w.received = numbersAfter 0 w.received.length
  inFlight : w.inFlight = numbersAfter w.received.length w.inFlight.length
  next : w.connected = true → w.answered = true →
    w.session.outboundSeqnum
      = .ofNat (w.received.length + w.inFlight.length + 1)
  waiting : w.connected = true → w.answered = false → w.inFlight = []

/-- A write while the connection is there: all of the bytes, and the login
has been answered; or no order at all, and it has not. -/
def Proper : Turn → Prop
  | .write whole => w.sending ≠ 0 → w.connected = true → whole = w.answered
  | _ => True

instance (e : Turn) : Decidable (w.Proper e) := by
  unfold Proper
  split <;> infer_instance

/-- A connection is made for a session that has noticed the end of the last
one, when no thread is left between its check and its write; and what is
written to an open connection is written whole. -/
def Settled : Turn → Prop
  | .connect => w.session.state ≠ .active ∧ w.sending = 0
  | .write whole => w.connected = true → whole = true
  | _ => True

instance (e : Turn) : Decidable (w.Settled e) := by
  unfold Settled
  split <;> infer_instance

end Wire

end BOE20

end TradingEngine.OE
