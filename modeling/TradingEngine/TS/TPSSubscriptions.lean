/-
`ts/tps/TPSServer.cpp`: the clients of a server and their subscriptions,
over new clients, bytes, disconnects and market data updates.

`TPSServer` and `TPSHandshake` have the events as bytes. Here they are
handled: an event is what its handler reads of the buffer.

# What is outside

`m_fdoid_esi_map` is filled from the universe of instruments, which is not
in the repository; it is a field that may be any map. Whether a write
succeeds is said with each call. After a disconnect the descriptor is -1,
and no write to it does.

# The mutex

`m_mutex` is not recursive. An update of market data holds it for reading
while it writes to the clients. A client that is disconnected there has to
hold it for writing to be removed, in the same thread, and waits for good:
the server is `stuck`.
-/
import TradingEngine.TS.TPSHandshake
import TradingEngine.Lib.Run

namespace TradingEngine.TS.TPS

open Lib (le32)

abbrev ClientID := Nat

abbrev EphemeralSymbolIndex := Nat

-- =================================================================== events

/-- An event that `handle_event` has a handler for. -/
inductive ClientEvent
  | handshake (version : DataBuffer)
  | subscription (flags fdoId : UInt32)
  | snapshotRequest
  deriving DecidableEq, Repr

/-- `inst().inst.inst_id`, passed on as a `std::uint32_t`. -/
def instId (buf : DataBuffer) : UInt32 := UInt32.ofNat (le32 buf 8)

/-- `flags()`, behind the version of a subscription. -/
def subscriptionFlags (buf : DataBuffer) : UInt32 :=
  UInt32.ofNat (le32 buf 52)

/-- What the handler of the event at the front reads of the buffer. -/
def clientEvent (useBuf : DataBuffer) : ClientEvent :=
  match eventType useBuf with
  | some .handshakeEvent =>
      .handshake ((handshakeEventBuf useBuf).versionString.getD [])
  | some .subscriptionEvent =>
      .subscription (subscriptionFlags useBuf) (instId useBuf)
  | _ => .snapshotRequest

/-- `SubscriptionEventBuf::Flags::REQUEST`. -/
def SubscriptionEventBuf.request : UInt32 := 1

-- =================================================================== server

/-- `ClientSession::State`. -/
inductive SessionState
  | unknown
  | preHandshake
  | handshakeOk
  | handshakeDenied
  | disconnected
  deriving DecidableEq, Repr

/-- `ClientSession`, with a descriptor unless it is -1. -/
structure Client where
  fd : Option Nat
  state : SessionState
  danglyBytes : DataBuffer
  subscribedEsi : List EphemeralSymbolIndex
  deriving DecidableEq, Repr

/-- `ClientSession(server, iid, fd)`. -/
def Client.init (fd : Nat) : Client := ⟨some fd, .preHandshake, [], []⟩

structure TPSServer where
  clients : List Client
  instrumentClients : EphemeralSymbolIndex → List ClientID
  fdoidEsiMap : UInt32 → Option EphemeralSymbolIndex
  /-- An update holds `m_mutex` for reading. -/
  readLocked : Bool
  /-- The thread waits for `m_mutex`, which it holds itself. -/
  stuck : Bool

namespace TPSServer

/-- A server without clients. -/
def init (fdoidEsiMap : UInt32 → Option EphemeralSymbolIndex) : TPSServer :=
  ⟨[], fun _ => [], fdoidEsiMap, false, false⟩

/-- `m_clients[cid]` is changed. -/
def updateClient (s : TPSServer) (cid : ClientID) (f : Client → Client) :
    TPSServer :=
  { s with clients := s.clients.modify cid f }

/-- `m_instrument_clients[esi]` is changed. -/
def updateInstrument (s : TPSServer) (esi : EphemeralSymbolIndex)
    (v : List ClientID) : TPSServer :=
  { s with instrumentClients := fun e =>
      if e = esi then v else s.instrumentClients e }

/-- `on_new_client`. -/
def onNewClient (s : TPSServer) (fd : Nat) : TPSServer :=
  { s with clients := s.clients ++ [Client.init fd] }

-- ============================================================ subscriptions

/-- `add_subscription`: what it returns, and the server. -/
def addSubscription (s : TPSServer) (cid : ClientID) (fdoId : UInt32) :
    EphemeralSymbolIndex × TPSServer :=
  match s.fdoidEsiMap fdoId with
  | some esi =>
      (esi, s.updateInstrument esi (s.instrumentClients esi ++ [cid]))
  | none => (0, s)

/-- `is_subscribed`. -/
def isSubscribed (s : TPSServer) (cid : ClientID) (fdoId : UInt32) : Bool :=
  match s.fdoidEsiMap fdoId with
  | some esi => cid ∈ s.instrumentClients esi
  | none => false

/-- The first occurrence is overwritten with the last element, and that is
taken off. -/
def removeFirst (v : List ClientID) (cid : ClientID) : List ClientID :=
  if cid ∈ v then (v.set (v.idxOf cid) (v.getLastD cid)).dropLast else v

/-- `remove_subscription`. -/
def removeSubscription (s : TPSServer) (cid : ClientID)
    (esi : EphemeralSymbolIndex) : TPSServer :=
  if s.readLocked then { s with stuck := true }
  else s.updateInstrument esi (removeFirst (s.instrumentClients esi) cid)

-- ================================================================== session

/-- `disconnect`. -/
def disconnect (s : TPSServer) (cid : ClientID) : TPSServer :=
  match s.clients[cid]? with
  | some c =>
      let s := s.updateClient cid fun c =>
        { c with state := .disconnected, fd := none }
      c.subscribedEsi.foldl (fun s e => s.removeSubscription cid e) s
  | none => s

/-- `send_or_disconnect`, where `wrote` says whether `write_buffer` gets
everything through an open descriptor. -/
def sendOrDisconnect (s : TPSServer) (cid : ClientID) (wrote : Bool) :
    TPSServer :=
  match s.clients[cid]? with
  | some c => if c.fd.isSome ∧ wrote then s else s.disconnect cid
  | none => s

/-- `handle_handshake_event`. -/
def handleHandshakeEvent (s : TPSServer) (cid : ClientID)
    (version : DataBuffer) (wrote : Bool) : TPSServer :=
  let s := s.updateClient cid fun c =>
    if version = expectedVersionString then { c with state := .handshakeOk }
    else { c with state := .handshakeDenied }
  s.sendOrDisconnect cid wrote

/-- `handle_subscription_event`. -/
def handleSubscriptionEvent (s : TPSServer) (cid : ClientID)
    (flags fdoId : UInt32) : TPSServer :=
  if flags &&& SubscriptionEventBuf.request = 0 then s
  else if s.isSubscribed cid fdoId then s
  else
    let r := s.addSubscription cid fdoId
    if r.1 ≠ 0 then
      r.2.updateClient cid fun c =>
        { c with subscribedEsi := c.subscribedEsi ++ [r.1] }
    else r.2

/-- `handle_event`, of a session there is. A snapshot request is only
printed. -/
def handleEvent (s : TPSServer) (cid : ClientID) (e : ClientEvent)
    (wrote : Bool) : TPSServer :=
  if cid < s.clients.length then
    match e with
    | .handshake version => s.handleHandshakeEvent cid version wrote
    | .subscription flags fdoId => s.handleSubscriptionEvent cid flags fdoId
    | .snapshotRequest => s
  else s

/-- The loop of `handle_raw_bytes`, and `use_buf` after it; `wrote k` is
about the reply to the event number `k`. -/
def readEvents : Nat → TPSServer → ClientID → DataBuffer → (Nat → Bool) →
    TPSServer × DataBuffer
  | 0, s, _, useBuf, _ => (s, useBuf)
  | turns + 1, s, cid, useBuf, wrote =>
      match nextEventFromBuffer useBuf with
      | some ep =>
          if ep.valid then
            readEvents turns
              (s.handleEvent cid (clientEvent useBuf) (wrote 0)) cid
              (useBuf.drop ep.bytesRead) (fun k => wrote (k + 1))
          else (s, useBuf)
      | none => (s, useBuf)

/-- `handle_raw_bytes`. -/
def handleRawBytes (s : TPSServer) (cid : ClientID) (buf : DataBuffer)
    (wrote : Nat → Bool) : TPSServer :=
  match s.clients[cid]? with
  | some c =>
      let hasDangly := c.danglyBytes.length ≠ 0
      let s :=
        if hasDangly then
          s.updateClient cid fun c =>
            { c with danglyBytes := c.danglyBytes ++ buf }
        else s
      let useBuf := if hasDangly then c.danglyBytes ++ buf else buf
      let r := readEvents useBuf.length s cid useBuf wrote
      let useBuf := r.2
      if useBuf.length ≠ 0 then
        r.1.updateClient cid fun c =>
          if c.danglyBytes.length ≠ 0 then { c with danglyBytes := useBuf }
          else { c with danglyBytes := c.danglyBytes ++ useBuf }
      else r.1
  | none => s

-- ================================================================== updates

/-- The loop over the clients of an instrument. -/
def writeToClients (wrote : ClientID → Bool) :
    List ClientID → TPSServer → TPSServer
  | [], s => s
  | cid :: cids, s =>
      let s := s.sendOrDisconnect cid (wrote cid)
      if s.stuck then s else writeToClients wrote cids s

/-- An update, with the mutex held while it is written. -/
def onUpdate (s : TPSServer) (esi : EphemeralSymbolIndex)
    (wrote : ClientID → Bool) : TPSServer :=
  let s := writeToClients wrote (s.instrumentClients esi)
    { s with readLocked := true }
  if s.stuck then s else { s with readLocked := false }

/-- `on_quote_update`. -/
def onQuoteUpdate (s : TPSServer) (esi : EphemeralSymbolIndex)
    (wrote : ClientID → Bool) : TPSServer := s.onUpdate esi wrote

/-- `on_trade_update`. -/
def onTradeUpdate (s : TPSServer) (esi : EphemeralSymbolIndex)
    (wrote : ClientID → Bool) : TPSServer := s.onUpdate esi wrote

/-- What the server is called for. -/
inductive Call
  | onNewClient (fd : Nat)
  | onRecv (cid : ClientID) (buf : DataBuffer) (wrote : Nat → Bool)
  | onPeerDisconnect (cid : ClientID)
  | onQuoteUpdate (esi : EphemeralSymbolIndex) (wrote : ClientID → Bool)
  | onTradeUpdate (esi : EphemeralSymbolIndex) (wrote : ClientID → Bool)

/-- One call. A server that is stuck takes no more. -/
def call (s : TPSServer) (c : Call) : TPSServer :=
  if s.stuck then s
  else
    match c with
    | .onNewClient fd => s.onNewClient fd
    | .onRecv cid buf wrote => s.handleRawBytes cid buf wrote
    | .onPeerDisconnect cid => s.disconnect cid
    | .onQuoteUpdate esi wrote => s.onQuoteUpdate esi wrote
    | .onTradeUpdate esi wrote => s.onTradeUpdate esi wrote

end TPSServer

end TradingEngine.TS.TPS
