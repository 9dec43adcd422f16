/-
The steps of a call.

`call` is modelled as the source runs it; here it is the run of the steps
that it takes (`call_eq_run`): a new client, bytes that are kept, one event
of a client, a disconnect, an update.

# Why steps

`handle_raw_bytes` handles all the events of a buffer in one call, and a
client that is disconnected by one of them is still there for the next. What
is said of the server is said after each step, so that this is not hidden
inside of a call.
-/
import TradingEngine.TS.TPSSubscriptions

namespace TradingEngine.TS.TPS

open Lib (run)

namespace TPSServer

/-- What the server does, one thing at a time. -/
inductive Step
  | newClient (fd : Nat)
  | keep (cid : ClientID) (bytes : DataBuffer)
  | event (cid : ClientID) (e : ClientEvent) (wrote : Bool)
  | disconnect (cid : ClientID)
  | update (esi : EphemeralSymbolIndex) (wrote : ClientID → Bool)

def step (s : TPSServer) : Step → TPSServer
  | .newClient fd => s.onNewClient fd
  | .keep cid bytes =>
      s.updateClient cid fun c => { c with danglyBytes := bytes }
  | .event cid e wrote => s.handleEvent cid e wrote
  | .disconnect cid => s.disconnect cid
  | .update esi wrote => s.onUpdate esi wrote

/-- The events of a buffer, and what is left of it. -/
def takeEvents : Nat → DataBuffer → List ClientEvent × DataBuffer
  | 0, useBuf => ([], useBuf)
  | turns + 1, useBuf =>
      match nextEventFromBuffer useBuf with
      | some ep =>
          if ep.valid then
            let r := takeEvents turns (useBuf.drop ep.bytesRead)
            (clientEvent useBuf :: r.1, r.2)
          else ([], useBuf)
      | none => ([], useBuf)

/-- The events of a client, with what is said about the replies. -/
def eventSteps (cid : ClientID) :
    List ClientEvent → (Nat → Bool) → List Step
  | [], _ => []
  | e :: es, wrote =>
      .event cid e (wrote 0) :: eventSteps cid es fun k => wrote (k + 1)

/-- Bytes received: what is kept, the events, and what is kept then. -/
def recvSteps (cid : ClientID) (dangly buf : DataBuffer)
    (wrote : Nat → Bool) : List Step :=
  let useBuf := dangly ++ buf
  let r := takeEvents useBuf.length useBuf
  (if dangly.length ≠ 0 then [.keep cid useBuf] else [])
    ++ eventSteps cid r.1 wrote
    ++ (if r.2.length ≠ 0 then [.keep cid r.2] else [])

/-- The steps of a call. -/
def stepsOf (s : TPSServer) (c : Call) : List Step :=
  if s.stuck then []
  else
    match c with
    | .onNewClient fd => [.newClient fd]
    | .onRecv cid buf wrote =>
        match s.clients[cid]? with
        | some c => recvSteps cid c.danglyBytes buf wrote
        | none => []
    | .onPeerDisconnect cid => [.disconnect cid]
    | .onQuoteUpdate esi wrote => [.update esi wrote]
    | .onTradeUpdate esi wrote => [.update esi wrote]

/-- The loop over a buffer is a run over the events it takes. -/
theorem readEvents_eq (turns : Nat) (s : TPSServer) (cid : ClientID)
    (useBuf : DataBuffer) (wrote : Nat → Bool) :
    readEvents turns s cid useBuf wrote
      = (run step s (eventSteps cid (takeEvents turns useBuf).1 wrote),
        (takeEvents turns useBuf).2) := by
  induction turns generalizing s useBuf wrote with
  | zero => rfl
  | succ turns ih =>
      unfold readEvents takeEvents
      cases nextEventFromBuffer useBuf with
      | none => rfl
      | some ep =>
          dsimp only
          cases ep.valid with
          | false => rfl
          | true =>
              rw [if_pos rfl, if_pos rfl, ih]
              rfl

/-- A client that is there is changed as its value says. -/
theorem updateClient_congr {s : TPSServer} {cid : ClientID} {c : Client}
    (hc : s.clients[cid]? = some c) {f g : Client → Client}
    (h : f c = g c) : s.updateClient cid f = s.updateClient cid g := by
  have hclients : s.clients.modify cid f = s.clients.modify cid g := by
    apply List.ext_getElem?
    intro i
    rw [List.getElem?_modify, List.getElem?_modify]
    by_cases hi : cid = i
    · subst hi
      simp [hc, h]
    · simp [hi]
  unfold updateClient
  rw [hclients]

/-- The bytes that are left, shifted or pushed. -/
theorem keep_eq (s : TPSServer) (cid : ClientID) (bytes : DataBuffer) :
    (s.updateClient cid fun c =>
      if c.danglyBytes.length ≠ 0 then { c with danglyBytes := bytes }
      else { c with danglyBytes := c.danglyBytes ++ bytes })
      = s.step (.keep cid bytes) := by
  have hsame : (fun c : Client =>
      if c.danglyBytes.length ≠ 0 then { c with danglyBytes := bytes }
      else { c with danglyBytes := c.danglyBytes ++ bytes })
      = fun c => { c with danglyBytes := bytes } := by
    funext c
    split
    · rfl
    · have hnil : c.danglyBytes = [] :=
        List.length_eq_zero_iff.mp (not_not.mp ‹_›)
      rw [hnil, List.nil_append]
  unfold step
  rw [hsame]

/-- Bytes that come in: first what is kept of them, then the events. -/
theorem handleRawBytes_eq_run {s : TPSServer} {cid : ClientID} {c : Client}
    (hc : s.clients[cid]? = some c) (buf : DataBuffer)
    (wrote : Nat → Bool) :
    s.handleRawBytes cid buf wrote
      = run step s (recvSteps cid c.danglyBytes buf wrote) := by
  unfold handleRawBytes recvSteps
  rw [hc]
  dsimp only
  rw [Lib.run_append, Lib.run_append]
  by_cases hdangly : c.danglyBytes.length ≠ 0
  · have hkeep := updateClient_congr hc
      (f := fun c => { c with danglyBytes := c.danglyBytes ++ buf })
      (g := fun d => { d with danglyBytes := c.danglyBytes ++ buf }) rfl
    rw [if_pos hdangly, if_pos hdangly, if_pos hdangly, hkeep,
      readEvents_eq]
    dsimp only
    split
    · rw [keep_eq]
      rfl
    · rfl
  · have hnil : c.danglyBytes = [] :=
      List.length_eq_zero_iff.mp (not_not.mp hdangly)
    rw [if_neg hdangly, if_neg hdangly, if_neg hdangly, readEvents_eq, hnil,
      List.nil_append]
    dsimp only
    split
    · rw [keep_eq]
      rfl
    · rfl

/-- Every call of the server is a run of its steps. -/
theorem call_eq_run (s : TPSServer) (c : Call) :
    s.call c = run step s (s.stepsOf c) := by
  unfold call stepsOf
  cases hstuck : s.stuck with
  | true => rfl
  | false =>
      rw [if_neg Bool.false_ne_true, if_neg Bool.false_ne_true]
      cases c with
      | onRecv cid buf wrote =>
          dsimp only
          cases hc : s.clients[cid]? with
          | none =>
              unfold handleRawBytes
              rw [hc]
              rfl
          | some c => exact handleRawBytes_eq_run hc buf wrote
      | _ => rfl

end TPSServer

end TradingEngine.TS.TPS
