/-
What the state machine of an OUCH session keeps, event by event, and when.

`__sync_val_compare_and_swap` returns the old value, and the session takes
it for success. So "was connecting", "was connected" and "was logged in"
are all true in every state but UNKNOWN, whose value is zero: a connection
that comes up late sends a login request out of any state, a late login
accept makes the session active in any state, and an orderly disconnect of
a session that never logged in logs it out.

`Conforms` is what an event should do, `InOrder` the condition on the event
and the state it finds, and a run conforms exactly if it is in order
(`admits_conforms_iff`).

# The invariant

A session that is active is logged in. Every event that conforms keeps it,
and the condition of an event may use it, so the run lemma is an induction
with both at once. Without the invariant the timer could send a heartbeat
from a session that is not logged in; with it the timer always conforms.
-/
import TradingEngine.OE.OUCH42Session
import TradingEngine.Lib.Run

namespace TradingEngine.OE

open SoupBinTCP30

namespace OUCH42Session

-- ============================================================ what should be

/-- What the event passed to `m_connection.send`. -/
def sentBy (s : OUCH42Session) (e : Event) : List UpstreamPacket :=
  (s.step e).sent.drop s.sent.length

/-- An event as it should be: active means logged in, one logs in from
CONNECTED, requests a login on the way there, and logs out on an orderly
disconnect of a session that is logged in. -/
structure Conforms (s : OUCH42Session) (e : Event) : Prop where
  active : (s.step e).active = true → (s.step e).sessionState = .loggedIn
  entry : (s.step e).sessionState = .loggedIn →
    s.sessionState ≠ .loggedIn → s.sessionState = .connected
  loginRequest : ∀ msg, .loginRequest msg ∈ s.sentBy e →
    s.sessionState = .connecting ∧ (s.step e).sessionState = .connected
  logoffRequest : .logoffRequest ∈ s.sentBy e →
    e = .disconnect false ∧ s.sessionState = .loggedIn

/-- The events that do as they should, in the state they find. -/
def InOrder (s : OUCH42Session) : Event → Prop
  | .connect => s.active = false
  | .onConnected _ =>
      s.sessionState = .connecting ∨ s.sessionState = .unknown
  | .loginAccept _ _ sequenceNumber =>
      s.sessionState = .connected ∨ s.sessionState = .loggedIn
        ∨ s.sessionState = .unknown
        ∨ parseSequenceNumber 0 sequenceNumber = none
  | .endOfSession _ => False
  | .disconnect force =>
      force = true ∨ s.sessionState = .loggedIn ∨ s.sessionState = .unknown
  | .loginReject _ | .onPeerDisconnect | .onLocalDisconnect
  | .onTimer _ _ => True

-- =================================================================== events

/-- The value zero is UNKNOWN's. -/
theorem toInt_eq_zero (st : State) : st.toInt = 0 ↔ st = .unknown := by
  cases st <;> decide

/-- The success flag of a compare-and-swap only tells that the state was
not UNKNOWN. -/
theorem compareAndSwap_fst (s : OUCH42Session) (old new : State) :
    (s.compareAndSwap old new).1 = true ↔ s.sessionState ≠ .unknown := by
  unfold compareAndSwap
  rw [decide_eq_true_iff, Ne, toInt_eq_zero]

/-- After a disconnect the session is not active. -/
theorem active_disconnect (s : OUCH42Session) (force : Bool) :
    (s.disconnect force).active = false := by
  unfold disconnect compareAndSwap
  dsimp only
  split <;> split <;> rfl

/-- And in the state `DISCONNECTED`. -/
theorem sessionState_disconnect (s : OUCH42Session) (force : Bool) :
    (s.disconnect force).sessionState = .disconnected := rfl

/-- It logs off first, unless it is forced or was never connected. -/
theorem sent_disconnect (s : OUCH42Session) (force : Bool) :
    (s.disconnect force).sent
      = if force = false ∧ s.sessionState ≠ .unknown then
          s.sent ++ [.logoffRequest]
        else s.sent := by
  have hsent : (({ s with active := false } : OUCH42Session).compareAndSwap
      .loggedIn .disconnected).2.sent = s.sent := by
    unfold compareAndSwap
    dsimp only
    split <;> rfl
  have hflag := compareAndSwap_fst { s with active := false } .loggedIn
    .disconnected
  unfold disconnect
  dsimp only
  by_cases h : force = false ∧ s.sessionState ≠ .unknown
  · rw [if_pos h, if_pos (by rw [h.1, hflag.mpr h.2]; rfl), hsent]
  · rw [if_neg h, if_neg, hsent]
    intro hboth
    rw [Bool.and_eq_true, Bool.not_eq_true', hflag] at hboth
    exact h hboth

/-- A session that was not asked to connect ignores a connection. -/
theorem onConnected_unknown {s : OUCH42Session}
    (h : s.sessionState = .unknown) (io : Sending) :
    s.onConnected io = s := by
  unfold onConnected compareAndSwap
  rw [h]
  rfl

/-- In any other state the request is sent. -/
theorem onConnected_sends {s : OUCH42Session}
    (h : s.sessionState ≠ .unknown) (io : Sending) :
    (s.onConnected io).active = s.active
      ∧ (s.onConnected io).sessionState
          = (if s.sessionState = .connecting then .connected
            else s.sessionState)
      ∧ ∃ msg, (s.onConnected io).sent = s.sent ++ [.loginRequest msg] := by
  have hflag := (compareAndSwap_fst s .connecting .connected).mpr h
  unfold onConnected
  dsimp only
  rw [if_neg (by rw [hflag]; decide)]
  unfold sendOrderData compareAndSwap
  dsimp only
  split <;> split <;> exact ⟨rfl, rfl, _, rfl⟩

/-- And a login. -/
theorem handleLoginAccept_unknown {s : OUCH42Session}
    (h : s.sessionState = .unknown) (session sequenceNumber : Bytes) :
    s.handleLoginAccept session sequenceNumber = s := by
  unfold handleLoginAccept compareAndSwap
  rw [h]
  rfl

/-- In any other state the session ends up active, or disconnected. -/
theorem handleLoginAccept_known {s : OUCH42Session}
    (h : s.sessionState ≠ .unknown) (session sequenceNumber : Bytes) :
    (s.handleLoginAccept session sequenceNumber).sent = s.sent
      ∧ if parseSequenceNumber 0 sequenceNumber = none then
          (s.handleLoginAccept session sequenceNumber).active = false
          ∧ (s.handleLoginAccept session sequenceNumber).sessionState
            = .disconnected
        else
          (s.handleLoginAccept session sequenceNumber).active = true
          ∧ (s.handleLoginAccept session sequenceNumber).sessionState
            = (if s.sessionState = .connected then .loggedIn
              else s.sessionState) := by
  have hflag := (compareAndSwap_fst s .connected .loggedIn).mpr h
  have hsent : (s.compareAndSwap .connected .loggedIn).2.sent = s.sent := by
    unfold compareAndSwap
    dsimp only
    split <;> rfl
  unfold handleLoginAccept
  dsimp only
  rw [if_neg (by rw [hflag]; decide)]
  cases hseq : parseSequenceNumber 0 sequenceNumber with
  | none =>
      rw [if_pos rfl]
      refine ⟨?_, active_disconnect _ _, sessionState_disconnect _ _⟩
      dsimp only
      rw [sent_disconnect, if_neg (by rintro ⟨⟨⟩, -⟩), hsent]
  | some seqnum =>
      rw [if_neg (by rintro ⟨⟩)]
      refine ⟨hsent, rfl, ?_⟩
      unfold compareAndSwap
      dsimp only
      split <;> rfl

/-- The reconnection that the timer begins. -/
def reconnect (s : OUCH42Session) : OUCH42Session :=
  if s.active then
    ({ s with sessionState := .timedOut, active := false }.disconnect
      true).connect
  else { s with sessionState := .timedOut }

/-- The heartbeat that it sends. -/
def heartbeat (s : OUCH42Session) (io : Sending) : OUCH42Session :=
  if (s.sendOrderData .heartbeatMessage io).1 = false then
    { (s.sendOrderData .heartbeatMessage io).2 with
      active := false, sessionState := .error }.disconnect true
  else (s.sendOrderData .heartbeatMessage io).2

/-- The timer reconnects, sends a heartbeat, or leaves the session alone. -/
theorem onTimer_cases (s : OUCH42Session) (ts : UInt64) (io : Sending) :
    s.onTimer ts io = s
      ∨ s.sessionState = .loggedIn ∧ s.onTimer ts io = s.reconnect
      ∨ s.sessionState = .loggedIn ∧ s.onTimer ts io = s.heartbeat io := by
  unfold onTimer
  split
  · exact .inl rfl
  case isFalse hlogged =>
    have hin : s.sessionState = .loggedIn := by
      unfold loggedIn at hlogged
      simpa using hlogged
    dsimp only
    split
    · have hout : s.reconnect.loggedIn = false := by
        unfold reconnect
        split <;> rfl
      refine .inr (.inl ⟨hin, ?_⟩)
      unfold reconnect at hout ⊢
      rw [if_neg (by rw [hout]; decide)]
    · split
      · split
        · refine .inr (.inr ⟨hin, ?_⟩)
          unfold heartbeat
          simp only [Bool.not_eq_true']
        · exact .inl rfl
      · exact .inl rfl

-- =============================================================== conforming

/-- What an event sends is what comes in addition. -/
theorem sentBy_eq {s : OUCH42Session} {e : Event} {msgs}
    (h : (s.step e).sent = s.sent ++ msgs) : s.sentBy e = msgs := by
  unfold sentBy
  rw [h, List.drop_left]

/-- An event that sends nothing, enters LOGGED_IN from CONNECTED at most,
and ends inactive or logged in. -/
theorem conforms_of_quiet {s : OUCH42Session} {e : Event}
    (hactive : (s.step e).active = true →
      (s.step e).sessionState = .loggedIn)
    (hentry : (s.step e).sessionState = .loggedIn →
      s.sessionState ≠ .loggedIn → s.sessionState = .connected)
    (hsent : (s.step e).sent = s.sent) : Conforms s e := by
  have hnone : s.sentBy e = [] :=
    sentBy_eq (hsent.trans (List.append_nil _).symm)
  refine ⟨hactive, hentry, fun msg h => ?_, fun h => ?_⟩
  · rw [hnone] at h
    cases h
  · rw [hnone] at h
    cases h

section Steps

variable (s : OUCH42Session)

/-- Connecting, exactly as the protocol allows it. -/
theorem conforms_connect :
    Conforms s .connect ↔ InOrder s .connect := by
  constructor
  · intro h
    show s.active = false
    cases hs : s.active with
    | false => rfl
    | true => cases h.active hs
  · intro h
    have hs : s.active = false := h
    refine conforms_of_quiet (fun hactive => ?_) (by rintro ⟨⟩) rfl
    cases hs.symm.trans hactive

/-- A connection that is there. -/
theorem conforms_onConnected (io : Sending)
    (hinv : s.active = true → s.sessionState = .loggedIn) :
    Conforms s (.onConnected io) ↔ InOrder s (.onConnected io) := by
  by_cases hu : s.sessionState = .unknown
  · have hstep : s.step (.onConnected io) = s := onConnected_unknown hu io
    refine iff_of_true (conforms_of_quiet ?_ ?_ ?_) (.inr hu)
    · rw [hstep]
      exact hinv
    · rw [hstep]
      exact fun h h' => absurd h h'
    · rw [hstep]
  · obtain ⟨hactive, hstate, msg, hsent⟩ := onConnected_sends hu io
    have hby : s.sentBy (.onConnected io) = [.loginRequest msg] :=
      sentBy_eq hsent
    constructor
    · intro h
      have hmem : .loginRequest msg ∈ s.sentBy (.onConnected io) := by
        rw [hby]
        exact List.mem_cons_self
      exact .inl (h.loginRequest msg hmem).1
    · rintro (hc | hc)
      · rw [if_pos hc] at hstate
        have hinactive : s.active = false := by
          cases hs : s.active with
          | false => rfl
          | true => cases hc.symm.trans (hinv hs)
        refine ⟨fun h => ?_, fun h => ?_, fun msg' _ => ⟨hc, hstate⟩,
          fun h => ?_⟩
        · cases (hactive.trans hinactive).symm.trans h
        · cases hstate.symm.trans h
        · rw [hby] at h
          rcases List.mem_singleton.mp h with ⟨⟩
      · exact absurd hc hu

/-- A login that is accepted. -/
theorem conforms_loginAccept (ts : UInt64) (session sequenceNumber : Bytes)
    (hinv : s.active = true → s.sessionState = .loggedIn) :
    Conforms s (.loginAccept ts session sequenceNumber)
      ↔ InOrder s (.loginAccept ts session sequenceNumber) := by
  by_cases hu : s.sessionState = .unknown
  · have hstep : s.step (.loginAccept ts session sequenceNumber)
        = s.onRecv ts :=
      handleLoginAccept_unknown (s := s.onRecv ts) hu session sequenceNumber
    refine iff_of_true (conforms_of_quiet ?_ ?_ ?_) (.inr (.inr (.inl hu)))
    · rw [hstep]
      exact hinv
    · rw [hstep]
      exact fun h h' => absurd h h'
    · rw [hstep]
      rfl
  · obtain ⟨hsent, hrest⟩ := handleLoginAccept_known (s := s.onRecv ts) hu
      session sequenceNumber
    by_cases hseq : parseSequenceNumber 0 sequenceNumber = none
    · rw [if_pos hseq] at hrest
      refine iff_of_true (conforms_of_quiet ?_ ?_ hsent)
        (.inr (.inr (.inr hseq)))
      · intro h
        cases hrest.1.symm.trans h
      · intro h
        cases hrest.2.symm.trans h
    · rw [if_neg hseq] at hrest
      obtain ⟨hactive, hstate⟩ := hrest
      constructor
      · intro h
        have hin : (if s.sessionState = .connected then State.loggedIn
            else s.sessionState) = .loggedIn :=
          hstate.symm.trans (h.active hactive)
        by_cases hc : s.sessionState = .connected
        · exact .inl hc
        · rw [if_neg hc] at hin
          exact .inr (.inl hin)
      · intro h
        refine conforms_of_quiet (fun _ => ?_) (fun hin hnot => ?_) hsent
        · refine hstate.trans ?_
          rcases h with hc | hl | hunk | hnone
          · exact if_pos hc
          · refine (if_neg ?_).trans hl
            intro hc
            cases hl.symm.trans hc
          · exact absurd hunk hu
          · exact absurd hnone hseq
        · by_contra hc
          exact hnot ((hstate.trans (if_neg hc)).symm.trans hin)

/-- A disconnect. -/
theorem conforms_disconnect (force : Bool) :
    Conforms s (.disconnect force) ↔ InOrder s (.disconnect force) := by
  have hsent : (s.step (.disconnect force)).sent = _ :=
    sent_disconnect s force
  have hactive : (s.step (.disconnect force)).active = false :=
    active_disconnect s force
  by_cases hsend : force = false ∧ s.sessionState ≠ .unknown
  · rw [if_pos hsend] at hsent
    have hby := sentBy_eq hsent
    obtain ⟨rfl, hu⟩ := hsend
    constructor
    · intro h
      exact .inr (.inl
        (h.logoffRequest (by rw [hby]; exact List.mem_cons_self)).2)
    · rintro (h | h | h)
      · cases h
      · refine ⟨fun ha => ?_, fun hin => (by cases hin), fun msg hm => ?_,
          fun _ => ⟨rfl, h⟩⟩
        · cases hactive.symm.trans ha
        · rw [hby] at hm
          rcases List.mem_singleton.mp hm with ⟨⟩
      · exact absurd h hu
  · rw [if_neg hsend] at hsent
    refine iff_of_true (conforms_of_quiet (fun ha => ?_)
      (fun hin => (by cases hin)) hsent) ?_
    · cases hactive.symm.trans ha
    · cases force with
      | true => exact .inl rfl
      | false =>
          exact .inr (.inr (Decidable.not_not.mp fun h => hsend ⟨rfl, h⟩))

/-- The timer always conforms. -/
theorem conforms_onTimer (ts : UInt64) (io : Sending)
    (hinv : s.active = true → s.sessionState = .loggedIn) :
    Conforms s (.onTimer ts io) := by
  have hstep : s.step (.onTimer ts io) = s.onTimer ts io := rfl
  rcases s.onTimer_cases ts io with h | ⟨hin, h⟩ | ⟨hin, h⟩
  · rw [h] at hstep
    refine conforms_of_quiet ?_ ?_ ?_
    · rw [hstep]
      exact hinv
    · rw [hstep]
      exact fun h h' => absurd h h'
    · rw [hstep]
  · rw [h] at hstep
    unfold reconnect at hstep
    refine conforms_of_quiet (fun ha => ?_) (fun _ hnot => absurd hin hnot)
      ?_
    · rw [hstep] at ha ⊢
      cases hs : s.active with
      | true => rw [hs, if_pos rfl] at ha; cases ha
      | false =>
          rw [hs, if_neg (by decide)] at ha
          cases ha
    · rw [hstep]
      split
      · exact (sent_disconnect _ true).trans
          (if_neg (by rintro ⟨⟨⟩, -⟩))
      · rfl
  · rw [h] at hstep
    have hby : s.sentBy (.onTimer ts io) = [.heartbeatMessage] := by
      refine sentBy_eq ?_
      rw [hstep]
      unfold heartbeat
      split
      · refine (sent_disconnect _ true).trans ?_
        rw [if_neg (by rintro ⟨⟨⟩, -⟩)]
        unfold sendOrderData
        dsimp only
        split <;> rfl
      · unfold sendOrderData
        dsimp only
        split <;> rfl
    refine ⟨fun ha => ?_, fun _ hnot => absurd hin hnot, fun msg hm => ?_,
      fun hm => ?_⟩
    · rw [hstep] at ha ⊢
      unfold heartbeat at ha ⊢
      split at ha
      · cases (active_disconnect _ true).symm.trans ha
      case isFalse hsent =>
        rw [if_neg hsent]
        unfold sendOrderData
        dsimp only
        split <;> exact hin
    · rw [hby] at hm
      rcases List.mem_singleton.mp hm with ⟨⟩
    · rw [hby] at hm
      rcases List.mem_singleton.mp hm with ⟨⟩

/-- An end of session always logs out, of a session it has marked as
disconnected. -/
theorem not_conforms_endOfSession (ts : UInt64) :
    ¬Conforms s (.endOfSession ts) := by
  intro h
  have hsent : (s.step (.endOfSession ts)).sent
      = s.sent ++ [.logoffRequest] :=
    (sent_disconnect _ false).trans (if_pos ⟨rfl, by rintro ⟨⟩⟩)
  have hby := sentBy_eq hsent
  cases (h.logoffRequest (by rw [hby]; exact List.mem_cons_self)).1

end Steps

/-- An event conforms exactly if it is in order, in a session that is
active only when logged in. -/
theorem conforms_iff_inOrder {s : OUCH42Session}
    (hinv : s.active = true → s.sessionState = .loggedIn) (e : Event) :
    Conforms s e ↔ InOrder s e := by
  cases e with
  | connect => exact conforms_connect s
  | onConnected io => exact conforms_onConnected s io hinv
  | loginAccept ts session sequenceNumber =>
      exact conforms_loginAccept s ts session sequenceNumber hinv
  | endOfSession ts => exact iff_of_false (not_conforms_endOfSession s ts) id
  | disconnect force => exact conforms_disconnect s force
  | onTimer ts io =>
      exact iff_of_true (conforms_onTimer s ts io hinv) True.intro
  | loginReject ts =>
      exact iff_of_true (conforms_of_quiet (by rintro ⟨⟩) (by rintro ⟨⟩) rfl)
        True.intro
  | onPeerDisconnect =>
      exact iff_of_true (conforms_of_quiet (by rintro ⟨⟩) (by rintro ⟨⟩) rfl)
        True.intro
  | onLocalDisconnect =>
      exact iff_of_true (conforms_of_quiet (by rintro ⟨⟩) (by rintro ⟨⟩) rfl)
        True.intro

-- ==================================================================== a run

/-- All events of a run conform exactly if they are all in order. -/
theorem admits_conforms_iff (username password reqSession : Bytes)
    (heartbeatGraceSec lastSeqnumReceived : UInt64) (session : Bytes)
    (es : List Event) :
    Lib.Admits step Conforms (init username password reqSession
        heartbeatGraceSec lastSeqnumReceived session) es
      ↔ Lib.Admits step InOrder (init username password reqSession
        heartbeatGraceSec lastSeqnumReceived session) es := by
  refine Lib.admits_iff_of_step
    (I := fun s => s.active = true → s.sessionState = .loggedIn)
    (p := fun _ _ => True) (fun s e hs _ => conforms_iff_inOrder hs e)
    (fun s e hs _ hin => ?_) (by rintro ⟨⟩) (Lib.Admits.trivial _ _)
  exact ((conforms_iff_inOrder hs e).mpr hin).active

/-- After a login reject, an orderly disconnect sends a logout request. -/
theorem rejected_session_logs_out :
    ¬ ∀ (username password reqSession : Bytes)
        (heartbeatGraceSec lastSeqnumReceived : UInt64) (session : Bytes)
        (es : List Event),
      Lib.Admits step Conforms (init username password reqSession
        heartbeatGraceSec lastSeqnumReceived session) es := by
  intro h
  have hrun := h [] [] [] 5 0 []
    [.connect, .onConnected ⟨true, 0⟩, .loginReject 1, .disconnect false]
  have hlogout := hrun.2.2.2.1.logoffRequest (by decide)
  exact absurd hlogout.2 (by decide)

end OUCH42Session

end TradingEngine.OE
