/-
Stale sessions: both timers subtract times of the day in unsigned
arithmetic, so a difference that reaches over midnight is 2^64 less a day
too large. In `BOE20Session::on_timer` the difference is compared as it is;
in `OUCH42Session::on_timer` the grace period is taken off the time of the
timer first, which wraps in the first seconds of a day.

Times are those of a clock, a day has `dayMillis` milliseconds, and the
last message is less than a day older than the timer.

# Conditions on the clock

For both sessions the condition is about two readings of the clock alone. On
one day the subtraction is right. Over midnight it is too large by almost all
of 2^64, which is more than any limit that is configured, so the session is
found stale at once; the condition also has the cases in which that happens
to be right. The grace period of the OUCH session moves this by a few seconds
into the day, where the deadline itself wraps.
-/
import TradingEngine.OE.BOE20Timer
import TradingEngine.OE.OUCH42Session

namespace TradingEngine.OE

open Timestamp (dayMillis)

-- ================================================================ differences

/-- Both times are of one UTC day. -/
def Timestamp.SameDay (a b : Timestamp) : Prop :=
  a.millis / dayMillis = b.millis / dayMillis

instance (a b : Timestamp) : Decidable (a.SameDay b) :=
  inferInstanceAs (Decidable (_ = _))

section Difference

variable {a b : Timestamp} (ha : a.OfClock) (hb : b.OfClock)
  (hle : a.millis ≤ b.millis) (hday : b.millis < a.millis + dayMillis)

include ha hb hle hday

/-- On one day the difference is what has passed. -/
theorem difference_of_sameDay (hsame : a.SameDay b) :
    (b.millisecondsSinceMidnight - a.millisecondsSinceMidnight).toNat
      = b.millis - a.millis := by
  have hma := Timestamp.toNat_millisecondsSinceMidnight ha
  have hmb := Timestamp.toNat_millisecondsSinceMidnight hb
  rw [UInt64.toNat_sub, hma, hmb]
  unfold Timestamp.SameDay at hsame
  unfold dayMillis at *
  omega

/-- Over midnight it wraps. -/
theorem difference_over_midnight (hnext : ¬ a.SameDay b) :
    (b.millisecondsSinceMidnight - a.millisecondsSinceMidnight).toNat
      = 18446744073709551616 - dayMillis + (b.millis - a.millis) := by
  have hma := Timestamp.toNat_millisecondsSinceMidnight ha
  have hmb := Timestamp.toNat_millisecondsSinceMidnight hb
  have hover : b.millis % dayMillis + dayMillis
      = a.millis % dayMillis + (b.millis - a.millis) := by
    unfold Timestamp.SameDay at hnext
    unfold dayMillis at *
    omega
  have hlt : a.millis % dayMillis < dayMillis :=
    Nat.mod_lt _ (by decide)
  have hback : b.millis - a.millis < dayMillis := by omega
  rw [UInt64.toNat_sub, hma, hmb, Nat.mod_eq_of_lt]
  · unfold dayMillis at *
    omega
  · unfold dayMillis at *
    omega

end Difference

/-- The time of the timer, less the grace period, in unsigned arithmetic. -/
theorem toNat_deadline {b : Timestamp} (hb : b.OfClock)
    (graceSec : UInt64) :
    ((b.millisecondsSinceMidnight - graceSec * 1000).toNat : Int)
      = ((b.millis % dayMillis : Nat) - (graceSec.toNat * 1000 : Nat))
        % 18446744073709551616 := by
  have hmb := Timestamp.toNat_millisecondsSinceMidnight hb
  have hthousand : (1000 : UInt64).toNat = 1000 := rfl
  rw [UInt64.toNat_sub, UInt64.toNat_mul, hmb, hthousand]
  unfold dayMillis
  omega

-- ======================================================================= BOE

namespace BOE20Timer

/-- `on_timer` finds the server stale: it logs out and disconnects. -/
def DeclaresStale (s : BOE20Timer) (ts sentAt : Timestamp) : Prop :=
  (s.onTimer ts sentAt).state = .errorDisconnect

/-- The time without a message that makes a server stale. -/
def staleAfter (s : BOE20Timer) : Nat :=
  (s.missedHbBeforeLogout * s.heartbeatMs).toNat

/-- The last message and the timer are of one day, or it is time to log out
anyway. A limit within a day of 2^64 is not reached by the wrapped
difference either. -/
def TimerSound (s : BOE20Timer) (a b : Timestamp) : Prop :=
  a.SameDay b ∨ s.staleAfter ≤ b.millis - a.millis
    ∨ 18446744073709551616 - dayMillis + (b.millis - a.millis)
      < s.staleAfter

theorem declaresStale_iff {s : BOE20Timer} (h : s.expecting = true)
    (ts sentAt : Timestamp) :
    s.DeclaresStale ts sentAt
      ↔ s.missedHbBeforeLogout * s.heartbeatMs
        ≤ ts.millisecondsSinceMidnight
          - s.lastMessageRecv.millisecondsSinceMidnight := by
  have hstate : s.state = .active ∨ s.state = .replay := by
    unfold expecting at h
    simpa using h
  have hnot : s.state ≠ .userLogoutRequest := by
    rcases hstate with h | h <;> rw [h] <;> decide
  have herror : s.state ≠ .errorDisconnect := by
    rcases hstate with h | h <;> rw [h] <;> decide
  unfold DeclaresStale onTimer
  dsimp only
  rw [h, decide_eq_false hnot, Bool.true_and, Bool.or_false]
  split
  case isTrue hstale =>
    exact iff_of_true rfl (of_decide_eq_true hstale)
  case isFalse hfresh =>
    refine iff_of_false ?_ fun hle => hfresh (decide_eq_true hle)
    -- a heartbeat leaves the state alone, and in it nothing reconnects
    have hsame (c : Bool) :
        (if c then s.sendHelper .clientHeartbeat sentAt else s).state
          = s.state := by
      cases c <;> rfl
    rw [if_neg (by rw [hsame, decide_eq_false herror]; rintro ⟨⟩), hsame]
    exact herror

/-- The server is found stale when it is, exactly for a sound timer. -/
theorem declaresStale_correct_iff {s : BOE20Timer} {a b : Timestamp}
    (ha : a.OfClock) (hb : b.OfClock) (hle : a.millis ≤ b.millis)
    (hday : b.millis < a.millis + dayMillis) (h : s.expecting = true)
    (hrecv : s.lastMessageRecv = a) (sentAt : Timestamp) :
    (s.DeclaresStale b sentAt ↔ s.staleAfter ≤ b.millis - a.millis)
      ↔ s.TimerSound a b := by
  rw [declaresStale_iff h, hrecv, UInt64.le_iff_toNat_le]
  change (s.staleAfter ≤ _ ↔ _) ↔ _
  unfold TimerSound
  by_cases hsame : a.SameDay b
  · rw [difference_of_sameDay ha hb hle hday hsame]
    exact iff_of_true Iff.rfl (.inl hsame)
  · rw [difference_over_midnight ha hb hle hday hsame, or_iff_right hsame]
    unfold dayMillis at *
    omega

end BOE20Timer

-- ====================================================================== OUCH

namespace OUCH42Session

/-- `on_timer` times the session out; an active one reconnects at once. -/
def TimesOut (s : OUCH42Session) (ts : UInt64) (io : Sending) : Prop :=
  (s.onTimer ts io).sessionState = .timedOut
    ∨ (s.onTimer ts io).sessionState = .connecting

/-- `m_heartbeat_grace_sec` in milliseconds. -/
def grace (s : OUCH42Session) : Nat := s.heartbeatGraceSec.toNat * 1000

/-- Once the grace period since midnight is over, the last message is of the
same day or within the grace period. Before that it is older than the grace
period, or the grace period is so long that the deadline wraps to the time
of the last message or before it. -/
def TimerSound (s : OUCH42Session) (a b : Timestamp) : Prop :=
  if s.grace ≤ b.millis % dayMillis then
    a.SameDay b ∨ b.millis - a.millis ≤ s.grace
  else
    s.grace < b.millis - a.millis
      ∨ ((b.millis % dayMillis : Nat) - (s.grace : Int))
          % 18446744073709551616 ≤ (a.millis % dayMillis : Nat)

theorem timesOut_iff {s : OUCH42Session} (h : s.loggedIn = true)
    (ts : UInt64) (io : Sending) :
    s.TimesOut ts io
      ↔ s.lastMessageReceived < ts - s.heartbeatGraceSec * 1000 := by
  have hin : s.sessionState = .loggedIn := of_decide_eq_true h
  unfold TimesOut onTimer
  rw [h, if_neg (by decide)]
  dsimp only
  split
  case isTrue hlate =>
    refine iff_of_true ?_ hlate
    cases hactive : s.active with
    | false => exact .inl rfl
    | true => exact .inr rfl
  case isFalse hintime =>
    refine iff_of_false ?_ hintime
    -- the heartbeat ends logged in or disconnected
    split
    · unfold sendOrderData
      cases io.sent with
      | true =>
          show ¬ (s.sessionState = .timedOut ∨ s.sessionState = .connecting)
          rw [hin]
          decide
      | false =>
          show ¬ (State.disconnected = .timedOut
            ∨ State.disconnected = .connecting)
          decide
    · rw [hin]
      decide

/-- The session is timed out when it is due, exactly for a sound timer. -/
theorem timesOut_correct_iff {s : OUCH42Session} {a b : Timestamp}
    (ha : a.OfClock) (hb : b.OfClock) (hle : a.millis ≤ b.millis)
    (hday : b.millis < a.millis + dayMillis) (h : s.loggedIn = true)
    (hrecv : s.lastMessageReceived = a.millisecondsSinceMidnight)
    (io : Sending) :
    (s.TimesOut b.millisecondsSinceMidnight io
        ↔ s.grace < b.millis - a.millis)
      ↔ s.TimerSound a b := by
  have hma := Timestamp.toNat_millisecondsSinceMidnight ha
  have hdeadline := toNat_deadline hb s.heartbeatGraceSec
  rw [timesOut_iff h, hrecv, UInt64.lt_iff_toNat_lt, hma]
  change _ = ((_ : Nat) - (s.grace : Int)) % _ at hdeadline
  unfold TimerSound
  split
  case isTrue hpast =>
    unfold Timestamp.SameDay
    unfold dayMillis at *
    omega
  case isFalse hearly =>
    rw [← hdeadline]
    unfold dayMillis at *
    omega

end OUCH42Session

-- ====================================================================== both

/-- Each timer finds its session stale exactly when it is, at the times for
which its arithmetic is sound and at no others. -/
theorem stale_detection_iff {a b : Timestamp} (ha : a.OfClock)
    (hb : b.OfClock) (hle : a.millis ≤ b.millis)
    (hday : b.millis < a.millis + dayMillis) {boe : BOE20Timer}
    (hboe : boe.expecting = true) (hrecv : boe.lastMessageRecv = a)
    {ouch : OUCH42Session} (houch : ouch.loggedIn = true)
    (hreceived : ouch.lastMessageReceived = a.millisecondsSinceMidnight)
    (sentAt : Timestamp) (io : OUCH42Session.Sending) :
    ((boe.DeclaresStale b sentAt ↔ boe.staleAfter ≤ b.millis - a.millis)
        ↔ boe.TimerSound a b)
      ∧ ((ouch.TimesOut b.millisecondsSinceMidnight io
            ↔ ouch.grace < b.millis - a.millis)
        ↔ ouch.TimerSound a b) :=
  ⟨boe.declaresStale_correct_iff ha hb hle hday hboe hrecv sentAt,
    ouch.timesOut_correct_iff ha hb hle hday houch hreceived io⟩

/-- A second before midnight. -/
def lateEvening : Timestamp := ⟨86399, 0⟩

/-- Half a second after it. -/
def earlyMorning : Timestamp := ⟨86400, 500000000⟩

/-- A session that heard from its server last at that time. -/
def activeSince (recv : Timestamp) : BOE20Timer :=
  { BOE20Timer.init true 5000 with
    state := .active, active := true, lastMessageRecv := recv }

def loggedInSince (recv : Timestamp) : OUCH42Session :=
  { OUCH42Session.init [] [] [] 5 0 [] with
    sessionState := .loggedIn
    active := true
    lastMessageReceived := recv.millisecondsSinceMidnight }

theorem stale_detection_iff_demo :
    (((activeSince lateEvening).DeclaresStale earlyMorning ⟨0, 0⟩
          ↔ (activeSince lateEvening).staleAfter ≤ 1500)
        ↔ (activeSince lateEvening).TimerSound lateEvening earlyMorning)
      ∧ (((loggedInSince lateEvening).TimesOut
            earlyMorning.millisecondsSinceMidnight ⟨true, 0⟩
            ↔ (loggedInSince lateEvening).grace < 1500)
        ↔ (loggedInSince lateEvening).TimerSound lateEvening
            earlyMorning) :=
  stale_detection_iff (a := lateEvening) (b := earlyMorning) (by decide)
    (by decide) (by decide) (by decide) rfl rfl rfl rfl ⟨0, 0⟩ ⟨true, 0⟩

/-- A second and a half without a message over midnight is taken for more
than five seconds by both. -/
theorem midnight_ends_live_sessions :
    (activeSince lateEvening).DeclaresStale earlyMorning ⟨0, 0⟩
      ∧ ¬ (activeSince lateEvening).staleAfter
          ≤ earlyMorning.millis - lateEvening.millis
      ∧ (loggedInSince lateEvening).TimesOut
          earlyMorning.millisecondsSinceMidnight ⟨true, 0⟩
      ∧ ¬ (loggedInSince lateEvening).grace
          < earlyMorning.millis - lateEvening.millis := by
  unfold BOE20Timer.DeclaresStale OUCH42Session.TimesOut
  decide

end TradingEngine.OE
