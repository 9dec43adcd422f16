/-
The event stream of a client session, and what `handle_raw_bytes` makes of
it.

# Two framings

`eventSize` is the length of an event, as its layout tells it.
`awaitedSize` is the same, but for a handshake only from 104 bytes on: so
many the wrapper wants before it looks at one, though a handshake can be
shorter. With a whole event at the front, `next_event_from_buffer` takes
what `awaitedSize` says (`nextSize_eq_awaitedSize`).

# Three ways to go wrong

The wrapper takes a handshake without its alias while the alias is still
coming in. `m_dangly_bytes` keeps everything when a call takes all of it,
and its events are handled again with the next call. A handshake within
the last 104 bytes of the stream is never looked at. `Benign` excludes the
three, and without it the events are not handled as they came
(`events_handled_iff`).

That what is handled again cannot make up for what is left behind is an
argument on multisets (`Accounts`): the events left behind at the end would
be a permutation of the repeated ones, which came out of a buffer complete,
but what is left behind is a handshake that did not.
-/
import TradingEngine.TS.TPSServer
import Mathlib.Data.List.Perm.Basic

namespace TradingEngine.TS.TPS

open Lib (le16 split IsFrame Stuck Sized)

-- =================================================================== events

/-- The length of the event at the front, by its type. -/
def eventSize (bs : DataBuffer) : Option Nat :=
  if bs.length < eventBufHeaderSize then none
  else
    match eventType bs with
    | some .subscriptionEvent => some subscriptionEventBufSize
    | some .snapshotRequestEvent => some snapshotRequestEventBufSize
    | some .handshakeEvent =>
        if bs.length < handshakeEventBufSize then none
        else if bs.length
            < handshakeEventBufSize + versionStringLen bs + 2 then none
        else
          some (handshakeEventBufSize + versionStringLen bs + 2
            + aliasLen bs)
    | _ => none

/-- The type stands in the first four bytes. -/
theorem eventType_append {bs : DataBuffer}
    (h : eventBufHeaderSize ≤ bs.length) (cs : DataBuffer) :
    eventType (bs ++ cs) = eventType bs := by
  unfold eventBufHeaderSize at h
  unfold eventType
  rw [Lib.le16_append (by omega)]

/-- The length of the version string stands in the struct. -/
theorem versionStringLen_append {bs : DataBuffer}
    (h : handshakeEventBufSize ≤ bs.length) (cs : DataBuffer) :
    versionStringLen (bs ++ cs) = versionStringLen bs := by
  unfold handshakeEventBufSize at h
  exact Lib.le16_append (by omega) cs

/-- The length of the alias stands behind the version string. -/
theorem aliasLen_append {bs : DataBuffer}
    (h : handshakeEventBufSize + versionStringLen bs + 2 ≤ bs.length)
    (cs : DataBuffer) : aliasLen (bs ++ cs) = aliasLen bs := by
  unfold aliasLen
  rw [versionStringLen_append (by omega)]
  exact Lib.le16_append (by omega) cs

/-- A length is only told from the first four bytes on. -/
theorem le_length_of_eventSize {bs : DataBuffer} {n : Nat}
    (h : eventSize bs = some n) : eventBufHeaderSize ≤ bs.length := by
  unfold eventSize at h
  split at h
  · cases h
  · omega

/-- Every event is at least as long as the smallest of them. -/
theorem le_of_eventSize {bs : DataBuffer} {n : Nat}
    (h : eventSize bs = some n) : 56 ≤ n := by
  unfold eventSize subscriptionEventBufSize snapshotRequestEventBufSize
    handshakeEventBufSize at h
  split at h
  · cases h
  · split at h
    · cases h
      exact Nat.le_refl _
    · cases h
      omega
    · split at h
      · cases h
      · split at h
        · cases h
        · cases h
          omega
    · cases h

/-- Once a length is told, more bytes do not change it. -/
theorem eventSize_append {bs : DataBuffer} {n : Nat}
    (h : eventSize bs = some n) (cs : DataBuffer) :
    eventSize (bs ++ cs) = some n := by
  have hlen := le_length_of_eventSize h
  have happ : (bs ++ cs).length = bs.length + cs.length :=
    List.length_append
  unfold eventSize at h ⊢
  rw [eventType_append hlen]
  rw [if_neg (by omega)] at h ⊢
  split at h
  · exact h
  · exact h
  · split at h
    case isTrue => cases h
    case isFalse hbuf =>
      split at h
      case isTrue => cases h
      case isFalse hversion =>
        rw [versionStringLen_append (by omega),
          aliasLen_append (by omega), if_neg (by omega),
          if_neg (by omega)]
        exact h
  · cases h

/-- So the layouts frame a stream. -/
theorem framing_eventSize : Lib.Framing eventSize := by
  refine ⟨fun bs n h => ?_, fun bs n h cs => eventSize_append h cs⟩
  have hn := le_of_eventSize h
  omega

/-- What the version of an event's own layout should be. -/
def layoutVersion : Option EventType → Nat
  | some .handshakeEvent => HandshakeEventBuf.expectedVersion
  | some .snapshotRequestEvent => SnapshotRequestEventBuf.expectedVersion
  | _ => SubscriptionEventBuf.expectedVersion

/-- A handshake, subscription or snapshot request, with the versions that
are expected of it. -/
structure WellFormed (e : DataBuffer) : Prop where
  size : IsFrame eventSize e
  version : le16 e 0 = EventBuf.expectedVersion
  netVersion : le16 e eventBufSize = NetEventBuf.expectedVersion
  ownVersion : le16 e netEventBufSize = layoutVersion (eventType e)

instance (e : DataBuffer) : Decidable (WellFormed e) :=
  decidable_of_iff (IsFrame eventSize e
      ∧ le16 e 0 = EventBuf.expectedVersion
      ∧ le16 e eventBufSize = NetEventBuf.expectedVersion
      ∧ le16 e netEventBufSize = layoutVersion (eventType e))
    ⟨fun ⟨a, b, c, d⟩ => ⟨a, b, c, d⟩, fun ⟨a, b, c, d⟩ => ⟨a, b, c, d⟩⟩

/-- No event that is handled is shorter than 56 bytes. -/
theorem WellFormed.le_length {e : DataBuffer} (h : WellFormed e) :
    56 ≤ e.length := le_of_eventSize h.size

-- ================================================================= wrappers

/-- The bytes from which on a handshake is looked at. -/
def handshakeWait : Nat := netEventBufSize + handshakeEventBufSize

/-- The length of the event at the front, as `next_event_from_buffer`
waits for it. -/
def awaitedSize (bs : DataBuffer) : Option Nat :=
  if eventType bs = some .handshakeEvent ∧ bs.length < handshakeWait then
    none
  else eventSize bs

/-- What `next_event_from_buffer` takes: the bytes read, if valid. -/
def nextSize (buf : DataBuffer) : Option Nat :=
  match nextEventFromBuffer buf with
  | some ep => if ep.valid then some ep.bytesRead else none
  | none => none

/-- Waiting longer does not change the length. -/
theorem eventSize_of_awaitedSize {bs : DataBuffer} {n : Nat}
    (h : awaitedSize bs = some n) : eventSize bs = some n := by
  unfold awaitedSize at h
  split at h
  · cases h
  · exact h

/-- So what the wrapper waits for frames a stream too. -/
theorem framing_awaitedSize : Lib.Framing awaitedSize := by
  refine ⟨fun bs n h => ?_, fun bs n h cs => ?_⟩
  · exact framing_eventSize.pos bs n (eventSize_of_awaitedSize h)
  · have hsize := eventSize_of_awaitedSize h
    have happ : (bs ++ cs).length = bs.length + cs.length :=
    List.length_append
    unfold awaitedSize at h ⊢
    rw [eventType_append (le_length_of_eventSize hsize)]
    split at h
    case isTrue => cases h
    case isFalse hwait =>
      have hwait' : ¬(eventType bs = some .handshakeEvent
          ∧ (bs ++ cs).length < handshakeWait) := by
        rintro ⟨htype, hlen⟩
        exact hwait ⟨htype, by omega⟩
      rw [if_neg hwait', eventSize_append hsize]

/-- A whole event is taken, and a handshake of less than 104 bytes from 104
on. -/
theorem WellFormed.sized {e : DataBuffer} (h : WellFormed e) :
    Sized awaitedSize e := by
  intro ds n hs
  exact framing_eventSize.sized h.size ds n (eventSize_of_awaitedSize hs)

section Whole

variable {e : DataBuffer} (h : WellFormed e) (ds : DataBuffer)

include h

/-- What follows an event does not change its versions. -/
theorem WellFormed.le16_append {i : Nat} (hi : i ≤ netEventBufSize) :
    le16 (e ++ ds) i = le16 e i := by
  have hlen := h.le_length
  unfold netEventBufSize at hi
  exact Lib.le16_append (by omega) ds

/-- The net event of a whole event is valid. -/
theorem netEventBufWrapper_wellFormed :
    netEventBufWrapper (e ++ ds) = ⟨true, netEventBufSize⟩ := by
  have hlen := h.le_length
  have happ : (e ++ ds).length = e.length + ds.length :=
    List.length_append
  have hbase : eventBufWrapper (e ++ ds) = ⟨true, eventBufSize⟩ := by
    unfold eventBufWrapper
    rw [h.le16_append ds (by decide), h.version, if_pos rfl,
      if_pos (by unfold eventBufSize; omega)]
  unfold netEventBufWrapper layoutWrapper
  rw [hbase, h.le16_append ds (by decide), h.netVersion, if_pos rfl,
    if_pos rfl, if_pos (by unfold netEventBufSize; omega)]

/-- A layout of fixed size over a net event. -/
theorem layoutWrapper_wellFormed {size expected : Nat}
    (hsize : size ≤ e.length) (hown : le16 e netEventBufSize = expected) :
    layoutWrapper (netEventBufWrapper (e ++ ds)) size netEventBufSize
      expected (e ++ ds) = ⟨true, size⟩ := by
  have happ : (e ++ ds).length = e.length + ds.length :=
    List.length_append
  unfold layoutWrapper
  rw [netEventBufWrapper_wellFormed h, h.le16_append ds (by decide), hown,
    if_pos rfl, if_pos rfl, if_pos (by omega)]

/-- A handshake is taken whole from 104 bytes on, and not before. -/
theorem handshakeEventBufWrapper_wellFormed
    (htype : eventType e = some .handshakeEvent) :
    handshakeEventBufWrapper (e ++ ds)
      = if (e ++ ds).length < handshakeWait then ⟨false, 0⟩
        else ⟨true, e.length⟩ := by
  have hlen := h.le_length
  have happ : (e ++ ds).length = e.length + ds.length :=
    List.length_append
  have hown : le16 (e ++ ds) netEventBufSize
      = HandshakeEventBuf.expectedVersion := by
    rw [h.le16_append ds (Nat.le_refl _), h.ownVersion, htype]
    rfl
  -- the size is that of the layout, with both strings
  have hsize := h.size
  unfold IsFrame eventSize at hsize
  rw [htype, if_neg (by unfold eventBufHeaderSize; omega)] at hsize
  dsimp only at hsize
  rw [if_neg (by unfold handshakeEventBufSize; omega)] at hsize
  split at hsize
  case isTrue => cases hsize
  case isFalse hversion =>
    rw [Option.some.injEq] at hsize
    unfold handshakeEventBufWrapper
    rw [netEventBufWrapper_wellFormed h]
    dsimp only
    rw [if_pos rfl, versionStringLen_append (by omega),
      aliasLen_append (by omega), if_neg (not_not_intro hown)]
    by_cases hwait : (e ++ ds).length < handshakeWait
    · rw [if_pos hwait]
      unfold handshakeWait netEventBufSize handshakeEventBufSize at hwait
      exact if_pos (by unfold netEventBufSize handshakeEventBufSize; omega)
    · rw [if_neg hwait]
      unfold handshakeWait at hwait
      rw [if_neg (by omega), if_pos (by omega), if_pos (by omega),
        if_pos (by omega), hsize]

/-- With a whole event at the front, the code's framing is the awaited
one. -/
theorem nextSize_eq_awaitedSize :
    nextSize (e ++ ds) = awaitedSize (e ++ ds) := by
  have hlen := h.le_length
  have happ : (e ++ ds).length = e.length + ds.length :=
    List.length_append
  have hheader : eventBufHeaderSize ≤ e.length := by
    unfold eventBufHeaderSize
    omega
  have hsize := h.size
  have hown := h.ownVersion
  unfold nextSize nextEventFromBuffer awaitedSize
  rw [if_pos (by omega), eventType_append hheader,
    eventSize_append h.size ds]
  unfold IsFrame eventSize at hsize
  rw [if_neg (by omega)] at hsize
  cases htype : eventType e with
  | none => rw [htype] at hsize; cases hsize
  | some t =>
      rw [htype] at hsize hown
      cases t with
      | subscriptionEvent =>
          rw [Option.some.injEq] at hsize
          have hread : subscriptionEventBufWrapper (e ++ ds)
              = ⟨true, subscriptionEventBufSize⟩ :=
            layoutWrapper_wellFormed h ds (Nat.le_of_eq hsize) hown
          dsimp only
          rw [hread, if_pos rfl, if_neg (by rintro ⟨⟨⟩, -⟩), hsize]
      | snapshotRequestEvent =>
          rw [Option.some.injEq] at hsize
          have hread : snapshotRequestEventBufWrapper (e ++ ds)
              = ⟨true, snapshotRequestEventBufSize⟩ :=
            layoutWrapper_wellFormed h ds (Nat.le_of_eq hsize) hown
          dsimp only
          rw [hread, if_pos rfl, if_neg (by rintro ⟨⟨⟩, -⟩), hsize]
      | handshakeEvent =>
          dsimp only
          rw [handshakeEventBufWrapper_wellFormed h ds htype]
          by_cases hwait : (e ++ ds).length < handshakeWait
          · have hinvalid : ¬(EventBufWrapper.mk false 0).valid = true := by
              decide
            rw [if_pos hwait, if_neg hinvalid, if_pos ⟨rfl, hwait⟩]
          · rw [if_neg hwait, if_pos rfl, if_neg fun hw => hwait hw.2]
      | _ => cases hsize

end Whole

-- =============================================================== the loop

/-- A wrapper that is valid has read something, and nothing that is not
there. -/
def EventBufWrapper.Reads (w : EventBufWrapper) (buf : DataBuffer) : Prop :=
  w.valid = true → 0 < w.bytesRead ∧ w.bytesRead ≤ buf.length

/-- Nothing is asked of a wrapper that is not valid. -/
theorem reads_invalid (n : Nat) (buf : DataBuffer) :
    (EventBufWrapper.mk false n).Reads buf := by
  rintro ⟨⟩

/-- The layouts with a fixed size check that it is there. -/
theorem reads_layoutWrapper {w : EventBufWrapper} {buf : DataBuffer}
    (hw : w.Reads buf) {size : Nat} (hsize : 0 < size)
    (versionAt expected : Nat) :
    (layoutWrapper w size versionAt expected buf).Reads buf := by
  unfold layoutWrapper
  split
  · split
    case isTrue hlen =>
      split
      · exact fun _ => ⟨hsize, hlen⟩
      · exact hw
    case isFalse => exact reads_invalid 0 buf
  · exact hw

/-- The net event. -/
theorem reads_netEventBufWrapper (buf : DataBuffer) :
    (netEventBufWrapper buf).Reads buf := by
  apply reads_layoutWrapper _ (by decide)
  unfold eventBufWrapper
  split
  case isTrue hlen =>
    split
    · exact fun _ => ⟨by decide, hlen⟩
    · exact reads_invalid 0 buf
  case isFalse => exact reads_invalid 0 buf

/-- The handshake checks every length before it reads on. -/
theorem reads_handshakeEventBufWrapper (buf : DataBuffer) :
    (handshakeEventBufWrapper buf).Reads buf := by
  have hinvalid := reads_invalid 0 buf
  unfold handshakeEventBufWrapper
  dsimp only
  split
  case isFalse => exact hinvalid
  case isTrue =>
    split
    case isTrue => exact hinvalid
    case isFalse =>
      split
      case isTrue => exact hinvalid
      case isFalse =>
        split
        case isFalse => exact hinvalid
        case isTrue =>
          split
          case isFalse => exact hinvalid
          case isTrue hversion =>
            split
            case isTrue hall =>
              exact fun _ => ⟨by show 0 < _ + _; omega, hall⟩
            case isFalse =>
              exact fun _ => ⟨by show 0 < _ + _; omega, hversion⟩

/-- What is taken was there. -/
theorem nextSize_bounds {buf : DataBuffer} {n : Nat}
    (h : nextSize buf = some n) : 0 < n ∧ n ≤ buf.length := by
  have hreads : ∀ w : EventBufWrapper, w.Reads buf →
      (if w.valid then some w.bytesRead else none) = some n →
      0 < n ∧ n ≤ buf.length := by
    intro w hw hn
    split at hn
    case isTrue hvalid =>
      cases hn
      exact hw hvalid
    case isFalse => cases hn
  have hnet := reads_netEventBufWrapper buf
  unfold nextSize nextEventFromBuffer at h
  split at h
  case h_2 => cases h
  case h_1 ep hep =>
    apply hreads ep _ h
    split_ifs at hep
    split at hep
    · cases hep
      exact reads_layoutWrapper hnet (by decide) _ _
    · cases hep
      exact reads_layoutWrapper hnet (by decide) _ _
    · cases hep
      exact reads_handshakeEventBufWrapper buf
    · cases hep

/-- The loop of `handle_raw_bytes` makes progress. -/
theorem nextSize_pos : Lib.Positive nextSize :=
  fun _ _ h => (nextSize_bounds h).1

/-- One turn of the loop. -/
theorem readEvents_succ (turns : Nat) (s : ClientSession)
    (cur : DataBuffer) :
    ClientSession.readEvents (turns + 1) s cur
      = match nextSize cur with
        | some n =>
            ClientSession.readEvents turns (s.handleEvent (cur.take n))
              (cur.drop n)
        | none => (s, cur) := by
  unfold nextSize
  rw [ClientSession.readEvents]
  cases nextEventFromBuffer cur with
  | none => rfl
  | some ep =>
      by_cases hvalid : ep.valid = true
      · dsimp only
        rw [if_pos hvalid, if_pos hvalid]
      · dsimp only
        rw [if_neg hvalid, if_neg hvalid]

/-- The loop is `split`. -/
theorem readEvents_spec (cur : DataBuffer) :
    ∀ (turns : Nat) (s : ClientSession), cur.length ≤ turns →
      ClientSession.readEvents turns s cur
        = ({ s with handled := s.handled ++ (split nextSize cur).1 },
          (split nextSize cur).2) := by
  induction cur using Lib.split_induction nextSize_pos with
  | stuck cur hstuck =>
      intro turns s _
      rw [Lib.split_stuck hstuck]
      dsimp only
      rw [List.append_nil]
      cases turns with
      | zero => rfl
      | succ turns =>
          rw [readEvents_succ]
          cases hs : nextSize cur with
          | none => rfl
          | some n =>
              have hlt := hstuck n hs
              have hle := (nextSize_bounds hs).2
              omega
  | take cur n hs hn ih =>
      intro turns s hturns
      have hn0 := nextSize_pos cur n hs
      obtain ⟨turns, rfl⟩ : ∃ k, turns = k + 1 := ⟨turns - 1, by omega⟩
      rw [Lib.split_take nextSize_pos hs hn, readEvents_succ, hs]
      dsimp only
      rw [ih turns _ (by rw [List.length_drop]; omega)]
      unfold ClientSession.handleEvent
      rw [List.append_assoc]
      rfl

-- =================================================================== a call

/-- With what is left of the awaited framing, the code's may go on. -/
theorem split_nextSize {u future : DataBuffer} {events : List DataBuffer}
    (hwf : ∀ e ∈ events, WellFormed e)
    (hcut : u ++ future = events.flatten) :
    split nextSize u
      = ((split awaitedSize u).1
          ++ (split nextSize (split awaitedSize u).2).1,
        (split nextSize (split awaitedSize u).2).2) := by
  have hpos := framing_awaitedSize.pos
  induction u using Lib.split_induction hpos generalizing events with
  | stuck u hstuck => rw [Lib.split_stuck hstuck]; rfl
  | take u n hs hn ih =>
      obtain ⟨rest, rfl, hrest⟩ := framing_awaitedSize.take_cut
        (fun e he => (hwf e he).sized) hs hn hcut
      have he := hwf _ List.mem_cons_self
      have hnext := nextSize_eq_awaitedSize he (u.drop n)
      rw [List.take_append_drop, hs] at hnext
      rw [Lib.split_take hpos hs hn, Lib.split_take nextSize_pos hnext hn,
        ih (fun e he => hwf e (List.mem_cons_of_mem _ he)) hrest]
      rfl

/-- What the code takes where the awaited framing is stuck is not an
event. -/
theorem not_wellFormed_of_stuck {r : DataBuffer} {n : Nat}
    (hstuck : Stuck awaitedSize r) (hs : nextSize r = some n) :
    ¬WellFormed (r.take n) := by
  intro he
  have hn := (nextSize_bounds hs).2
  have hnext := nextSize_eq_awaitedSize he (r.drop n)
  rw [List.take_append_drop, hs] at hnext
  exact absurd (hstuck n hnext.symm) (Nat.not_lt_of_le hn)

/-- What the code takes of a stream of events are its first, as far as they
are events at all. -/
theorem split_nextSize_cut {u future : DataBuffer}
    {events : List DataBuffer} (hwf : ∀ e ∈ events, WellFormed e)
    (hcut : u ++ future = events.flatten)
    (htaken : ∀ e ∈ (split nextSize u).1, WellFormed e) :
    ∃ rest, events = (split nextSize u).1 ++ rest
      ∧ (split nextSize u).2 ++ future = rest.flatten := by
  induction u using Lib.split_induction nextSize_pos generalizing events with
  | stuck u hstuck =>
      rw [Lib.split_stuck hstuck]
      exact ⟨events, rfl, hcut⟩
  | take u n hs hn ih =>
      rw [Lib.split_take nextSize_pos hs hn] at htaken ⊢
      have he := htaken _ List.mem_cons_self
      have hsize := eventSize_append he.size (u.drop n)
      rw [List.take_append_drop, List.length_take_of_le hn] at hsize
      obtain ⟨rest, rfl, hrest⟩ := framing_eventSize.take_cut
        (fun e he => framing_eventSize.sized (hwf e he).size) hsize hn hcut
      obtain ⟨rest', rfl, hrest'⟩ := ih
        (fun e he => hwf e (List.mem_cons_of_mem _ he)) hrest
        (fun e he => htaken e (List.mem_cons_of_mem _ he))
      exact ⟨rest', rfl, hrest'⟩

/-- It ends where nothing more can be taken. -/
theorem nextSize_split (u : DataBuffer) :
    nextSize (split nextSize u).2 = none := by
  cases hs : nextSize (split nextSize u).2 with
  | none => rfl
  | some n =>
      have hlt := Lib.stuck_split nextSize_pos u n hs
      have hle := (nextSize_bounds hs).2
      omega

namespace ClientSession

/-- A call: the events taken from what was there and what came, and what
is left of it, or all of it if nothing is left. -/
theorem handleRawBytes_eq (s : ClientSession) (buf : DataBuffer) :
    s.handleRawBytes buf
      = ⟨if (split nextSize (s.danglyBytes ++ buf)).2 ≠ []
            ∨ s.danglyBytes = [] then
          (split nextSize (s.danglyBytes ++ buf)).2
        else s.danglyBytes ++ buf,
        s.handled ++ (split nextSize (s.danglyBytes ++ buf)).1⟩ := by
  obtain ⟨dangly, handled⟩ := s
  unfold handleRawBytes
  dsimp only
  by_cases hd : dangly = []
  · subst hd
    have hnone : ¬(([] : DataBuffer).length ≠ 0) := by decide
    rw [if_neg hnone, if_neg hnone, readEvents_spec _ _ _ (Nat.le_refl _),
      List.nil_append]
    dsimp only
    rw [if_neg hnone, List.nil_append,
      if_pos (Or.inr rfl : (split nextSize buf).2 ≠ [] ∨ _)]
    by_cases hleft : (split nextSize buf).2 = []
    · rw [hleft, if_neg hnone]
    · rw [if_pos fun h => hleft (List.length_eq_zero_iff.mp h)]
  · have hlen : dangly.length ≠ 0 :=
      fun h => hd (List.length_eq_zero_iff.mp h)
    have hlen' : (dangly ++ buf).length ≠ 0 := by
      rw [List.length_append]
      omega
    rw [if_pos hlen, if_pos hlen, readEvents_spec _ _ _ (Nat.le_refl _)]
    dsimp only
    rw [if_pos hlen']
    by_cases hleft : (split nextSize (dangly ++ buf)).2 = []
    · have hlost : ¬(([] : DataBuffer) ≠ [] ∨ dangly = []) := by
        rintro (h | h)
        · exact h rfl
        · exact hd h
      rw [hleft, if_neg hlost]
      exact if_neg (not_not_intro rfl)
    · rw [if_pos fun h => hleft (List.length_eq_zero_iff.mp h),
        if_pos (.inl hleft)]

/-- Events that are handled stay handled. -/
theorem handled_handleRawBytes (s : ClientSession) (c : DataBuffer) :
    s.handled <+: (s.handleRawBytes c).handled := by
  rw [handleRawBytes_eq]
  exact List.prefix_append _ _

/-- Over any number of calls. -/
theorem handled_run (s : ClientSession) (chunks : List DataBuffer) :
    s.handled <+: (Lib.run handleRawBytes s chunks).handled := by
  induction chunks generalizing s with
  | nil => exact List.prefix_refl _
  | cons c chunks ih =>
      exact (handled_handleRawBytes s c).trans (ih (s.handleRawBytes c))

-- ================================================================ repeats

/-- Over a run that handles events only: the events still to come out of
the buffer and the stream, with those handled, are those of the stream,
with those that came out of the buffer and stayed. -/
structure Accounts (events repeats pending : List DataBuffer)
    (s : ClientSession) (future : DataBuffer) : Prop where
  wellFormed : ∀ e ∈ pending, WellFormed e
  stream : s.danglyBytes ++ future = pending.flatten
  perm : (s.handled ++ pending).Perm (events ++ repeats)

/-- A call leaves what the code is stuck with, or repeats the events it
took. -/
theorem Accounts.handleRawBytes {events repeats pending : List DataBuffer}
    {s : ClientSession} {c future : DataBuffer}
    (h : Accounts events repeats pending s (c ++ future))
    (hwf : ∀ e ∈ (s.handleRawBytes c).handled, WellFormed e) :
    ∃ more pending', Accounts events (repeats ++ more) pending'
        (s.handleRawBytes c) future
      ∧ (nextSize (s.handleRawBytes c).danglyBytes = none
        ∨ more <+: pending'
          ∧ (s.handleRawBytes c).danglyBytes = more.flatten) := by
  obtain ⟨hpending, hstream, hperm⟩ := h
  rw [handleRawBytes_eq] at hwf ⊢
  rw [← List.append_assoc] at hstream
  generalize hu : s.danglyBytes ++ c = u at hwf hstream ⊢
  obtain ⟨rest, rfl, hrest⟩ := split_nextSize_cut hpending hstream
    fun e he => hwf e (List.mem_append_right _ he)
  have hjoin := Lib.split_join nextSize_pos u
  by_cases hkept : (split nextSize u).2 ≠ [] ∨ s.danglyBytes = []
  · rw [if_pos hkept]
    refine ⟨[], rest, ⟨?_, hrest, ?_⟩, .inl (nextSize_split u)⟩
    · exact fun e he => hpending e (List.mem_append_right _ he)
    · rw [List.append_nil, List.append_assoc]
      exact hperm
  · rw [if_neg hkept]
    have hleft : (split nextSize u).2 = [] :=
      Decidable.not_not.mp fun h => hkept (.inl h)
    rw [hleft, List.append_nil] at hjoin
    refine ⟨(split nextSize u).1, (split nextSize u).1 ++ rest,
      ⟨hpending, hstream, ?_⟩, .inr ⟨List.prefix_append _ _, hjoin.symm⟩⟩
    have hswap : (s.handled ++ (split nextSize u).1
        ++ ((split nextSize u).1 ++ rest)).Perm
          (s.handled ++ ((split nextSize u).1 ++ rest)
            ++ (split nextSize u).1) := by
      rw [List.append_assoc, List.append_assoc]
      exact List.perm_append_comm.append_left s.handled
    refine hswap.trans ?_
    rw [← List.append_assoc events]
    exact hperm.append_right _

/-- Over a run of calls: more repeats, and at the end those of the last call,
which stay in the buffer if they took all of it. -/
theorem Accounts.run {events pending : List DataBuffer} {c : DataBuffer}
    {chunks : List DataBuffer} :
    ∀ {s : ClientSession} {repeats : List DataBuffer},
      Accounts events repeats pending s (c :: chunks).flatten →
      (∀ e ∈ (Lib.run ClientSession.handleRawBytes s
        (c :: chunks)).handled, WellFormed e) →
      ∃ more last pending',
        Accounts events (repeats ++ more ++ last) pending'
            (Lib.run ClientSession.handleRawBytes s (c :: chunks)) []
          ∧ (nextSize (Lib.run ClientSession.handleRawBytes s
                (c :: chunks)).danglyBytes = none
            ∨ last <+: pending'
              ∧ (Lib.run ClientSession.handleRawBytes s
                (c :: chunks)).danglyBytes = last.flatten) := by
  induction chunks generalizing c pending with
  | nil =>
      intro s repeats h hwf
      rw [List.flatten_cons] at h
      rw [Lib.run_cons, Lib.run_nil] at hwf ⊢
      obtain ⟨last, pending', hcall, hend⟩ := Accounts.handleRawBytes h hwf
      refine ⟨[], last, pending', ?_, hend⟩
      rw [List.append_nil]
      exact hcall
  | cons c' chunks ih =>
      intro s repeats h hwf
      rw [List.flatten_cons] at h
      rw [Lib.run_cons] at hwf ⊢
      have hpre := handled_run (s.handleRawBytes c) (c' :: chunks)
      obtain ⟨more, pending', hcall, -⟩ := Accounts.handleRawBytes h
        fun e he => hwf e (hpre.subset he)
      obtain ⟨more', last, pending'', hrun, hend⟩ := ih hcall hwf
      refine ⟨more ++ more', last, pending'', ?_, hend⟩
      rw [← List.append_assoc]
      exact hrun

/-- An event is never empty. -/
theorem eq_nil_of_flatten_eq_nil {events : List DataBuffer}
    (hwf : ∀ e ∈ events, WellFormed e) (h : events.flatten = []) :
    events = [] := by
  cases events with
  | nil => rfl
  | cons e events =>
      have he := (hwf e List.mem_cons_self).le_length
      have hlen := congrArg List.length h
      rw [List.flatten_cons, List.length_append, List.length_nil] at hlen
      omega

/-- What the code waits with is one event: two are long enough. -/
theorem eq_nil_of_waits {e : DataBuffer} {es : List DataBuffer}
    (hwf : ∀ x ∈ e :: es, WellFormed x)
    (hnone : nextSize (e :: es).flatten = none) : es = [] := by
  have he := hwf e List.mem_cons_self
  rw [List.flatten_cons] at hnone
  have hshort : (e ++ es.flatten).length < handshakeWait := by
    rw [nextSize_eq_awaitedSize he] at hnone
    unfold awaitedSize at hnone
    split at hnone
    case isTrue h => exact h.2
    case isFalse =>
      rw [eventSize_append he.size] at hnone
      cases hnone
  cases es with
  | nil => rfl
  | cons e' es =>
      have he10 := he.le_length
      have he10' := (hwf e'
        (List.mem_cons_of_mem _ List.mem_cons_self)).le_length
      have h104 : handshakeWait = 104 := rfl
      rw [List.flatten_cons, List.length_append, List.length_append] at hshort
      omega

/-- What a call took whole and kept is not made up for: after one more
call the events handled are not those of the stream. -/
theorem repeats_not_handled {kept rest : List DataBuffer}
    {handled : List DataBuffer} {c : DataBuffer} {chunks : List DataBuffer}
    (hne : kept ≠ []) (hkept : ∀ e ∈ kept, WellFormed e)
    (htaken : split nextSize kept.flatten = (kept, []))
    (hrest : ∀ e ∈ rest, WellFormed e)
    (hhandled : ∀ e ∈ handled, WellFormed e)
    (hcut : (c :: chunks).flatten = rest.flatten) :
    (Lib.run handleRawBytes ⟨kept.flatten, handled⟩ (c :: chunks)).handled
      ≠ handled ++ rest := by
  intro hrun
  have hstart : Accounts (handled ++ rest) kept (kept ++ rest)
      ⟨kept.flatten, handled⟩ (c :: chunks).flatten := by
    refine ⟨fun e he => ?_, ?_, ?_⟩
    · rcases List.mem_append.mp he with he | he
      · exact hkept e he
      · exact hrest e he
    · rw [hcut, List.flatten_append]
    · rw [List.append_assoc]
      exact List.perm_append_comm.append_left handled
  obtain ⟨more, last, pending, ⟨hwf, hstream, hperm⟩, hend⟩ :=
    hstart.run fun e he => by
      rw [hrun] at he
      rcases List.mem_append.mp he with he | he
      · exact hhandled e he
      · exact hrest e he
  rw [hrun, List.perm_append_left_iff] at hperm
  rw [List.append_nil] at hstream
  have hlen := hperm.length_eq
  have hpos := List.length_pos_iff.mpr hne
  rw [List.length_append, List.length_append] at hlen
  rcases hend with hnone | ⟨⟨tail, rfl⟩, hlast⟩
  · -- one handshake is left behind, and it is the one that was repeated
    rw [hstream] at hnone
    cases pending with
    | nil => rw [List.length_nil] at hlen; omega
    | cons e pending =>
        have hnil := eq_nil_of_waits hwf hnone
        subst hnil
        have hone := List.perm_singleton.mp hperm.symm
        cases kept with
        | nil => exact hne rfl
        | cons k kept =>
            rw [List.append_assoc, List.cons_append] at hone
            obtain ⟨rfl, hnil⟩ := List.cons.inj hone
            rw [(List.append_eq_nil_iff.mp hnil).1] at htaken
            have hstuck : Stuck nextSize [k].flatten := by
              intro n hn
              rw [hnone] at hn
              cases hn
            rw [Lib.split_stuck hstuck] at htaken
            cases htaken
  · -- the last call repeats what it took, and that is all of it
    rw [List.flatten_append, hlast] at hstream
    have htail : tail = [] :=
      eq_nil_of_flatten_eq_nil
        (fun e he => hwf e (List.mem_append_right _ he))
        (List.self_eq_append_right.mp hstream)
    rw [htail, List.append_nil] at hlen
    omega

-- ==================================================================== a run

/-- Calls that do no harm, `r` being what is left before the first. After
none of them is the code not stuck, which it would be but for a handshake
of whose alias some is there; none but the last takes everything when
something was left before; and in the end nothing is left. -/
def Benign : DataBuffer → List DataBuffer → Prop
  | r, [] => r = []
  | r, c :: chunks =>
      nextSize (split awaitedSize (r ++ c)).2 = none
        ∧ (r ≠ [] → (split awaitedSize (r ++ c)).2 = [] → chunks = [])
        ∧ Benign (split awaitedSize (r ++ c)).2 chunks

instance Benign.decidable :
    ∀ (r : DataBuffer) (chunks : List DataBuffer),
      Decidable (Benign r chunks)
  | r, [] => inferInstanceAs (Decidable (r = []))
  | r, c :: chunks =>
      @instDecidableAnd _ _ inferInstance
        (@instDecidableAnd _ _ inferInstance
          (Benign.decidable (split awaitedSize (r ++ c)).2 chunks))

/-- A call that leaves the code stuck is one of the awaited framing, but
for what it keeps. -/
theorem handleRawBytes_stuck {r c future : DataBuffer}
    {events : List DataBuffer} (hwf : ∀ e ∈ events, WellFormed e)
    (hcut : r ++ c ++ future = events.flatten)
    (hnone : nextSize (split awaitedSize (r ++ c)).2 = none)
    (handled : List DataBuffer) :
    handleRawBytes ⟨r, handled⟩ c
      = ⟨if (split awaitedSize (r ++ c)).2 ≠ [] ∨ r = [] then
          (split awaitedSize (r ++ c)).2 else r ++ c,
        handled ++ (split awaitedSize (r ++ c)).1⟩ := by
  have hstuck : Stuck nextSize (split awaitedSize (r ++ c)).2 := by
    intro n hn
    rw [hnone] at hn
    cases hn
  rw [handleRawBytes_eq]
  dsimp only
  rw [split_nextSize hwf hcut, Lib.split_stuck hstuck, List.append_nil]

/-- Benign calls handle the stream, each event once and in order. -/
theorem run_of_benign (chunks : List DataBuffer) :
    ∀ {r : DataBuffer} {events : List DataBuffer}
      (handled : List DataBuffer), (∀ e ∈ events, WellFormed e) →
      r ++ chunks.flatten = events.flatten → Benign r chunks →
      (Lib.run handleRawBytes ⟨r, handled⟩ chunks).handled
        = handled ++ events := by
  induction chunks with
  | nil =>
      intro r events handled hwf hcut hr
      rw [show r = [] from hr] at hcut
      rw [eq_nil_of_flatten_eq_nil hwf hcut.symm, List.append_nil]
      rfl
  | cons c chunks ih =>
      intro r events handled hwf hcut hbenign
      obtain ⟨hnone, hlast, hrest⟩ := hbenign
      rw [List.flatten_cons, ← List.append_assoc] at hcut
      rw [Lib.run_cons, handleRawBytes_stuck hwf hcut hnone]
      obtain ⟨events', hevents, hcut'⟩ := framing_awaitedSize.split_cut
        (fun e he => (hwf e he).sized) hcut
      have hwf' : ∀ e ∈ events', WellFormed e :=
        fun e he => hwf e (hevents ▸ List.mem_append_right _ he)
      by_cases hkept : (split awaitedSize (r ++ c)).2 ≠ [] ∨ r = []
      · rw [if_pos hkept, ih _ hwf' hcut' hrest, List.append_assoc,
          ← hevents]
      · have hleft : (split awaitedSize (r ++ c)).2 = [] :=
          Decidable.not_not.mp fun h => hkept (.inl h)
        have hchunks := hlast (fun h => hkept (.inr h)) hleft
        subst hchunks
        rw [hleft, List.flatten_nil, List.append_nil] at hcut'
        rw [eq_nil_of_flatten_eq_nil hwf' hcut'.symm, List.append_nil]
          at hevents
        rw [hevents]
        rfl

/-- When the events are handled as they are, nothing is taken too soon: what
would be is handled, and no event. -/
theorem waits_of_run {r c : DataBuffer}
    {chunks events events' handled : List DataBuffer} (hwf : ∀ e ∈ events, WellFormed e)
    (hcut : r ++ c ++ chunks.flatten = events.flatten)
    (hevents : events = (split awaitedSize (r ++ c)).1 ++ events')
    (hrun : (Lib.run handleRawBytes (handleRawBytes ⟨r, handled⟩ c)
      chunks).handled = handled ++ events) :
    nextSize (split awaitedSize (r ++ c)).2 = none := by
  cases hs : nextSize (split awaitedSize (r ++ c)).2 with
  | none => rfl
  | some n =>
      have hpre := handled_run (handleRawBytes ⟨r, handled⟩ c) chunks
      have htake := Lib.split_take nextSize_pos hs (nextSize_bounds hs).2
      rw [hrun, handleRawBytes_eq] at hpre
      dsimp only at hpre
      rw [split_nextSize hwf hcut, htake, hevents,
        List.prefix_append_right_inj, List.prefix_append_right_inj] at hpre
      have hmem := hpre.subset List.mem_cons_self
      have hstuck := Lib.stuck_split framing_awaitedSize.pos (r ++ c)
      have hevent := hwf _ (hevents ▸ List.mem_append_right _ hmem)
      exact absurd hevent (not_wellFormed_of_stuck hstuck hs)

/-- And calls that do so are benign: each of the three ways to go wrong shows
in what is handled. -/
theorem benign_of_run (chunks : List DataBuffer) :
    ∀ {r : DataBuffer} {events handled : List DataBuffer},
      (∀ e ∈ events, WellFormed e) → (∀ e ∈ handled, WellFormed e) →
      r ++ chunks.flatten = events.flatten →
      (Lib.run handleRawBytes ⟨r, handled⟩ chunks).handled
        = handled ++ events →
      Benign r chunks := by
  induction chunks with
  | nil =>
      intro r events handled hwf _ hcut hrun
      have hnil : events = [] := List.self_eq_append_right.mp hrun
      rw [hnil, List.flatten_nil, List.append_nil] at hcut
      exact hcut
  | cons c chunks ih =>
      intro r events handled hwf hhandled hcut hrun
      rw [List.flatten_cons, ← List.append_assoc] at hcut
      rw [Lib.run_cons] at hrun
      obtain ⟨events', hevents, hcut'⟩ := framing_awaitedSize.split_cut
        (fun e he => (hwf e he).sized) hcut
      have hwf' : ∀ e ∈ events', WellFormed e :=
        fun e he => hwf e (hevents ▸ List.mem_append_right _ he)
      have hhandled' : ∀ e ∈ handled ++ (split awaitedSize (r ++ c)).1,
          WellFormed e := by
        intro e he
        rcases List.mem_append.mp he with he | he
        · exact hhandled e he
        · exact hwf e (hevents ▸ List.mem_append_left _ he)
      have hnone := waits_of_run hwf hcut hevents hrun
      have hcall := handleRawBytes_stuck hwf hcut hnone handled
      rw [hcall, hevents, ← List.append_assoc] at hrun
      have hlost : r ≠ [] → (split awaitedSize (r ++ c)).2 = [] →
          ¬((split awaitedSize (r ++ c)).2 ≠ [] ∨ r = []) := by
        rintro hr hleft (h | h)
        · exact h hleft
        · exact hr h
      have hlast : r ≠ [] → (split awaitedSize (r ++ c)).2 = [] →
          chunks = [] := by
        intro hr hleft
        cases chunks with
        | nil => rfl
        | cons c' chunks =>
            -- with another call, what was taken is handled again
            have hjoin := Lib.split_join framing_awaitedSize.pos (r ++ c)
            rw [hleft, List.append_nil] at hjoin
            have hne : (split awaitedSize (r ++ c)).1 ≠ [] := by
              intro hnil
              rw [hnil, List.flatten_nil] at hjoin
              exact hr (List.append_eq_nil_iff.mp hjoin.symm).1
            have htaken := split_nextSize hwf hcut
            rw [hleft] at htaken
            have hnil : split nextSize ([] : DataBuffer) = ([], []) := rfl
            rw [hnil, List.append_nil] at htaken
            rw [hleft, List.nil_append] at hcut'
            rw [if_neg (hlost hr hleft)] at hrun
            have hrepeat := repeats_not_handled hne
              (fun e he => hwf e (hevents ▸ List.mem_append_left _ he))
              (hjoin.symm ▸ htaken) hwf' hhandled' hcut'
            rw [hjoin] at hrepeat
            exact absurd hrun hrepeat
      refine ⟨hnone, hlast, ?_⟩
      by_cases hkept : (split awaitedSize (r ++ c)).2 ≠ [] ∨ r = []
      · rw [if_pos hkept] at hrun
        exact ih hwf' hhandled' hcut' hrun
      · have hleft : (split awaitedSize (r ++ c)).2 = [] :=
          Decidable.not_not.mp fun h => hkept (.inl h)
        rw [hlast (fun h => hkept (.inr h)) hleft, hleft]
        rfl

/-- The events of a stream are handled, each once and in order, exactly if
the calls are benign. -/
theorem events_handled_iff {events chunks : List DataBuffer}
    (hwf : ∀ e ∈ events, WellFormed e)
    (hcut : chunks.flatten = events.flatten) :
    (Lib.run handleRawBytes init chunks).handled = events
      ↔ Benign [] chunks :=
  ⟨benign_of_run chunks hwf (fun _ he => absurd he List.not_mem_nil) hcut,
    run_of_benign chunks [] hwf hcut⟩

/-- A subscription and a handshake with a version of two bytes and an alias
of fifty, in three calls. -/
theorem events_handled_iff_demo :
    let net : UInt8 → DataBuffer := fun t =>
      [0, 1, t, 0] ++ List.replicate 28 0 ++ [0, 1] ++ List.replicate 16 0
    let subscription := net 7 ++ [0, 1, 1, 0, 0, 0]
    let handshake := net 11 ++ [0, 1, 2, 0, 69, 86, 50, 0]
      ++ List.replicate 50 97
    let chunks := [subscription.take 9, subscription.drop 9
      ++ handshake.take 60, handshake.drop 60]
    (Lib.run handleRawBytes init chunks).handled = [subscription, handshake]
      ↔ Benign [] chunks :=
  events_handled_iff (by decide) (by decide)

/-- A subscription in two calls is handled again with the next one. -/
theorem cut_event_handled_again :
    ¬ ∀ events chunks : List DataBuffer, (∀ e ∈ events, WellFormed e) →
      chunks.flatten = events.flatten → (∀ c ∈ chunks, 1 ≤ c.length) →
      (Lib.run handleRawBytes init chunks).handled = events := by
  intro h
  let subscription : DataBuffer :=
    [0, 1, 7, 0] ++ List.replicate 28 0 ++ [0, 1] ++ List.replicate 16 0
      ++ [0, 1, 1, 0, 0, 0]
  have hagain := h [subscription, subscription]
    [subscription.take 9, subscription.drop 9, subscription]
    (by decide) (by decide) (by decide)
  have hlen := congrArg List.length hagain
  revert hlen
  decide

end ClientSession

end TradingEngine.TS.TPS
