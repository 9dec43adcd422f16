/-
BOE framing in `BOE20Session::handle_raw_bytes`, and what it depends on.

# The fresh case

With nothing dangling the function is the loop of `Lib.split`: it hands on
the complete messages at the front and keeps the rest
(`handleRawBytesWithin_fresh`).

# The dangling case

A call that continues a message does the same, with one exception. When the
message's length field is completed by this very call, the copy of the body
starts at `buf[idx]` but still counts to `len`. If the message ends in the
buffer the count stops in time; if not, the copy runs past the end
(`continueMessage_reads_past_end`). So the stream is handled message by
message exactly if no such call ends inside the message
(`messages_handled_iff`).
-/
import TradingEngine.OE.BOE20Recv

namespace TradingEngine.OE

open Lib (split IsFrame Stuck Receiver receive)

-- ================================================================= messages

namespace BOE20

/-- The length of the message at the front, its sentinel included. -/
def messageSize (bs : Bytes) : Option Nat :=
  if bs.length < prefixSize then none
  else some (messageLength bs + startOfMessageSize)

/-- Once the prefix is there the length is known. -/
theorem messageSize_eq {bs : Bytes} (h : prefixSize ≤ bs.length) :
    messageSize bs = some (messageLength bs + startOfMessageSize) :=
  if_neg (by omega)

/-- So messages frame a stream. -/
theorem framing_messageSize : Lib.Framing messageSize := by
  refine ⟨fun bs n h => ?_, fun bs n h cs => ?_⟩
  · unfold messageSize startOfMessageSize at h
    split at h
    · cases h
    · cases h
      omega
  · unfold messageSize prefixSize at h
    split at h
    case isTrue => cases h
    case isFalse hlen =>
      have hlong : prefixSize ≤ (bs ++ cs).length := by
        unfold prefixSize
        rw [List.length_append]
        omega
      have hread : messageLength (bs ++ cs) = messageLength bs :=
        Lib.le16_append (by unfold startOfMessageSize; omega) cs
      rw [messageSize_eq hlong, hread]
      exact h

/-- A well-formed message: the sentinel, and a length of at least eight
that is the length of the rest. -/
structure WellFormed (m : Bytes) : Prop where
  sentinel : startOfMessage m = startOfMessageSentinel
  length : messageLength m + startOfMessageSize = m.length
  long : 8 ≤ messageLength m

instance (m : Bytes) : Decidable (WellFormed m) :=
  decidable_of_iff (startOfMessage m = startOfMessageSentinel
      ∧ messageLength m + startOfMessageSize = m.length
      ∧ 8 ≤ messageLength m)
    ⟨fun ⟨a, b, c⟩ => ⟨a, b, c⟩, fun ⟨a, b, c⟩ => ⟨a, b, c⟩⟩

/-- A message has at least its header. -/
theorem WellFormed.le_length {m : Bytes} (h : WellFormed m) :
    10 ≤ m.length := by
  have hlong := h.long
  have hlength := h.length
  unfold startOfMessageSize at hlength
  omega

/-- A whole message is one frame. -/
theorem WellFormed.isFrame {m : Bytes} (h : WellFormed m) :
    IsFrame messageSize m := by
  have hlen := h.le_length
  unfold IsFrame
  rw [messageSize_eq (by unfold prefixSize; omega), h.length]

/-- And is told as such whatever follows it. -/
theorem WellFormed.sized {m : Bytes} (h : WellFormed m) :
    Lib.Sized messageSize m :=
  framing_messageSize.sized h.isFrame

/-- What begins with a message begins with the sentinel. -/
theorem WellFormed.sentinel_of_append_eq {m bs cs ds : Bytes}
    (h : WellFormed m) (hlen : 2 ≤ bs.length) (heq : bs ++ cs = m ++ ds) :
    startOfMessage bs = startOfMessageSentinel := by
  have hm := h.le_length
  rw [← h.sentinel]
  exact Lib.le16_of_append_eq (by omega) (by omega) heq

end BOE20

open BOE20

namespace BOE20Recv

/-- A whole message passes the checks and is handled. -/
theorem handleRawMsg_wellFormed {m : Bytes} (h : WellFormed m)
    (s : BOE20Recv) :
    s.handleRawMsg m = .ok { s with handled := s.handled ++ [m] } :=
  if_pos h.sentinel

-- ========================================================= nothing dangling

/-- With nothing dangling, the complete messages are handed on and the rest
is kept. -/
theorem handleRawBytesWithin_fresh (buf : Bytes) :
    ∀ (depth : Nat) (ms : List Bytes) (rest : Bytes)
      (handled : List Bytes), buf.length < depth →
      (∀ m ∈ ms, WellFormed m) → buf ++ rest = ms.flatten →
      handleRawBytesWithin depth ⟨[], handled, false⟩ buf
        = .ok ⟨(split messageSize buf).2,
          handled ++ (split messageSize buf).1, false⟩ := by
  induction buf using Lib.split_induction framing_messageSize.pos with
  | stuck buf hstuck =>
      intro depth ms rest handled hdepth hms hcut
      obtain ⟨depth, rfl⟩ : ∃ k, depth = k + 1 := ⟨depth - 1, by omega⟩
      rw [Lib.split_stuck hstuck]
      dsimp only
      rw [List.append_nil]
      unfold handleRawBytesWithin
      dsimp only [List.length_nil, List.nil_append]
      rw [if_neg (by simp)]
      by_cases hlen : buf.length < prefixSize
      · rw [if_pos hlen]
      · have hsize := messageSize_eq (Nat.le_of_not_lt hlen)
        unfold prefixSize at hlen
        obtain ⟨m, ms', rfl, -, -⟩ := framing_messageSize.stuck_cut
          (fun m hm => (hms m hm).isFrame) hstuck hcut
          (by rintro rfl; exact hlen (by decide))
        have hsentinel : startOfMessage buf = startOfMessageSentinel :=
          (hms m List.mem_cons_self).sentinel_of_append_eq (by omega) hcut
        rw [if_neg (by unfold prefixSize; omega),
          if_neg (not_not_intro hsentinel),
          if_neg (Nat.not_le_of_lt (hstuck _ hsize))]
  | take buf n hs hn ih =>
      intro depth ms rest handled hdepth hms hcut
      obtain ⟨depth, rfl⟩ : ∃ k, depth = k + 1 := ⟨depth - 1, by omega⟩
      have hn0 := framing_messageSize.pos _ _ hs
      obtain ⟨ms', rfl, hcut'⟩ := framing_messageSize.take_cut
        (fun m hm => (hms m hm).sized) hs hn hcut
      have hm := hms _ List.mem_cons_self
      have hm10 := hm.le_length
      rw [List.length_take] at hm10
      have hsize : messageSize buf
          = some (messageLength buf + startOfMessageSize) :=
        messageSize_eq (by unfold prefixSize; omega)
      rw [hs] at hsize
      cases hsize
      rw [Lib.split_take framing_messageSize.pos hs hn]
      unfold handleRawBytesWithin
      dsimp only [List.length_nil]
      rw [if_neg (by simp), if_neg (by unfold prefixSize; omega),
        if_neg (not_not_intro (hm.sentinel_of_append_eq (by omega) hcut)),
        if_pos hn, handleRawMsg_wellFormed hm]
      show (if _ then _ else _) = _
      have hrest := ih depth ms' rest
        (handled ++ [buf.take (messageLength buf + startOfMessageSize)])
        (by rw [List.length_drop]; omega)
        (fun m hm => hms m (List.mem_cons_of_mem _ hm)) hcut'
      rw [List.append_assoc] at hrest
      by_cases hmore : buf.length > messageLength buf + startOfMessageSize
      · rw [if_pos hmore, hrest]
        rfl
      · have hnil : buf.drop (messageLength buf + startOfMessageSize) = [] :=
          List.drop_eq_nil_of_le (by omega)
        rw [if_neg hmore, hnil]
        rfl

-- ===================================================== a message continued

section Continued

variable {again : BOE20Recv → Bytes → Except Fault BOE20Recv}
  {h m buf : Bytes} {idx : Nat} {handled : List Bytes}

/-- The message ends in the buffer: it is handed on. -/
theorem continueMessage_complete (hm : WellFormed m)
    (hsize : messageLength h + startOfMessageSize = m.length)
    (hlt : h.length < m.length) (hidx : idx ≤ buf.length) {ds : Bytes}
    (heq : h ++ buf.drop idx = m ++ ds) :
    continueMessage again ⟨h, handled, false⟩ buf idx
      = if ds ≠ [] then again ⟨[], handled ++ [m], false⟩ ds
        else .ok ⟨[], handled ++ [m], false⟩ := by
  have hlen := congrArg List.length heq
  simp only [List.length_append, List.length_drop] at hlen
  -- what is copied completes the message, and what is left follows it
  have hcopy : h ++ (buf.drop idx).take (m.length - h.length) = m := by
    have htake := congrArg (List.take m.length) heq
    rwa [List.take_append, List.take_of_length_le (by omega), List.take_left]
      at htake
  have hleft : buf.drop (idx + (m.length - h.length)) = ds := by
    have hdrop := congrArg (List.drop m.length) heq
    rwa [List.drop_append, List.drop_of_length_le (by omega), List.drop_left,
      List.nil_append, List.drop_drop] at hdrop
  unfold continueMessage
  dsimp only
  rw [hsize, if_neg (not_not_intro hlt),
    Nat.min_eq_left (by omega : m.length - h.length ≤ buf.length),
    if_neg (by omega), hcopy, if_pos (by omega), List.take_length,
    handleRawMsg_wellFormed hm, hleft]
  show (if _ then _ else _) = _
  rw [if_neg (not_not_intro rfl)]
  by_cases hds : ds = []
  · have hend : ¬idx + (m.length - h.length) < buf.length := by
      rw [hds, List.length_nil] at hlen
      omega
    rw [if_neg hend, if_neg (not_not_intro hds)]
  · have hmore : idx + (m.length - h.length) < buf.length := by
      have hpos := List.length_pos_iff.mpr hds
      omega
    rw [if_pos hmore, if_pos hds]

/-- It does not, and its length was there before: the copy stops at the
end of the buffer. -/
theorem continueMessage_incomplete
    (hsize : messageLength h + startOfMessageSize = m.length)
    (hshort : h.length + buf.length < m.length) :
    continueMessage again ⟨h, handled, false⟩ buf 0
      = .ok ⟨h ++ buf, handled, false⟩ := by
  unfold continueMessage
  dsimp only
  rw [hsize, if_neg (not_not_intro (by omega)),
    Nat.min_eq_right (by omega : buf.length ≤ m.length - h.length),
    if_neg (by omega), if_neg (by omega), List.drop_zero, List.take_length]

/-- It does not, and its length was completed from the buffer: the copy
reads past the end. -/
theorem continueMessage_reads_past_end
    (hsize : messageLength h + startOfMessageSize = m.length)
    (hlt : h.length < m.length) (hidx : 0 < idx) (hin : idx ≤ buf.length)
    (hshort : h.length + (buf.length - idx) < m.length) :
    continueMessage again ⟨h, handled, false⟩ buf idx
      = .error .readPastEnd := by
  unfold continueMessage
  dsimp only
  rw [hsize, if_neg (not_not_intro hlt), if_pos (by omega)]

end Continued

/-- A call that has the length field of a message, from before or now, and
goes on with the message. -/
theorem handleRawBytesWithin_continues {p c rest m ds : Bytes} (hp : p ≠ [])
    (hm : WellFormed m) (heq : p ++ c ++ rest = m ++ ds)
    (hlen : prefixSize ≤ p.length + c.length) (depth : Nat)
    (handled : List Bytes) :
    handleRawBytesWithin (depth + 1) ⟨p, handled, false⟩ c
        = continueMessage (handleRawBytesWithin depth)
            ⟨p ++ c.take (prefixSize - p.length), handled, false⟩ c
            (prefixSize - p.length)
      ∧ messageLength (p ++ c.take (prefixSize - p.length))
          + startOfMessageSize = m.length := by
  have hp0 := List.length_pos_iff.mpr hp
  have hm10 := hm.le_length
  have hidx : (if p.length < prefixSize then prefixSize - p.length else 0)
      = prefixSize - p.length := by
    split <;> omega
  generalize hh : p ++ c.take (prefixSize - p.length) = h
  have hhlen : prefixSize ≤ h.length := by
    rw [← hh, List.length_append, List.length_take]
    omega
  have hheq : h ++ (c.drop (prefixSize - p.length) ++ rest) = m ++ ds := by
    rw [← hh, ← heq, List.append_assoc, ← List.append_assoc (c.take _),
      List.take_append_drop, List.append_assoc]
  unfold prefixSize at hhlen
  constructor
  · have hsentinel := hm.sentinel_of_append_eq (by omega) hheq
    unfold handleRawBytesWithin
    dsimp only
    rw [if_pos (by omega), hidx, hh, if_neg (by omega),
      if_neg (not_not_intro hsentinel)]
  · rw [← hm.length]
    have hread : messageLength h = messageLength m :=
      Lib.le16_of_append_eq (by unfold startOfMessageSize; omega)
        (by unfold startOfMessageSize; omega) hheq
    rw [hread]

-- =================================================================== a call

/-- A call that completes the length field of a message which an earlier
one began completes the message too. -/
def LengthWithBody (r : Receiver UInt8) (c : Bytes) : Prop :=
  r.pending = [] ∨ prefixSize ≤ r.pending.length
    ∨ r.pending.length + c.length < prefixSize
    ∨ (split messageSize (r.pending ++ c)).1 ≠ []

instance (r : Receiver UInt8) (c : Bytes) : Decidable (LengthWithBody r c) :=
  inferInstanceAs (Decidable (_ ∨ _ ∨ _ ∨ _))

section Call

variable {p c rest : Bytes} {ms : List Bytes}

/-- A call that gets too little to see the message's length. -/
theorem handleRawBytes_short (hp : p ≠ [])
    (hlen : p.length + c.length < prefixSize) (handled : List Bytes) :
    handleRawBytes ⟨p, handled, false⟩ c = .ok ⟨p ++ c, handled, false⟩ := by
  have hp0 := List.length_pos_iff.mpr hp
  unfold handleRawBytes handleRawBytesWithin
  dsimp only
  rw [if_pos (by omega), if_pos (by omega : p.length < prefixSize),
    if_pos (by omega), List.take_of_length_le (by omega)]

/-- A call that completes the message it continues. -/
theorem handleRawBytes_complete (hms : ∀ m ∈ ms, WellFormed m)
    (hp : p ≠ []) (hstuck : Stuck messageSize p)
    (hcut : p ++ c ++ rest = ms.flatten) {n : Nat}
    (hs : messageSize (p ++ c) = some n) (hn : n ≤ (p ++ c).length)
    (handled : List Bytes) :
    handleRawBytes ⟨p, handled, false⟩ c
      = .ok ⟨(split messageSize (p ++ c)).2,
        handled ++ (split messageSize (p ++ c)).1, false⟩ := by
  obtain ⟨ms', rfl, hcut'⟩ := framing_messageSize.take_cut
    (fun m hm => (hms m hm).sized) hs hn hcut
  have hm := hms _ List.mem_cons_self
  have hm10 := hm.le_length
  have hheq : p ++ c ++ [] = (p ++ c).take n ++ (p ++ c).drop n := by
    rw [List.append_nil, List.take_append_drop]
  have hmlen : ((p ++ c).take n).length = n := List.length_take_of_le hn
  have hlen : (p ++ c).length = p.length + c.length := List.length_append
  have hpn : p.length < n := by
    obtain ⟨m, ms'', hms'', hlt, -⟩ := framing_messageSize.stuck_cut
      (fun m hm => (hms m hm).isFrame) hstuck
      (List.append_assoc p c rest ▸ hcut) hp
    cases hms''
    omega
  obtain ⟨hcall, hsize⟩ := handleRawBytesWithin_continues hp hm hheq
    (by unfold prefixSize; omega) c.length handled
  rw [Lib.split_take framing_messageSize.pos hs hn]
  dsimp only
  have hheader : (p ++ c.take (prefixSize - p.length)).length
      < ((p ++ c).take n).length := by
    rw [List.length_append, List.length_take, hmlen]
    unfold prefixSize
    omega
  have hcontinued : p ++ c.take (prefixSize - p.length)
      ++ c.drop (prefixSize - p.length)
        = (p ++ c).take n ++ (p ++ c).drop n := by
    rw [List.append_assoc, List.take_append_drop, List.take_append_drop]
  unfold handleRawBytes
  rw [hcall, continueMessage_complete hm hsize hheader
    (by unfold prefixSize; omega) hcontinued]
  by_cases hds : (p ++ c).drop n = []
  · rw [if_neg (not_not_intro hds), hds]
    rfl
  · have hfresh := handleRawBytesWithin_fresh ((p ++ c).drop n) c.length ms'
      rest (handled ++ [(p ++ c).take n])
      (by rw [List.length_drop]; omega)
      (fun m hm => hms m (List.mem_cons_of_mem _ hm)) hcut'
    rw [if_pos hds, hfresh, List.append_assoc]
    rfl

/-- A call that does not complete the message it continues, whose length
it got to see. -/
theorem handleRawBytes_incomplete (hms : ∀ m ∈ ms, WellFormed m)
    (hp : p ≠ []) (hcut : p ++ c ++ rest = ms.flatten)
    (hstuck : Stuck messageSize (p ++ c))
    (hlen : prefixSize ≤ p.length + c.length) (handled : List Bytes) :
    handleRawBytes ⟨p, handled, false⟩ c
      = if prefixSize ≤ p.length then .ok ⟨p ++ c, handled, false⟩
        else .error .readPastEnd := by
  obtain ⟨m, ms', rfl, hshort, -⟩ := framing_messageSize.stuck_cut
    (fun m hm => (hms m hm).isFrame) hstuck hcut (by simp [hp])
  rw [List.flatten_cons] at hcut
  obtain ⟨hcall, hsize⟩ := handleRawBytesWithin_continues hp
    (hms m List.mem_cons_self) hcut hlen c.length handled
  rw [List.length_append] at hshort
  unfold handleRawBytes
  rw [hcall]
  by_cases hknown : prefixSize ≤ p.length
  · have hidx : prefixSize - p.length = 0 := Nat.sub_eq_zero_of_le hknown
    rw [hidx, List.take_zero, List.append_nil] at hsize ⊢
    rw [if_pos hknown]
    exact continueMessage_incomplete hsize hshort
  · have hheader : (p ++ c.take (prefixSize - p.length)).length
        = prefixSize := by
      rw [List.length_append, List.length_take]
      omega
    rw [if_neg hknown]
    exact continueMessage_reads_past_end hsize (by omega) (by omega)
      (by omega) (by omega)

/-- What a call does to a stream of messages. -/
theorem handleRawBytes_spec (hms : ∀ m ∈ ms, WellFormed m)
    (hstuck : Stuck messageSize p) (hcut : p ++ c ++ rest = ms.flatten)
    (handled frames : List Bytes) :
    handleRawBytes ⟨p, handled, false⟩ c
      = if LengthWithBody ⟨p, frames⟩ c then
          .ok ⟨(split messageSize (p ++ c)).2,
            handled ++ (split messageSize (p ++ c)).1, false⟩
        else .error .readPastEnd := by
  by_cases hp : p = []
  · subst hp
    rw [if_pos (.inl rfl)]
    exact handleRawBytesWithin_fresh c _ ms rest handled
      (Nat.lt_succ_self _) hms hcut
  by_cases hlen : p.length + c.length < prefixSize
  · have hnone : Stuck messageSize (p ++ c) := by
      intro n hn
      unfold messageSize at hn
      rw [List.length_append, if_pos hlen] at hn
      cases hn
    rw [if_pos (.inr (.inr (.inl hlen))), Lib.split_stuck hnone]
    dsimp only
    rw [List.append_nil]
    exact handleRawBytes_short hp hlen handled
  rcases Lib.stuck_or_take messageSize (p ++ c) with hnone | ⟨n, hs, hn⟩
  · rw [handleRawBytes_incomplete hms hp hcut hnone (by omega) handled]
    have hcond : LengthWithBody ⟨p, frames⟩ c ↔ prefixSize ≤ p.length := by
      unfold LengthWithBody
      dsimp only
      rw [Lib.split_stuck hnone]
      constructor
      · rintro (h | h | h | h)
        · exact absurd h hp
        · exact h
        · exact absurd h hlen
        · exact absurd rfl h
      · exact fun h => .inr (.inl h)
    rw [Lib.split_stuck hnone]
    dsimp only
    rw [List.append_nil]
    exact if_congr hcond.symm rfl rfl
  · have htaken : (split messageSize (p ++ c)).1 ≠ [] := by
      rw [Lib.split_take framing_messageSize.pos hs hn]
      exact List.cons_ne_nil _ _
    rw [if_pos (.inr (.inr (.inr htaken)))]
    exact handleRawBytes_complete hms hp hstuck hcut hs hn handled

end Call

-- ==================================================================== a run

/-- The calls go well exactly if no read past the end is made on the way,
whatever was pending and handled before. -/
theorem run_handleRawBytes_iff (chunks : List Bytes) :
    ∀ {p : Bytes} {ms : List Bytes} (handled frames : List Bytes),
      (∀ m ∈ ms, WellFormed m) → Stuck messageSize p →
      p ++ chunks.flatten = ms.flatten →
      ((∃ s, chunks.foldlM handleRawBytes ⟨p, handled, false⟩ = .ok s
          ∧ s.handled = handled ++ ms ∧ s.disconnected = false)
        ↔ Lib.Admits (receive messageSize) LengthWithBody ⟨p, frames⟩
            chunks) := by
  induction chunks with
  | nil =>
      intro p ms handled frames hms hstuck hcut
      rw [List.flatten_nil, List.append_nil] at hcut
      have hsplit := framing_messageSize.split_flatten
        fun m hm => (hms m hm).isFrame
      rw [← hcut, Lib.split_stuck hstuck, Prod.mk.injEq] at hsplit
      obtain ⟨rfl, -⟩ := hsplit
      exact ⟨fun _ => True.intro,
        fun _ => ⟨_, rfl, (List.append_nil _).symm, rfl⟩⟩
  | cons c chunks ih =>
      intro p ms handled frames hms hstuck hcut
      rw [List.flatten_cons, ← List.append_assoc] at hcut
      have hcall := handleRawBytes_spec hms hstuck hcut handled frames
      rw [List.foldlM_cons, hcall]
      by_cases hcond : LengthWithBody ⟨p, frames⟩ c
      · rw [if_pos hcond]
        obtain ⟨ms', hms', hcut'⟩ := framing_messageSize.split_cut
          (fun m hm => (hms m hm).sized) hcut
        have hnext := ih (handled ++ (split messageSize (p ++ c)).1)
          (frames ++ (split messageSize (p ++ c)).1)
          (fun m hm => hms m (hms' ▸ List.mem_append_right _ hm))
          (Lib.stuck_split framing_messageSize.pos _) hcut'
        rw [List.append_assoc, ← hms'] at hnext
        exact hnext.trans (and_iff_right hcond).symm
      · rw [if_neg hcond]
        constructor
        · rintro ⟨s, hs, -⟩
          cases hs
        · exact fun h => absurd h.1 hcond

/-- The messages of a stream are handled, each once and in order, with no
fault and no disconnect, exactly if every call that completes a message's
length field begun by an earlier call completes the message too. -/
theorem messages_handled_iff {ms chunks : List Bytes}
    (hms : ∀ m ∈ ms, WellFormed m) (hcut : chunks.flatten = ms.flatten) :
    (∃ s, chunks.foldlM handleRawBytes init = .ok s
      ∧ s.handled = ms ∧ s.disconnected = false)
    ↔ Lib.Admits (receive messageSize) LengthWithBody .init chunks :=
  run_handleRawBytes_iff chunks [] [] hms
    (fun _ hn => framing_messageSize.pos _ _ hn) hcut

/-- A message in three calls, the first of which has its length field,
then one in two, the second of which has the whole body. -/
theorem messages_handled_iff_demo :
    let ms : List Bytes := [[186, 186, 8, 0, 9, 0, 0, 0, 0, 0],
      [186, 186, 9, 0, 9, 0, 0, 0, 0, 0, 7]]
    let chunks : List Bytes := [[186, 186, 8, 0], [9, 0, 0],
      [0, 0, 0, 186, 186, 9], [0, 9, 0, 0, 0, 0, 0, 7]]
    (∃ s, chunks.foldlM handleRawBytes init = .ok s
      ∧ s.handled = ms ∧ s.disconnected = false)
    ↔ Lib.Admits (receive messageSize) LengthWithBody .init chunks :=
  messages_handled_iff (by decide) (by decide)

/-- A message in three calls, cut after two bytes and after six: the second
call reads past its end. -/
theorem cut_length_reads_past_end :
    ¬ ∀ ms chunks : List Bytes, (∀ m ∈ ms, WellFormed m) →
      chunks.flatten = ms.flatten → (∀ c ∈ chunks, 1 ≤ c.length) →
      ∃ s, chunks.foldlM handleRawBytes init = .ok s
        ∧ s.handled = ms ∧ s.disconnected = false := by
  intro h
  obtain ⟨s, hs, -⟩ := h [[186, 186, 8, 0, 9, 0, 0, 0, 0, 0]]
    [[186, 186], [8, 0, 9, 0], [0, 0, 0, 0]] (by decide) (by decide)
    (by decide)
  have hfault : [[186, 186], [8, 0, 9, 0], [0, 0, 0, 0]].foldlM
      handleRawBytes init = .error .readPastEnd := by decide
  rw [hfault] at hs
  cases hs

end BOE20Recv

end TradingEngine.OE
