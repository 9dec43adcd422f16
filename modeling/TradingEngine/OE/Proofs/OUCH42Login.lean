/-
The sequence number of a login, as text: what `on_connected` writes is
what the loop over a `LoginAccept` reads.

The loop accumulates in 64 bits. It agrees with the value of the text on
`Nat` (`sequenceValue`) as long as that value fits, which the text of a
64-bit number does on the way there too: the value of a beginning is never
above that of the whole (`le_valueFrom`).

# The field

`copy_to_array` goes over the array backwards and takes the string from its
end, so a number that is shorter than the field has spaces before it
(`mirrored`). The parser skips spaces wherever they are and takes digits one
by one; it leaves the session inactive at the first byte that is neither.

# Logging in

That a session is not active in the state `UNKNOWN` is an invariant of all
its events (`InactiveUnknown`). It is what makes the second half of the round
trip a statement about any session: one that refuses a `LoginAccept` is not
logged in afterwards, since it was not before.
-/
import TradingEngine.OE.Proofs.OUCH42Session

namespace TradingEngine.OE

namespace SoupBinTCP30

-- ================================================================ the field

/-- What the mirrored loop puts at a place of the array. -/
def mirrored (width : Nat) (str : Bytes) (padding : UInt8) (j : Nat) :
    UInt8 :=
  if width - 1 - j < str.length then
    str.getD (str.length - (width - 1 - j) - 1) padding
  else padding

/-- The array after the first turns of the loop: its end is filled. -/
theorem getElem?_copyTurns (arr str : Bytes) (padding : UInt8) {k : Nat}
    (hk : k ≤ arr.length) (j : Nat) :
    ((List.range k).foldl (copyTurn arr.length str padding) arr)[j]?
      = if arr.length - k ≤ j ∧ j < arr.length then
          some (mirrored arr.length str padding j)
        else arr[j]? := by
  induction k generalizing j with
  | zero => rw [if_neg (by omega)]; rfl
  | succ k ih =>
      have hturn := ih (by omega)
      have hlength : arr.length - k - 1 < ((List.range k).foldl
          (copyTurn arr.length str padding) arr).length := by
        refine (List.getElem?_eq_some_iff.mp (?_ : _ = some
          (arr.get ⟨arr.length - k - 1, by omega⟩))).1
        rw [hturn, if_neg (by omega)]
        exact List.getElem?_eq_getElem (by omega)
      rw [List.range_succ, List.foldl_append, List.foldl_cons,
        List.foldl_nil, copyTurn, List.getElem?_set]
      by_cases hat : arr.length - k - 1 = j
      · have hplace : arr.length - 1 - j = k := by omega
        have hin : arr.length - (k + 1) ≤ j ∧ j < arr.length := by omega
        rw [if_pos hat, if_pos hlength, if_pos hin]
        unfold mirrored
        rw [hplace]
      · rw [if_neg hat, hturn]
        by_cases hin : arr.length - k ≤ j ∧ j < arr.length
        · rw [if_pos hin, if_pos (by omega)]
        · rw [if_neg hin, if_neg (by omega)]

/-- A field is as wide as its array. -/
theorem length_copyToArray (width : Nat) (str : Bytes) (padding : UInt8) :
    (copyToArray width str padding).length = width := by
  unfold copyToArray
  rw [List.length_append, List.length_replicate, List.length_drop]
  omega

/-- Byte by byte. -/
theorem getElem?_copyToArray {width j : Nat} (hj : j < width)
    (str : Bytes) (padding : UInt8) :
    (copyToArray width str padding)[j]?
      = some (mirrored width str padding j) := by
  unfold copyToArray mirrored
  by_cases hpad : j < width - str.length
  · rw [List.getElem?_append_left (by rwa [List.length_replicate]),
      List.getElem?_replicate, if_pos hpad, if_neg (by omega)]
  · have hplace : str.length - (width - 1 - j) - 1
        = str.length - width + (j - (width - str.length)) := by omega
    rw [List.getElem?_append_right (by rw [List.length_replicate]; omega),
      List.length_replicate, List.getElem?_drop, if_pos (by omega), hplace,
      List.getD_eq_getElem?_getD, List.getElem?_eq_getElem (by omega)]
    rfl

/-- The loop right-aligns, whatever was in the array. -/
theorem copyIntoArray_eq (arr str : Bytes) (padding : UInt8) :
    copyIntoArray arr str padding
      = copyToArray arr.length str padding := by
  refine List.ext_getElem? fun j => ?_
  unfold copyIntoArray
  rw [getElem?_copyTurns arr str padding le_rfl]
  by_cases hj : j < arr.length
  · rw [getElem?_copyToArray hj, if_pos (by omega)]
  · rw [if_neg (by omega), List.getElem?_eq_none (by omega),
      List.getElem?_eq_none (by rw [length_copyToArray]; omega)]

-- ================================================================ its value

/-- A byte that the loop over the field takes. -/
def IsText (b : UInt8) : Prop := b = space ∨ 48 ≤ b ∧ b ≤ 57

instance (b : UInt8) : Decidable (IsText b) :=
  inferInstanceAs (Decidable (_ ∨ _))

/-- The number that digits stand for after those of `value`, with spaces
skipped. -/
def valueFrom (value : Nat) : Bytes → Nat
  | [] => value
  | b :: bs =>
      if b = space then valueFrom value bs
      else valueFrom (value * 10 + (b.toNat - 48)) bs

/-- The number that a field of digits and spaces stands for. -/
def sequenceValue (field : Bytes) : Nat := valueFrom 0 field

/-- A number only grows with its digits. -/
theorem le_valueFrom (value : Nat) (bs : Bytes) :
    value ≤ valueFrom value bs := by
  induction bs generalizing value with
  | nil => exact le_rfl
  | cons b bs ih =>
      rw [valueFrom]
      split
      · exact ih value
      · have hrest := ih (value * 10 + (b.toNat - 48))
        omega

/-- Digits in two pieces. -/
theorem valueFrom_append (value : Nat) (bs cs : Bytes) :
    valueFrom value (bs ++ cs) = valueFrom (valueFrom value bs) cs := by
  induction bs generalizing value with
  | nil => rfl
  | cons b bs ih =>
      rw [List.cons_append, valueFrom, valueFrom]
      split
      · exact ih value
      · exact ih _

/-- Spaces say nothing. -/
theorem valueFrom_spaces (value n : Nat) :
    valueFrom value (List.replicate n space) = value := by
  induction n with
  | zero => rfl
  | succ n ih => rw [List.replicate_succ, valueFrom, if_pos rfl, ih]

/-- The loop fails at a byte that is neither, wherever it stands. -/
theorem parseSequenceNumber_eq_none (seqnum : UInt64) (bs : Bytes) :
    parseSequenceNumber seqnum bs = none ↔ ∃ b ∈ bs, ¬IsText b := by
  induction bs generalizing seqnum with
  | nil => exact iff_of_false (by rintro ⟨⟩) (by rintro ⟨b, ⟨⟩, -⟩)
  | cons b bs ih =>
      rw [parseSequenceNumber, List.exists_mem_cons_iff]
      unfold IsText
      split
      case isTrue hspace =>
        rw [ih]
        exact (or_iff_right fun h => h (.inl hspace)).symm
      case isFalse hspace =>
        split
        case isTrue hdigit =>
          rw [ih]
          exact (or_iff_right fun h => h (.inr hdigit)).symm
        case isFalse hdigit =>
          exact iff_of_true rfl (.inl fun h => h.elim hspace hdigit)

/-- The loop reads the value of the text, where 64 bits hold it. -/
theorem parseSequenceNumber_eq_some {bs : Bytes} {seqnum : UInt64}
    (htext : ∀ b ∈ bs, IsText b)
    (hfits : valueFrom seqnum.toNat bs < 18446744073709551616) :
    ∃ v, parseSequenceNumber seqnum bs = some v
      ∧ v.toNat = valueFrom seqnum.toNat bs := by
  induction bs generalizing seqnum with
  | nil => exact ⟨seqnum, rfl, rfl⟩
  | cons b bs ih =>
      have hrest : ∀ b ∈ bs, IsText b :=
        fun b' h => htext b' (List.mem_cons_of_mem b h)
      rw [valueFrom] at hfits ⊢
      rw [parseSequenceNumber]
      by_cases hspace : b = space
      · rw [if_pos hspace] at hfits ⊢
        rw [if_pos hspace]
        exact ih hrest hfits
      · have hdigit : 48 ≤ b ∧ b ≤ 57 :=
          (htext b List.mem_cons_self).resolve_left hspace
        rw [if_neg hspace] at hfits ⊢
        rw [if_neg hspace, if_pos hdigit]
        -- the next value is below that of the whole, so nothing wraps
        have hnext := le_valueFrom (seqnum.toNat * 10 + (b.toNat - 48)) bs
        have hval : (seqnum * 10 + (b - 48).toUInt64).toNat
            = seqnum.toNat * 10 + (b.toNat - 48) := by
          have hsub : (b - 48).toNat = b.toNat - 48 :=
            UInt8.toNat_sub_of_le _ _ hdigit.1
          have hten : (10 : UInt64).toNat = 10 := rfl
          rw [UInt64.toNat_add, UInt64.toNat_mul, UInt8.toNat_toUInt64, hsub,
            hten]
          omega
        rw [← hval] at hfits ⊢
        exact ih hrest hfits

-- ============================================================ the round trip

/-- Digits are ASCII. -/
theorem toUInt8_of_isDigit {c : Char} (h : c.isDigit = true) :
    c.toNat.toUInt8.toNat = c.toNat ∧ 48 ≤ c.toNat ∧ c.toNat ≤ 57 := by
  rw [Char.isDigit, Bool.and_eq_true, decide_eq_true_iff,
    decide_eq_true_iff] at h
  have hlow : 48 ≤ c.toNat := UInt32.le_iff_toNat_le.mp h.1
  have hhigh : c.toNat ≤ 57 := UInt32.le_iff_toNat_le.mp h.2
  refine ⟨?_, hlow, hhigh⟩
  exact UInt8.toNat_ofNat_of_lt' (Nat.lt_of_le_of_lt hhigh (by decide))

/-- A digit is a digit in bytes, and no space. -/
theorem isText_of_isDigit {c : Char} (h : c.isDigit = true) :
    IsText c.toNat.toUInt8 ∧ c.toNat.toUInt8 ≠ space := by
  obtain ⟨hval, hlow, hhigh⟩ := toUInt8_of_isDigit h
  refine ⟨.inr ⟨?_, ?_⟩, fun hspace => ?_⟩
  · rw [UInt8.le_iff_toNat_le, hval]
    exact hlow
  · rw [UInt8.le_iff_toNat_le, hval]
    exact hhigh
  · rw [hspace] at hval
    have hthirty : space.toNat = 32 := rfl
    omega

/-- The text of digits stands for the number of the digits. -/
theorem valueFrom_digits (value : Nat) {cs : List Char}
    (h : ∀ c ∈ cs, c.isDigit = true) :
    valueFrom value (cs.map fun c => c.toNat.toUInt8)
      = Nat.ofDigitChars 10 cs value := by
  induction cs generalizing value with
  | nil => exact Nat.ofDigitChars_nil.symm
  | cons c cs ih =>
      have hc := h c List.mem_cons_self
      have hrest : ∀ c ∈ cs, c.isDigit = true :=
        fun c' hc' => h c' (List.mem_cons_of_mem c hc')
      rw [List.map_cons, valueFrom, if_neg (isText_of_isDigit hc).2,
        (toUInt8_of_isDigit hc).1, ih _ hrest, Nat.ofDigitChars_cons,
        Nat.mul_comm]
      rfl

/-- A number is written in digits. -/
theorem isDigit_toDigits (n : UInt64) :
    ∀ c ∈ Nat.toDigits 10 n.toNat, c.isDigit = true :=
  fun _ hc => Nat.isDigit_of_mem_toDigits (by decide) (by decide) hc

/-- Its digits say the number. -/
theorem valueFrom_toBytes (n : UInt64) :
    valueFrom 0 (toBytes n) = n.toNat :=
  (valueFrom_digits 0 (isDigit_toDigits n)).trans
    Nat.ofDigitChars_ten_toDigits

/-- Twenty places are enough for 64 bits. -/
theorem length_toBytes_le (n : UInt64) : (toBytes n).length ≤ 20 := by
  have hn := n.toNat_lt
  unfold toBytes
  rw [List.length_map, Nat.length_toDigits_le_iff (by decide) (by decide)]
  omega

/-- The field of a login request: the text after spaces. -/
theorem copyToArray_toBytes (n : UInt64) :
    copyToArray 20 (toBytes n) space
      = List.replicate (20 - (toBytes n).length) space ++ toBytes n := by
  have hlength := length_toBytes_le n
  unfold copyToArray
  rw [Nat.sub_eq_zero_of_le hlength, List.drop_zero]

/-- The field holds digits and spaces only. -/
theorem isText_copyToArray (n : UInt64) :
    ∀ b ∈ copyToArray 20 (toBytes n) space, IsText b := by
  intro b hb
  rw [copyToArray_toBytes] at hb
  rcases List.mem_append.mp hb with hspace | hdigit
  · exact .inl (List.eq_of_mem_replicate hspace)
  · obtain ⟨c, hc, rfl⟩ := List.mem_map.mp hdigit
    exact (isText_of_isDigit (isDigit_toDigits n c hc)).1

/-- Its value is the number that was put in. -/
theorem sequenceValue_copyToArray (n : UInt64) :
    sequenceValue (copyToArray 20 (toBytes n) space) = n.toNat := by
  unfold sequenceValue
  rw [copyToArray_toBytes, valueFrom_append, valueFrom_spaces,
    valueFrom_toBytes]

/-- At no place of the field has the accumulator wrapped. -/
theorem parseSequenceNumber_take (n : UInt64) (k : Nat) :
    ∃ v, parseSequenceNumber 0
        ((copyToArray 20 (toBytes n) space).take k) = some v
      ∧ v.toNat
        = sequenceValue ((copyToArray 20 (toBytes n) space).take k) := by
  have hn := n.toNat_lt
  have hwhole := sequenceValue_copyToArray n
  refine parseSequenceNumber_eq_some
    (fun b hb => isText_copyToArray n b (List.mem_of_mem_take hb)) ?_
  rw [← List.take_append_drop k (copyToArray 20 (toBytes n) space)] at hwhole
  unfold sequenceValue at hwhole
  rw [valueFrom_append] at hwhole
  have hle := le_valueFrom
    (valueFrom 0 ((copyToArray 20 (toBytes n) space).take k))
    ((copyToArray 20 (toBytes n) space).drop k)
  have hzero : (0 : UInt64).toNat = 0 := rfl
  rw [hzero]
  omega

/-- And the parser reads it. -/
theorem parseSequenceNumber_copyToArray (n : UInt64) :
    parseSequenceNumber 0 (copyToArray 20 (toBytes n) space) = some n := by
  obtain ⟨v, hparse, hv⟩ := parseSequenceNumber_take n 20
  rw [List.take_of_length_le (length_copyToArray _ _ _).le] at hparse hv
  rw [sequenceValue_copyToArray] at hv
  rw [hparse, UInt64.toNat_inj.mp hv]

end SoupBinTCP30

-- ================================================================== a login

open SoupBinTCP30

namespace OUCH42Session

/-- Nothing activates a session before it has a state. -/
def InactiveUnknown (s : OUCH42Session) : Prop :=
  s.sessionState = .unknown → s.active = false

/-- Sending does not change the state. -/
theorem sessionState_sendOrderData (s : OUCH42Session)
    (msg : UpstreamPacket) (io : Sending) :
    (s.sendOrderData msg io).2.sessionState = s.sessionState := by
  unfold sendOrderData
  dsimp only
  split <;> rfl

/-- The invariant: in `UNKNOWN` the session is not active. -/
theorem step_inactiveUnknown (s : OUCH42Session) (e : Event)
    (h : s.InactiveUnknown) : (s.step e).InactiveUnknown := by
  intro hunknown
  cases e with
  | connect => cases hunknown
  | onConnected io =>
      by_cases hu : s.sessionState = .unknown
      · exact (congrArg active (onConnected_unknown hu io)).trans (h hu)
      · obtain ⟨-, hstate, -⟩ := onConnected_sends hu io
        have hkeeps := hstate.symm.trans hunknown
        split at hkeeps
        · cases hkeeps
        · exact absurd hkeeps hu
  | loginAccept ts session sequenceNumber =>
      by_cases hu : s.sessionState = .unknown
      · exact (congrArg active (handleLoginAccept_unknown
          (s := s.onRecv ts) hu session sequenceNumber)).trans (h hu)
      · obtain ⟨-, hrest⟩ := handleLoginAccept_known (s := s.onRecv ts) hu
          session sequenceNumber
        split at hrest
        · exact hrest.1
        · have hkeeps := hrest.2.symm.trans hunknown
          split at hkeeps
          · cases hkeeps
          · exact absurd hkeeps hu
  | loginReject ts => rfl
  | endOfSession ts => exact active_disconnect _ false
  | disconnect force => exact active_disconnect s force
  | onPeerDisconnect => rfl
  | onLocalDisconnect => rfl
  | onTimer ts io =>
      rcases s.onTimer_cases ts io with hsame | ⟨-, hout⟩ | ⟨hin, hbeat⟩
      · have hstep : s.step (.onTimer ts io) = s := hsame
        rw [hstep] at hunknown ⊢
        exact h hunknown
      · have hstep : s.step (.onTimer ts io) = s.reconnect := hout
        rw [hstep] at hunknown
        unfold reconnect at hunknown
        split at hunknown <;> cases hunknown
      · have hstep : s.step (.onTimer ts io) = s.heartbeat io := hbeat
        rw [hstep] at hunknown
        unfold heartbeat at hunknown
        split at hunknown
        · cases hunknown
        · rw [sessionState_sendOrderData, hin] at hunknown
          cases hunknown

/-- A field with anything but digits and spaces leaves the session
inactive, and not logged in. -/
theorem handleLoginAccept_of_not_isText {s : OUCH42Session}
    (hs : s.InactiveUnknown) (session : Bytes) {field : Bytes}
    (hbad : ∃ b ∈ field, ¬IsText b) :
    (s.handleLoginAccept session field).active = false
      ∧ (s.handleLoginAccept session field).loggedIn = false := by
  have hnone := (parseSequenceNumber_eq_none 0 field).mpr hbad
  unfold loggedIn
  by_cases hu : s.sessionState = .unknown
  · rw [handleLoginAccept_unknown hu, hu]
    exact ⟨hs hu, rfl⟩
  · obtain ⟨-, hrest⟩ := handleLoginAccept_known hu session field
    rw [if_pos hnone] at hrest
    rw [hrest.2]
    exact ⟨hrest.1, rfl⟩

/-- The field of a login request reads as the number it was written for,
and no digit of it is lost; a `LoginAccept` with anything else in the field
does not log in, whatever the session did before. -/
theorem sequence_number_round_trip :
    (∀ (n : UInt64) (arr : Bytes), arr.length = 20 →
      parseSequenceNumber 0 (copyIntoArray arr (toBytes n) space) = some n
      ∧ ∀ k, ∃ v, parseSequenceNumber 0
            ((copyIntoArray arr (toBytes n) space).take k) = some v
          ∧ v.toNat = sequenceValue
            ((copyIntoArray arr (toBytes n) space).take k))
    ∧ (∀ (s : OUCH42Session) (arr : Bytes), arr.length = 20 →
      s.loginRequest.requestedSequenceNumber
        = copyIntoArray arr (toBytes (s.lastSeqnumReceived + 1)) space)
    ∧ ∀ (username password reqSession : Bytes)
        (heartbeatGraceSec lastSeqnumReceived : UInt64) (session : Bytes)
        (es : List Event) (session' field : Bytes), field.length = 20 →
      (∃ b ∈ field, ¬(b = space ∨ 48 ≤ b ∧ b ≤ 57)) →
      let s := (Lib.run step (init username password reqSession
        heartbeatGraceSec lastSeqnumReceived session) es).handleLoginAccept
          session' field
      s.active = false ∧ s.loggedIn = false := by
  refine ⟨fun n arr harr => ?_, fun s arr harr => ?_, ?_⟩
  · rw [copyIntoArray_eq, harr]
    exact ⟨parseSequenceNumber_copyToArray n, parseSequenceNumber_take n⟩
  · rw [copyIntoArray_eq, harr]
    rfl
  · intro username password reqSession heartbeatGraceSec lastSeqnumReceived
      session es session' field _ hbad
    refine handleLoginAccept_of_not_isText ?_ session' hbad
    exact Lib.run_induction step_inactiveUnknown fun _ => rfl

/-- For the largest number, over an array of zeros, and for a field of
question marks in a session that connected. -/
theorem sequence_number_round_trip_max :
    parseSequenceNumber 0 (copyIntoArray (List.replicate 20 0)
        (toBytes 18446744073709551615) space)
      = some 18446744073709551615
    ∧ ((Lib.run step (init [] [] [] 10 0 [])
        [.connect, .onConnected ⟨true, 0⟩]).handleLoginAccept []
          (List.replicate 20 63)).active = false :=
  ⟨(sequence_number_round_trip.1 _ _ rfl).1,
    (sequence_number_round_trip.2.2 [] [] [] 10 0 []
      [.connect, .onConnected ⟨true, 0⟩] [] (List.replicate 20 63) rfl
      ⟨63, List.mem_cons_self, by decide⟩).1⟩

end OUCH42Session

end TradingEngine.OE
