/-
What of a packet an OUCH session reads.

Most messages pass a check against their own struct before anything but
their header is read (`fieldsRead_within`). Three do not. `Replaced` is
checked against the size of `Rejected`, and then its last token but one
field is read; a system event is checked against the header it has in
front of its code; and an `Accepted` for an order the session does not
know goes to `create_replay_order` before its size is looked at.

# How it is proved

The fields that a handler reads are listed with the message, at their
offsets, and each of the statements is about the furthest of them. For most
messages that is the end of their struct, and the check against the struct is
the comparison that was asked for. For the three others the condition is
worked out from what is compared and what is read.

# With the decoded messages

`handleSequencedData_eq` joins this to the handlers of the orders: a packet
that is long enough is handled as the message that its bytes stand for.
-/
import TradingEngine.OE.OUCH42Wire
import TradingEngine.OE.Proofs.OUCH42Exposure

namespace TradingEngine.OE

open Lib SoupBinTCP30 OUCH42

variable {ι : Type}

-- ============================================================== statements

/-- Every field that was read is one of the packet's. -/
def SequencedHandled.Within (h : SequencedHandled ι) (len : Nat) : Prop :=
  ∀ e ∈ h.reads, (e.shift packetHeaderSize).Within len

instance (h : SequencedHandled ι) (len : Nat) : Decidable (h.Within len) :=
  inferInstanceAs (Decidable (∀ _ ∈ h.reads, _))

namespace OUCH42Orders

variable (s : OUCH42Orders ι) (localIDOf : Bytes → Nat)

/-- A token of an order of the session, not refused by the risk bot. -/
def Known (om : OrderManager ℕ ι) (hdr : OrderHeader) : Prop :=
  hdr.orderToken.id ≠ 0 ∧ s.getOrder om hdr.orderToken.id ≠ none
    ∧ hdr.orderToken.hprMarking ≠ riskbotReject

/-- A token of an order that is to be created. -/
def Missing (om : OrderManager ℕ ι) (hdr : OrderHeader) : Prop :=
  hdr.orderToken.id ≠ 0 ∧ s.getOrder om hdr.orderToken.id = none
    ∧ hdr.orderToken.hprMarking ≠ riskbotReject

/-- The packets that are as long as what is read of them. -/
def LongEnough (om : OrderManager ℕ ι) (buf : Bytes) (len : Nat) : Prop :=
  let m := buf.drop packetHeaderSize
  let hdr := orderHeaderAt localIDOf m
  match armOf (byteAt m 0) with
  | .systemEvent => len ≠ 12
  | .order .replaced => s.Known om hdr → 27 ≤ len → 82 ≤ len
  | .order .accepted =>
      s.Missing om hdr → 26 ≤ len →
        39 ≤ len ∧ ((s.findInstrument (acceptedAt m).stock).isSome = true →
          47 ≤ len)
  | _ => True

end OUCH42Orders

-- ================================================================= structs

namespace OUCH42

/-- What the second switch reads is in the struct. -/
theorem fieldsRead_within_struct (t : OrderMessage) :
    ∀ e ∈ t.fieldsRead, e.Within t.structSize := by
  cases t <;> decide

/-- Outside of `REPLACED` the size that was checked is the struct's. -/
theorem fieldsRead_within {t : OrderMessage} (ht : t ≠ .replaced) :
    ∀ e ∈ t.fieldsRead, e.Within t.expectedLen := by
  have hsize : t.expectedLen = t.structSize := by
    cases t with
    | replaced => exact absurd rfl ht
    | _ => rfl
  rw [hsize]
  exact fieldsRead_within_struct t

theorem orderHeaderSize_le_expectedLen (t : OrderMessage) :
    orderHeaderSize ≤ t.expectedLen := by
  cases t <;> decide

theorem expectedLen_le_structSize (t : OrderMessage) :
    t.expectedLen ≤ t.structSize := by
  cases t <;> decide

/-- Of a `Replaced`, up to the end of the previous token. -/
theorem replaced_within_iff (n : Nat) :
    (∀ e ∈ OrderMessage.replaced.fieldsRead, e.Within n) ↔ 79 ≤ n := by
  have hall : ∀ e ∈ OrderMessage.replaced.fieldsRead, e.Within 79 := by
    decide
  constructor
  · intro h
    exact h ⟨65, 14⟩ (by decide)
  · intro hn e he
    exact (hall e he).mono hn

/-- Of an `Accepted` that has no order, up to the end of the stock, and
with an instrument to that of the time in force. -/
theorem replayOrderFields_within_iff (found : Bool) (n : Nat) :
    (∀ e ∈ replayOrderFields found, e.Within n)
      ↔ 36 ≤ n ∧ (found = true → 44 ≤ n) := by
  have hstock : ∀ e ∈ replayOrderFields false, e.Within 36 := by decide
  have hterms : ∀ e ∈ replayOrderFields true, e.Within 44 := by decide
  cases found with
  | false =>
      refine ⟨fun h => ⟨h ⟨28, 8⟩ (by decide), nofun⟩, fun h e he => ?_⟩
      exact (hstock e he).mono h.1
  | true =>
      refine ⟨fun h => ?_, fun h e he => (hterms e he).mono (h.2 rfl)⟩
      have htif : 40 + 4 ≤ n := h ⟨40, 4⟩ (by decide)
      exact ⟨by omega, fun _ => htif⟩

end OUCH42

-- =============================================================== a message

/-- Reads of the packet, as reads of the message in it. -/
theorem SequencedHandled.within_iff {h : SequencedHandled ι} {len : Nat}
    (hlen : packetHeaderSize ≤ len) :
    h.Within len ↔ ∀ e ∈ h.reads, e.Within (len - packetHeaderSize) :=
  forall₂_congr fun e _ => e.shift_within_iff hlen

namespace OUCH42Orders

variable [DecidableEq ι] {s : OUCH42Orders ι} {localIDOf : Bytes → Nat}
  {om : OrderManager ℕ ι} {ts : Timestamp} {m : Bytes} {len : Nat}

/-- The type and the token are in the header. -/
theorem seen_within (hlen : packetHeaderSize + orderHeaderSize ≤ len) :
    ∀ e ∈ [messageTypeField, orderTokenField],
      e.Within (len - packetHeaderSize) := by
  have hmono : orderHeaderSize ≤ len - packetHeaderSize := by omega
  intro e he
  refine Extent.Within.mono hmono ?_
  revert e
  decide

/-- For an order that is not there: only one that is to be created is read
any further. -/
theorem handleOrderMessage_missing {t : OrderMessage}
    (hlen : packetHeaderSize + orderHeaderSize ≤ len)
    (hid : (orderHeaderAt localIDOf m).orderToken.id ≠ 0)
    (hnone : s.getOrder om (orderHeaderAt localIDOf m).orderToken.id
      = none) :
    (s.handleOrderMessage localIDOf om ts m len t).Within len
      ↔ (t = .accepted →
          (orderHeaderAt localIDOf m).orderToken.hprMarking ≠ riskbotReject →
          39 ≤ len
            ∧ ((s.findInstrument (acceptedAt m).stock).isSome = true →
              47 ≤ len)) := by
  have hseen := seen_within hlen
  unfold packetHeaderSize at hlen
  rw [SequencedHandled.within_iff (by unfold packetHeaderSize; omega)]
  unfold handleOrderMessage
  dsimp only
  rw [if_neg hid, hnone]
  dsimp only
  rw [List.forall_mem_append, and_iff_right hseen]
  split
  case isTrue hcreate =>
    rw [replayOrderFields_within_iff]
    unfold packetHeaderSize
    constructor
    · intro h _ _
      exact ⟨by omega, fun hfound => by have := h.2 hfound; omega⟩
    · intro h
      obtain ⟨hstock, hterms⟩ := h hcreate.1 hcreate.2
      exact ⟨by omega, fun hfound => by have := hterms hfound; omega⟩
  case isFalse hnot =>
    constructor
    · intro _ ht hmarking
      exact absurd ⟨ht, hmarking⟩ hnot
    · intro _ e he
      exact absurd he List.not_mem_nil

/-- For an order of the session: of all messages only `Replaced` is read
further than its size was checked. -/
theorem handleOrderMessage_known {t : OrderMessage} {op : ℕ}
    (hlen : packetHeaderSize + orderHeaderSize ≤ len)
    (hid : (orderHeaderAt localIDOf m).orderToken.id ≠ 0)
    (hop : s.getOrder om (orderHeaderAt localIDOf m).orderToken.id
      = some op)
    (hmarking : (orderHeaderAt localIDOf m).orderToken.hprMarking
      ≠ riskbotReject) :
    (s.handleOrderMessage localIDOf om ts m len t).Within len
      ↔ (t = .replaced → 27 ≤ len → 82 ≤ len) := by
  have hseen := seen_within hlen
  unfold packetHeaderSize at hlen
  rw [SequencedHandled.within_iff (by unfold packetHeaderSize; omega)]
  unfold handleOrderMessage
  dsimp only
  rw [if_neg hid, hop]
  dsimp only
  rw [if_neg hmarking]
  split
  case isTrue hrunt =>
    refine iff_of_true hseen fun ht hle => ?_
    rw [ht] at hrunt
    exact absurd hrunt (Nat.not_lt.mpr hle)
  case isFalse hlong =>
    rw [List.forall_mem_append, and_iff_right hseen]
    by_cases ht : t = .replaced
    · rw [ht, replaced_within_iff]
      unfold packetHeaderSize
      constructor
      · intro h _ _
        omega
      · intro h
        rw [ht] at hlong
        have hle := h rfl (Nat.not_lt.mp hlong)
        omega
    · refine iff_of_true (fun e he => ?_) fun h => absurd h ht
      refine (fieldsRead_within ht e he).mono ?_
      omega

/-- Anything else about an order stops at the header. -/
theorem handleOrderMessage_stops {t : OrderMessage}
    (hlen : packetHeaderSize + orderHeaderSize ≤ len)
    (hstops : (orderHeaderAt localIDOf m).orderToken.id = 0
      ∨ (orderHeaderAt localIDOf m).orderToken.hprMarking
        = riskbotReject) :
    (s.handleOrderMessage localIDOf om ts m len t).Within len := by
  have hseen := seen_within hlen
  have htime : ∀ e ∈ [exchTimeField], e.Within (len - packetHeaderSize) := by
    intro e he
    rw [List.mem_singleton.mp he]
    show 1 + 8 ≤ len - packetHeaderSize
    unfold orderHeaderSize at hlen
    omega
  rw [SequencedHandled.within_iff (by omega)]
  unfold handleOrderMessage
  dsimp only
  split
  case isTrue => exact hseen
  case isFalse hid =>
    have hriskbot := hstops.resolve_left hid
    split
    · rw [if_neg fun h => h.2 hriskbot, List.append_nil]
      exact hseen
    · rw [if_pos hriskbot]
      exact List.forall_mem_append.mpr ⟨hseen, htime⟩

theorem handleOrderMessage_within_iff {t : OrderMessage}
    (hlen : packetHeaderSize + orderHeaderSize ≤ len) :
    (s.handleOrderMessage localIDOf om ts m len t).Within len
      ↔ (t = .replaced → s.Known om (orderHeaderAt localIDOf m) →
          27 ≤ len → 82 ≤ len)
        ∧ (t = .accepted → s.Missing om (orderHeaderAt localIDOf m) →
          39 ≤ len
            ∧ ((s.findInstrument (acceptedAt m).stock).isSome = true →
              47 ≤ len)) := by
  by_cases hstops : (orderHeaderAt localIDOf m).orderToken.id = 0
      ∨ (orderHeaderAt localIDOf m).orderToken.hprMarking = riskbotReject
  · refine iff_of_true (handleOrderMessage_stops hlen hstops)
      ⟨fun _ hknown => ?_, fun _ hmissing => ?_⟩
    · exact absurd hstops (not_or.mpr ⟨hknown.1, hknown.2.2⟩)
    · exact absurd hstops (not_or.mpr ⟨hmissing.1, hmissing.2.2⟩)
  · obtain ⟨hid, hmarking⟩ := not_or.mp hstops
    cases hop : s.getOrder om (orderHeaderAt localIDOf m).orderToken.id with
    | none =>
        rw [handleOrderMessage_missing hlen hid hop]
        constructor
        · intro h
          exact ⟨fun _ hknown => absurd hop hknown.2.1,
            fun ht _ => h ht hmarking⟩
        · intro h ht _
          exact h.2 ht ⟨hid, hop, hmarking⟩
    | some op =>
        have hsome : s.getOrder om (orderHeaderAt localIDOf m).orderToken.id
            ≠ none := by
          rw [hop]
          exact nofun
        rw [handleOrderMessage_known hlen hid hop hmarking]
        constructor
        · intro h
          exact ⟨fun ht _ => h ht, fun _ hmissing =>
            absurd hmissing.2.1 hsome⟩
        · intro h ht
          exact h.1 ht ⟨hid, hsome, hmarking⟩

-- ================================================================== result

/-- Whatever the bytes and the length of a sequenced data packet, only
fields of the packet are read exactly if it is not a system event of
twelve bytes, nor a `Replaced` of a known order that is long enough for a
`Rejected` and ends before its previous token does, nor an `Accepted` of
an order to be created that ends before its stock or, with an instrument
for the stock, before its time in force does. -/
theorem packet_reads_within_iff (s : OUCH42Orders ι)
    (localIDOf : Bytes → Nat) (om : OrderManager ℕ ι) (ts : Timestamp)
    (buf : Bytes) (len : Nat) :
    (s.handleSequencedData localIDOf om ts buf len).Within len
      ↔ s.LongEnough localIDOf om buf len := by
  have htype : ∀ {om : OrderManager ℕ ι}, packetHeaderSize < len →
      (⟨om, [messageTypeField]⟩ : SequencedHandled ι).Within len := by
    intro om hlen e he
    rw [List.mem_singleton.mp he]
    exact hlen
  unfold handleSequencedData LongEnough
  dsimp only
  split
  case isTrue hempty =>
    -- nothing is read, and no length in question is this short
    unfold packetHeaderSize at hempty
    refine iff_of_true (fun e he => absurd he List.not_mem_nil) ?_
    split
    · omega
    · omega
    · omega
    · exact True.intro
  case isFalse hlen =>
    have hlen : packetHeaderSize < len := Nat.not_le.mp hlen
    cases harm : armOf (byteAt (buf.drop packetHeaderSize) 0) with
    | unexpected => exact iff_of_true (htype hlen) True.intro
    | systemEvent =>
        dsimp only
        unfold packetHeaderSize at hlen
        split
        case isTrue hrunt =>
          unfold packetHeaderSize messageHeaderSize at hrunt
          exact iff_of_true (htype hlen) (by omega)
        case isFalse hlong =>
          unfold packetHeaderSize messageHeaderSize at hlong
          constructor
          · intro h
            have hcode : 3 + 9 + 1 ≤ len :=
              h systemEventCodeField (List.mem_of_getLast? rfl)
            omega
          · intro hne e he
            have hcode : ∀ e ∈ [messageTypeField, systemEventCodeField],
                (e.shift packetHeaderSize).Within 13 := by decide
            exact (hcode e he).mono (by omega)
    | order t =>
        dsimp only
        split
        case isFalse hshort =>
          unfold packetHeaderSize orderHeaderSize at hshort
          refine iff_of_true (htype hlen) ?_
          cases t with
          | accepted => exact fun _ h => absurd h hshort
          | replaced => exact fun _ h => absurd h (by omega)
          | _ => exact True.intro
        case isTrue hheader =>
          rw [handleOrderMessage_within_iff hheader]
          unfold packetHeaderSize orderHeaderSize at hheader
          cases t with
          | accepted =>
              exact ⟨fun h hmissing _ => h.2 rfl hmissing,
                fun h => ⟨nofun, fun _ hmissing => h hmissing hheader⟩⟩
          | replaced =>
              exact ⟨fun h hknown => h.1 rfl hknown,
                fun h => ⟨fun _ hknown => h hknown, nofun⟩⟩
          | _ => exact iff_of_true ⟨nofun, nofun⟩ True.intro

/-- With the order 1 of the session sent: a system event of 12 bytes, a
`Replaced` of order 1 of 27 bytes and an `Accepted` of order 2 of 26 bytes
are each read past their end. -/
theorem runt_packets_read_past_end :
    let om := ((OrderManager.start tenBought).send 0 [79] .taken).2
    let header := [0, 0, 0, 0, 0, 0, 0, 0, 73, 0, 0, 0, 0, 0, 0, 0, 0, 0,
      0, 0, 0, 0]
    ¬ (plain.handleSequencedData (fun _ => 1) om ⟨1, 0⟩
        ([0, 9, 83] ++ 83 :: header) 12).Within 12
      ∧ ¬ (plain.handleSequencedData (fun _ => 1) om ⟨1, 0⟩
        ([0, 24, 83] ++ 85 :: header ++ [66]) 27).Within 27
      ∧ ¬ (plain.handleSequencedData (fun _ => 2) om ⟨1, 0⟩
        ([0, 23, 83] ++ 65 :: header) 26).Within 26 := by
  decide +kernel

/-- A packet at least as long as its message's struct is handled as the
decoded message is. -/
theorem handleSequencedData_eq (s : OUCH42Orders ι)
    (localIDOf : Bytes → Nat) (om : OrderManager ℕ ι) (ts : Timestamp)
    {buf : Bytes} {len : Nat} {t : OrderMessage}
    (harm : armOf (byteAt (buf.drop packetHeaderSize) 0) = .order t)
    (hlen : packetHeaderSize + t.structSize ≤ len) :
    (s.handleSequencedData localIDOf om ts buf len).om
      = s.handlePacket om ⟨ts, .order
        (orderHeaderAt localIDOf (buf.drop packetHeaderSize))
        (bodyAt localIDOf (buf.drop packetHeaderSize) t)⟩ := by
  have hheader := orderHeaderSize_le_expectedLen t
  have hsize := expectedLen_le_structSize t
  have hnonempty : ¬ len ≤ packetHeaderSize := by
    unfold orderHeaderSize at hheader
    omega
  unfold handleSequencedData handlePacket handleOrderMessage
  dsimp only
  rw [if_neg hnonempty, harm]
  dsimp only
  rw [if_pos (by omega)]
  by_cases hid :
      (orderHeaderAt localIDOf (buf.drop packetHeaderSize)).orderToken.id = 0
  · rw [if_pos hid, if_pos hid]
  · rw [if_neg hid, if_neg hid]
    cases s.getOrder om
        (orderHeaderAt localIDOf (buf.drop packetHeaderSize)).orderToken.id with
    | none => rfl
    | some op =>
        dsimp only
        split
        case isTrue => rfl
        case isFalse => rw [if_neg (by omega)]

end OUCH42Orders

end TradingEngine.OE
