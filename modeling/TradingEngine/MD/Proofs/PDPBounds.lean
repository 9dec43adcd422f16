/-
When the OpenBook decoder stays in the packet, and when it ends.

The runt check compares the size in the packet's header with the length of
the packet. Nothing compares the messages in it with what is left. A
message is touched up to the last field that is converted (`messageReach`),
and an update that claims less than its own layout makes `npp` larger than
the counter can get. `Fits` says that neither happens at an offset. The
messages that are looked at are those `MessageAt` an offset, and all is well
exactly if each of them fits (`contained_iff`).

# Touches

A handler is modelled by the extents of the packet that it touches, in order,
until it ends or runs out of turns (`Lib/Touches`). For a message without
price points that is a list. For an update it is the fixed part and then a
loop, which ends if there are fewer points than turns, and reaches up to the
last of them. Messages follow each other by the size that each of them
claims, so the offsets that are looked at do not depend on how the messages
are handled, and the packet is an induction over them.
-/
import TradingEngine.MD.PDPBounds
import Mathlib.Logic.Relation

namespace TradingEngine.MD.PDP

open Lib (be16 be16_lt Extent Touches)

-- =================================================================== layout

/-- The bytes of an update up to the last field that is converted: in the
fixed part, or in the last price point that is whole. -/
def updateReach (fixedReach sizeof pricePointSize pricePointReach
    msgSize : Nat) : Nat :=
  if msgSize < sizeof + pricePointSize then fixedReach
  else sizeof + ((msgSize - sizeof) / pricePointSize - 1) * pricePointSize
    + pricePointReach

/-- The bytes of a message up to the last field that is converted. -/
def messageReach (type : Option MsgType) (buf : Bytes) (idx : Nat) : Nat :=
  match type with
  | some .nyseOpeningImbalance => 38
  | some .nyseClosingImbalance => 38
  | some .openbookFullUpdate => updateReach 32 32 12 10 (be16 buf idx)
  | some .openbookDeltaUpdate => updateReach 14 18 28 14 (be16 buf idx)
  | some .sequenceNumberReset => 4
  | some .messageUnavailable => 8
  | some .retransmissionResponse => 4
  | some .retransmissionRequest => 8
  | _ => 0

/-- An update claims at least its own layout. -/
def Sized (type : Option MsgType) (buf : Bytes) (idx : Nat) : Prop :=
  (type = some .openbookFullUpdate → fullUpdateSize ≤ be16 buf idx)
    ∧ (type = some .openbookDeltaUpdate → deltaUpdateSize ≤ be16 buf idx)

/-- The message at `idx` is sized, and what is converted of it is in the
packet. -/
def Fits (type : Option MsgType) (buf : Bytes) (len idx : Nat) : Prop :=
  Sized type buf idx ∧ idx + messageReach type buf idx ≤ len

/-- One message, and the one behind it. -/
def Follows (type : Option MsgType) (buf : Bytes) (len idx idx' : Nat) :
    Prop :=
  idx < len ∧ 0 < messageSize type buf idx
    ∧ idx' = idx + messageSize type buf idx

/-- A message that is looked at, from `start` on. -/
def MessageAt (type : Option MsgType) (buf : Bytes) (len start idx : Nat) :
    Prop :=
  idx < len ∧ Relation.ReflTransGen (Follows type buf len) start idx

/-- The number of price points, if the message is as long as its fixed part. -/
theorem npp_of_le {m sizeof : Nat} (h : sizeof ≤ m) (hm : m < 65536)
    (point : Nat) : npp m sizeof point = (m - sizeof) / point := by
  unfold npp
  congr 1
  omega

/-- The subtraction wraps around, and the quotient is out of reach. -/
theorem le_npp {m sizeof point : Nat} (h : m < sizeof)
    (hsizeof : sizeof ≤ 32) (hpos : 0 < point) (hpoint : point ≤ 28) :
    4294967296 ≤ npp m sizeof point := by
  unfold npp
  rw [Nat.le_div_iff_mul_le hpos]
  have hmul : 4294967296 * point ≤ 4294967296 * 28 :=
    Nat.mul_le_mul_left _ hpoint
  omega

-- ================================================================== updates

/-- An update, whatever its layout. -/
def updateTouches (fixed points : List Extent) (sizeof point turns m
    idx : Nat) : Touches :=
  Touches.andThen ⟨msgTypeField :: fixed.map (Extent.shift idx), true⟩
    (Touches.forEach points point (npp m sizeof point) turns 0
      (idx + sizeof))

section Update

variable {fixed points : List Extent} {sizeof point turns m idx : Nat}

/-- The loop over them then ends. -/
theorem ended_updateTouches (hle : sizeof ≤ m) (hm : m < 65536)
    (hturns : 65536 ≤ turns) :
    (updateTouches fixed points sizeof point turns m idx).ended = true := by
  have hn := npp_of_le hle hm point
  have hdiv := Nat.div_le_self (m - sizeof) point
  have hzero : (0 : UInt32).toNat = 0 := rfl
  unfold updateTouches
  rw [Touches.ended_andThen,
    Touches.ended_forEach_of_lt (by omega) (by omega)]
  rfl

/-- And it ends in time only then. -/
theorem sizeof_le_of_ended (hsizeof : sizeof ≤ 32) (hpos : 0 < point)
    (hpoint : point ≤ 28)
    (h : (updateTouches fixed points sizeof point turns m idx).ended
      = true) : sizeof ≤ m := by
  rcases Nat.lt_or_ge m sizeof with hlt | hle
  · have hn := le_npp hlt hsizeof hpos hpoint
    unfold updateTouches at h
    rw [Touches.ended_andThen, Touches.ended_forEach_of_le hn] at h
    cases h
  · exact hle

/-- A field of the fixed part, or of a price point there is. -/
theorem end_le_of_mem_updateTouches (hle : sizeof ≤ m) (hm : m < 65536)
    (hfixed : Extent.reach fixed ≤ sizeof) {e : Extent}
    (he : e ∈ (updateTouches fixed points sizeof point turns m idx).extents) :
    e = msgTypeField ∨ idx ≤ e.start ∧ e.start + e.size
      ≤ idx + updateReach (Extent.reach fixed) sizeof point
        (Extent.reach points) m := by
  have hn := npp_of_le hle hm point
  have hdiv := Nat.div_le_self (m - sizeof) point
  unfold updateTouches at he
  rw [Touches.mem_andThen] at he
  unfold updateReach
  rcases he with he | ⟨-, he⟩
  · rcases List.mem_cons.mp he with rfl | he
    · exact .inl rfl
    · obtain ⟨f, hf, rfl⟩ := List.mem_map.mp he
      have hreach := Extent.le_reach hf
      right
      unfold Extent.shift
      dsimp only
      split <;> omega
  · right
    have hend := Touches.end_le_of_mem_forEach (by omega) he
    obtain ⟨k, hk, -⟩ := Touches.exists_of_mem_forEach (by omega) he
    have hsome : ¬m < sizeof + point := by
      intro hlt
      have hnone : (m - sizeof) / point = 0 := Nat.div_eq_of_lt (by omega)
      omega
    rw [if_neg hsome, ← hn]
    omega

/-- The last price point that is converted ends within the length. -/
theorem end_le_of_updateTouches_within (hle : sizeof ≤ m) (hm : m < 65536)
    (hpos : 0 < point) (hfixed : fixed ≠ []) (hpoints : points ≠ [])
    {len : Nat}
    (hended : (updateTouches fixed points sizeof point turns m idx).ended
      = true)
    (h : ∀ e ∈ (updateTouches fixed points sizeof point turns m idx).extents,
      e.Within len) :
    idx + updateReach (Extent.reach fixed) sizeof point
      (Extent.reach points) m ≤ len := by
  have hn := npp_of_le hle hm point
  have hdiv := Nat.div_le_self (m - sizeof) point
  unfold updateTouches at hended h
  simp only [Touches.mem_andThen] at h
  unfold updateReach
  split
  · obtain ⟨f, hf, hreach⟩ := Extent.exists_reach hfixed
    have hlast := h _ (.inl (List.mem_cons_of_mem _
      (List.mem_map_of_mem hf)))
    unfold Extent.Within Extent.shift at hlast
    dsimp only at hlast
    omega
  · have hone : 1 ≤ (m - sizeof) / point := by
      rw [Nat.le_div_iff_mul_le hpos]
      omega
    have hpos' : npp m sizeof point ≠ 0 := by omega
    have hlast := Touches.end_le_of_within (by omega) hpoints hpos'
      (by simpa using hended) fun e he => h e (.inr ⟨trivial, he⟩)
    rw [hn] at hlast
    omega

end Update

-- ================================================================= messages

section Message

variable {type : Option MsgType} {buf : Bytes} {turns len idx : Nat}

/-- A full update is one with points of 12 bytes. -/
theorem messageTouches_full :
    messageTouches turns (some .openbookFullUpdate) buf idx
      = updateTouches (MsgType.converted .openbookFullUpdate)
        fullUpdatePricePointConverted 32 12 turns (be16 buf idx) idx := rfl

/-- A delta update is one with points of 28 bytes. -/
theorem messageTouches_delta :
    messageTouches turns (some .openbookDeltaUpdate) buf idx
      = updateTouches (MsgType.converted .openbookDeltaUpdate)
        deltaUpdatePricePointConverted 18 28 turns (be16 buf idx) idx := rfl

/-- The messages without price points. -/
def Plainly (type : Option MsgType) : Prop :=
  type ≠ some .openbookFullUpdate ∧ type ≠ some .openbookDeltaUpdate

/-- All other types have no loop. -/
theorem messageTouches_plainly (h : Plainly type) :
    messageTouches turns type buf idx = fixedTouches type idx := by
  unfold messageTouches
  split
  · exact absurd rfl h.1
  · exact absurd rfl h.2
  · rfl

/-- There are no more cases. -/
theorem full_or_delta_or_plainly (type : Option MsgType) :
    type = some .openbookFullUpdate ∨ type = some .openbookDeltaUpdate
      ∨ Plainly type := by
  unfold Plainly
  by_cases hfull : type = some .openbookFullUpdate
  · exact .inl hfull
  · by_cases hdelta : type = some .openbookDeltaUpdate
    · exact .inr (.inl hdelta)
    · exact .inr (.inr ⟨hfull, hdelta⟩)

/-- Without a loop the handler ends. -/
theorem ended_fixedTouches (type : Option MsgType) (idx : Nat) :
    (fixedTouches type idx).ended = true := by
  cases type <;> rfl

/-- The loop here goes on as that of `handleMessages` does. -/
theorem dispatchMessage_fst (d : Decoder) (seqnum : UInt32)
    (type : Option MsgType) (buf : Bytes) (idx : Nat) (ts : Timestamp) :
    (d.dispatchMessage seqnum type buf idx ts).1
      = messageSize type buf idx := by
  rcases type with _ | type
  · rfl
  · cases type <;> rfl

/-- What the fixed part of a message touches, and how far it goes. -/
theorem messageReach_plainly (h : Plainly type) :
    messageReach type buf idx
      = Extent.reach (type.elim [] MsgType.converted) := by
  rcases type with _ | type
  · rfl
  · cases type with
    | openbookFullUpdate => exact absurd rfl h.1
    | openbookDeltaUpdate => exact absurd rfl h.2
    | _ => rfl

/-- A message that is sized ends. -/
theorem ended_messageTouches (h : Sized type buf idx)
    (hturns : 65536 ≤ turns) :
    (messageTouches turns type buf idx).ended = true := by
  have hm := be16_lt buf idx
  rcases full_or_delta_or_plainly type with rfl | rfl | hplain
  · rw [messageTouches_full]
    exact ended_updateTouches (h.1 rfl) hm hturns
  · rw [messageTouches_delta]
    exact ended_updateTouches (h.2 rfl) hm hturns
  · rw [messageTouches_plainly hplain]
    exact ended_fixedTouches type idx

/-- No other message does. -/
theorem sized_of_ended
    (h : (messageTouches turns type buf idx).ended = true) :
    Sized type buf idx := by
  constructor
  · rintro rfl
    rw [messageTouches_full] at h
    exact sizeof_le_of_ended (by decide) (by decide) (by decide) h
  · rintro rfl
    rw [messageTouches_delta] at h
    exact sizeof_le_of_ended (by decide) (by decide) (by decide) h

/-- What a handler converts lies in its message, but for the type, which is
read at the beginning of the packet. -/
theorem end_le_of_mem_messageTouches (h : Sized type buf idx) {e : Extent}
    (he : e ∈ (messageTouches turns type buf idx).extents) :
    e = msgTypeField ∨ idx ≤ e.start
      ∧ e.start + e.size ≤ idx + messageReach type buf idx := by
  have hm := be16_lt buf idx
  rcases full_or_delta_or_plainly type with rfl | rfl | hplain
  · rw [messageTouches_full] at he
    exact end_le_of_mem_updateTouches (h.1 rfl) hm (by decide) he
  · rw [messageTouches_delta] at he
    exact end_le_of_mem_updateTouches (h.2 rfl) hm (by decide) he
  · rw [messageTouches_plainly hplain] at he
    rw [messageReach_plainly hplain]
    rcases type with _ | type
    · exact .inl (List.mem_singleton.mp he)
    · rcases List.mem_cons.mp he with rfl | he
      · exact .inl rfl
      · obtain ⟨f, hf, rfl⟩ := List.mem_map.mp he
        have hreach := Extent.le_reach hf
        right
        unfold Extent.shift
        simp only [Option.elim_some]
        omega

/-- What an update converts is no more than its size says. -/
theorem updateReach_le {fixedReach sizeof point pointReach m : Nat}
    (hfixed : fixedReach ≤ sizeof) (hpoint : pointReach ≤ point)
    (hpos : 0 < point) (hle : sizeof ≤ m) :
    updateReach fixedReach sizeof point pointReach m ≤ m := by
  unfold updateReach
  split
  · omega
  · have hone : 1 ≤ (m - sizeof) / point := by
      rw [Nat.le_div_iff_mul_le hpos]
      omega
    have hmul := Nat.div_mul_le_self (m - sizeof) point
    have hsub := Nat.sub_one_mul ((m - sizeof) / point) point
    have hfirst : point ≤ (m - sizeof) / point * point :=
      Nat.le_mul_of_pos_left point hone
    omega

/-- No message reaches further than its size. -/
theorem messageReach_le (h : Sized type buf idx) :
    messageReach type buf idx ≤ messageSize type buf idx := by
  rcases full_or_delta_or_plainly type with rfl | rfl | hplain
  · exact updateReach_le (by decide) (by decide) (by decide) (h.1 rfl)
  · exact updateReach_le (by decide) (by decide) (by decide) (h.2 rfl)
  · rcases type with _ | type
    · exact Nat.le_refl _
    · cases type with
      | openbookFullUpdate => exact absurd rfl hplain.1
      | openbookDeltaUpdate => exact absurd rfl hplain.2
      | _ => simp [messageReach, messageSize]

/-- A message that ends converts no byte of another. -/
theorem own_of_mem_messageTouches
    (hended : (messageTouches turns type buf idx).ended = true) {e : Extent}
    (he : e ∈ (messageTouches turns type buf idx).extents) :
    e = msgTypeField ∨ idx ≤ e.start
      ∧ e.start + e.size ≤ idx + messageSize type buf idx := by
  have hsized := sized_of_ended hended
  have hreach := messageReach_le hsized
  rcases end_le_of_mem_messageTouches hsized he with htype | hend
  · exact .inl htype
  · exact .inr ⟨hend.1, by omega⟩

/-- So messages that fit are handled within the packet. -/
theorem within_messageTouches (h : Fits type buf len idx)
    (hlen : messageHeaderSize ≤ len) (turns : Nat) :
    ∀ e ∈ (messageTouches turns type buf idx).extents, e.Within len := by
  intro e he
  have hfits := h.2
  rcases end_le_of_mem_messageTouches h.1 he with rfl | hend
  · exact Nat.le_trans (by decide) hlen
  · unfold Extent.Within
    omega

/-- A message that ends in the packet fits. -/
theorem fits_of_messageTouches (hidx : idx < len)
    (hended : (messageTouches turns type buf idx).ended = true)
    (h : ∀ e ∈ (messageTouches turns type buf idx).extents,
      e.Within len) : Fits type buf len idx := by
  have hm := be16_lt buf idx
  have hsized := sized_of_ended hended
  refine ⟨hsized, ?_⟩
  rcases full_or_delta_or_plainly type with rfl | rfl | hplain
  · rw [messageTouches_full] at hended h
    exact end_le_of_updateTouches_within (hsized.1 rfl) hm (by decide)
      (by decide) (by decide) hended h
  · rw [messageTouches_delta] at hended h
    exact end_le_of_updateTouches_within (hsized.2 rfl) hm (by decide)
      (by decide) (by decide) hended h
  · rw [messageTouches_plainly hplain] at h
    rw [messageReach_plainly hplain]
    rcases type with _ | type
    · exact Nat.le_of_lt hidx
    · simp only [Option.elim_some]
      by_cases hnone : type.converted = []
      · rw [hnone]
        exact Nat.le_of_lt hidx
      · obtain ⟨f, hf, hreach⟩ := Extent.exists_reach hnone
        have hlast := h _ (List.mem_cons_of_mem _ (List.mem_map_of_mem hf))
        unfold Extent.Within Extent.shift at hlast
        dsimp only at hlast
        omega

end Message

-- =================================================================== packets

section Messages

variable {type : Option MsgType} {buf : Bytes} {len : Nat}

/-- The first message. -/
theorem messageAt_start {idx : Nat} (h : idx < len) :
    MessageAt type buf len idx idx :=
  ⟨h, .refl⟩

/-- A message behind another. -/
theorem MessageAt.behind {start idx : Nat} (hstart : start < len)
    (hsize : messageSize type buf start ≠ 0)
    (h : MessageAt type buf len (start + messageSize type buf start) idx) :
    MessageAt type buf len start idx :=
  ⟨h.1, .head ⟨hstart, Nat.pos_of_ne_zero hsize, rfl⟩ h.2⟩

/-- A message is the first, or behind it. -/
theorem MessageAt.cases {start idx : Nat}
    (h : MessageAt type buf len start idx) :
    idx = start ∨ messageSize type buf start ≠ 0
      ∧ MessageAt type buf len (start + messageSize type buf start) idx := by
  rcases h.2.cases_head with heq | ⟨next, ⟨-, hpos, rfl⟩, hrest⟩
  · exact .inl heq.symm
  · exact .inr ⟨Nat.ne_of_gt hpos, h.1, hrest⟩

/-- If every message is sized, the loop ends. -/
theorem ended_messagesTouches {points turns start : Nat}
    (h : ∀ idx, MessageAt type buf len start idx → Sized type buf idx)
    (hpoints : 65536 ≤ points) (hturns : len - start < turns) :
    (messagesTouches points type buf len turns start).ended = true := by
  induction turns generalizing start with
  | zero => exact absurd hturns (Nat.not_lt_zero _)
  | succ turns ih =>
      unfold messagesTouches
      by_cases hstart : start < len
      · have hended := ended_messageTouches
          (h start (messageAt_start hstart)) hpoints
        rw [if_pos hstart]
        dsimp only
        by_cases hsize : messageSize type buf start = 0
        · rw [if_pos hsize]
          exact hended
        · have hrest := ih
            (fun idx hidx => h idx (hidx.behind hstart hsize)) (by omega)
          rw [if_neg hsize, Touches.ended_andThen, hended, hrest]
          rfl
      · rw [if_neg hstart]

/-- If every message fits, the loop stays in the packet. -/
theorem within_messagesTouches {points turns start : Nat}
    (h : ∀ idx, MessageAt type buf len start idx → Fits type buf len idx)
    (hlen : messageHeaderSize ≤ len) :
    ∀ e ∈ (messagesTouches points type buf len turns start).extents,
      e.Within len := by
  induction turns generalizing start with
  | zero => simp [messagesTouches, Touches.cut]
  | succ turns ih =>
      unfold messagesTouches
      by_cases hstart : start < len
      · have hfirst := within_messageTouches
          (h start (messageAt_start hstart)) hlen points
        rw [if_pos hstart]
        dsimp only
        by_cases hsize : messageSize type buf start = 0
        · rw [if_pos hsize]
          exact hfirst
        · have hrest := ih fun idx hidx => h idx (hidx.behind hstart hsize)
          intro e he
          rw [if_neg hsize, Touches.mem_andThen] at he
          rcases he with he | ⟨-, he⟩
          · exact hfirst e he
          · exact hrest e he
      · simp [if_neg hstart]

/-- If the loop ends in the packet, every message fits. -/
theorem fits_of_messagesTouches {points turns start : Nat}
    (hended : (messagesTouches points type buf len turns start).ended = true)
    (h : ∀ e ∈ (messagesTouches points type buf len turns start).extents,
      e.Within len) {idx : Nat} (hidx : MessageAt type buf len start idx) :
    Fits type buf len idx := by
  induction turns generalizing start with
  | zero => cases hended
  | succ turns ih =>
      have hstart : start < len := by
        rcases hidx.2.cases_head with rfl | ⟨next, hnext, -⟩
        · exact hidx.1
        · exact hnext.1
      unfold messagesTouches at hended h
      rw [if_pos hstart] at hended h
      dsimp only at hended h
      by_cases hsize : messageSize type buf start = 0
      · rw [if_pos hsize] at hended h
        rcases hidx.cases with rfl | ⟨hpos, -⟩
        · exact fits_of_messageTouches hstart hended h
        · exact absurd hsize hpos
      · rw [if_neg hsize] at hended h
        rw [Touches.ended_andThen, Bool.and_eq_true] at hended
        simp only [Touches.mem_andThen] at h
        rcases hidx.cases with rfl | ⟨-, hrest⟩
        · exact fits_of_messageTouches hstart hended.1
            fun e he => h e (.inl he)
        · exact ih hended.2 (fun e he => h e (.inr ⟨hended.1, he⟩)) hrest

end Messages

namespace Decoder

/-- A packet that is no runt ends and stays in the packet exactly if it is
stale or every message in it fits. -/
theorem contained_iff (d : Decoder) (p : Packet)
    (hlen : messageHeaderSize ≤ p.len) (hrunt : msgSize p.buf + 2 ≤ p.len) :
    Touches.Contained p.len (d.onRecvTouches p)
      ↔ msgSeqNum p.buf < d.channel.expectSeqnum
        ∨ ∀ idx,
          MessageAt (msgType p.buf) p.buf p.len messageHeaderSize idx →
            Fits (msgType p.buf) p.buf p.len idx := by
  unfold Touches.Contained onRecvTouches
  simp only [if_neg (Nat.not_lt_of_le hrunt)]
  by_cases hstale : msgSeqNum p.buf < d.channel.expectSeqnum
  · simp [hstale]
  · simp only [hstale, false_or]
    constructor
    · intro ⟨⟨turns, hended⟩, hwithin⟩ idx hidx
      exact fits_of_messagesTouches hended (hwithin turns) hidx
    · intro hfits
      constructor
      · refine ⟨65536 + p.len, ended_messagesTouches
          (fun idx hidx => (hfits idx hidx).1) (by omega) (by omega)⟩
      · exact fun turns => within_messagesTouches hfits hlen

/-- A channel that expects the first packet. -/
def fresh : Decoder := ⟨⟨0, 1, 0, 0, 0⟩, []⟩

/-- The header of the first packet of a type, and what follows it. -/
def firstPacket (type : UInt8) (body : Bytes) : Packet where
  ts := 0
  buf := [0, 14, 0, type, 0, 0, 0, 1, 0, 0, 0, 0, 115, 1, 1, 0] ++ body
  len := 16 + body.length

/-- A message that says that others are unavailable. -/
theorem contained_unavailable :
    Touches.Contained 24
      (fresh.onRecvTouches (firstPacket 5 [0, 0, 0, 1, 0, 0, 0, 2])) := by
  refine (contained_iff fresh (firstPacket 5 [0, 0, 0, 1, 0, 0, 0, 2])
    (by decide) (by decide)).mpr (.inr ?_)
  intro idx hidx
  rcases hidx.cases with rfl | ⟨-, hrest⟩
  · exact ⟨⟨by decide, by decide⟩, by decide⟩
  · rcases hrest.2.cases_head with rfl | ⟨next, hnext, -⟩
    · exact absurd hidx.1 (by decide)
    · exact absurd hnext.1 (by decide)

/-- Half of that message is converted to its end. -/
theorem not_contained_short :
    ¬∀ (d : Decoder) (p : Packet), messageHeaderSize ≤ p.len →
      msgSize p.buf + 2 ≤ p.len →
      Touches.Contained p.len (d.onRecvTouches p) := by
  intro h
  have hshort := h fresh (firstPacket 5 [0, 0, 0, 1]) (by decide) (by decide)
  exact absurd (hshort.2 2 ⟨20, 4⟩ (by decide)) (by decide)

end Decoder

end TradingEngine.MD.PDP
