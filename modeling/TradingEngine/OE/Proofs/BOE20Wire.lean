/-
A BOE session and its exchange mean the same by the bytes between them.

# Login

The exchange takes the login request apart and finds in it the credentials,
the last number of every unit that something has come from, and nine groups
of bits; no byte is left over (`readLogin_sendLoginRequest`).

# Messages of the exchange

The session reads a message as a struct and never looks at the bits in it.
That is right because the bits it asks for at login choose the very fields
of the struct (`chosen_returnBitfields`): each is where the struct has it
(`read_bytes`). Together with the framing of `handle_raw_bytes`, whatever is
cut from the stream is read as it was meant (`stream_read_back`).
-/
import TradingEngine.OE.BOE20Exchange
import TradingEngine.OE.Proofs.BOE20Recv

namespace TradingEngine.OE

open Lib (leBytes leNat byteAt bytesAt)
open Lib.Record (offset size pack chosen Fits)

namespace BOE20

-- =================================================================== units

/-- The units of a login are those from 1 to 32 that were heard from. -/
theorem mem_unitSequences {inbound : UInt8 → UInt32}
    {u : UnitNumberSequencePair} (h : u ∈ unitSequences inbound) :
    1 ≤ u.unitNumber.toNat ∧ u.unitNumber.toNat ≤ 32
      ∧ u.unitSequence = inbound u.unitNumber ∧ u.unitSequence ≠ 0 := by
  unfold unitSequences numberOfMatchingUnits at h
  obtain ⟨i, hi, hu⟩ := List.mem_filterMap.mp h
  have hlt := List.mem_range.mp hi
  dsimp only at hu
  split at hu
  case isFalse => cases hu
  case isTrue hne =>
    cases hu
    have hunit : (UInt8.ofNat (i + 1)).toNat = i + 1 := by
      rw [UInt8.toNat_ofNat']
      omega
    dsimp only
    exact ⟨by omega, by omega, rfl, hne⟩

/-- So there are 32 of them at most. -/
theorem length_unitSequences_le (inbound : UInt8 → UInt32) :
    (unitSequences inbound).length ≤ 32 := by
  have h := List.length_filterMap_le (l := List.range numberOfMatchingUnits)
    fun i =>
      let unit := UInt8.ofNat (i + 1)
      if inbound unit ≠ 0 then
        some (⟨unit, inbound unit⟩ : UnitNumberSequencePair)
      else none
  rw [List.length_range] at h
  exact h

/-- Each takes five bytes. -/
theorem length_unitBytes (us : List UnitNumberSequencePair) :
    (us.flatMap UnitNumberSequencePair.bytes).length = us.length * 5 := by
  induction us with
  | nil => rfl
  | cons u us ih =>
      rw [List.flatMap_cons, List.length_append, ih,
        UnitNumberSequencePair.bytes, List.length_cons, Lib.length_leBytes,
        List.length_cons]
      omega

/-- The units are read back as they were written. -/
theorem readUnits_bytes (us : List UnitNumberSequencePair) :
    readUnits us.length (us.flatMap UnitNumberSequencePair.bytes)
      = some us := by
  induction us with
  | nil => rfl
  | cons u us ih =>
      have hlen : u.bytes.length = 5 := by
        unfold UnitNumberSequencePair.bytes
        rw [List.length_cons, Lib.length_leBytes]
      have hseq (rest : Bytes) : leNat (bytesAt (u.bytes ++ rest) 1 4)
          = u.unitSequence.toNat := by
        have hfour : bytesAt (u.bytes ++ rest) 1 4
            = leBytes 4 u.unitSequence.toNat := by
          show (leBytes 4 _ ++ rest).take 4 = _
          exact List.take_left' (Lib.length_leBytes _ _)
        rw [hfour, Lib.leNat_leBytes_of_lt u.unitSequence.toNat_lt]
      rw [List.length_cons, List.flatMap_cons]
      unfold readUnits
      rw [if_neg (by rw [List.length_append]; omega),
        List.drop_left' hlen, ih, hseq, UInt32.ofNat_toNat]
      rfl

-- ================================================================== groups

/-- A group that says how long it is. -/
theorem readParamGroups_cons {type : UInt8} {data : Bytes} {g : ParamGroup}
    (h : readParamGroup type data = some g) (hlen : data.length + 3 < 65536)
    (n : Nat) (rest : Bytes) :
    readParamGroups (n + 1)
        (leBytes 2 (data.length + 3) ++ type :: data ++ rest)
      = (readParamGroups n rest).map (g :: ·) := by
  generalize hbs : leBytes 2 (data.length + 3) ++ type :: data ++ rest = bs
  have hlength : leNat (bytesAt bs 0 2) = data.length + 3 := by
    have htwo : bytesAt bs 0 2 = leBytes 2 (data.length + 3) := by
      rw [← hbs]
      exact List.take_left' (Lib.length_leBytes _ _)
    rw [htwo, Lib.leNat_leBytes_of_lt hlen]
  have htype : byteAt bs 2 = type := by
    rw [← hbs]
    rfl
  have hdata : bytesAt bs 3 (data.length + 3 - 3) = data := by
    rw [← hbs, Nat.add_sub_cancel]
    show (data ++ rest).take data.length = data
    exact List.take_left
  have hrest : bs.drop (data.length + 3) = rest := by
    rw [← hbs]
    refine List.drop_left' ?_
    rw [List.length_append, Lib.length_leBytes, List.length_cons]
    omega
  have hlong : ¬(data.length + 3 < 3 ∨ bs.length < data.length + 3) := by
    rw [← hbs, List.length_append, List.length_append, Lib.length_leBytes,
      List.length_cons]
    omega
  conv_lhs => unfold readParamGroups
  rw [hlength]
  dsimp only
  rw [if_neg hlong, htype, hdata, h, hrest]
  rfl

/-- The group of the units, and the groups behind it. -/
theorem readParamGroups_unitSequences {us : List UnitNumberSequencePair}
    (hlen : us.length ≤ 32) (n : Nat) (rest : Bytes) :
    readParamGroups (n + 1) (unitSequencesParamGroup us ++ rest)
      = (readParamGroups n rest).map (.unitSequences true us :: ·) := by
  have hn : (UInt8.ofNat us.length).toNat = us.length := by
    rw [UInt8.toNat_ofNat']
    omega
  have hread : readParamGroup 0x80
      (1 :: .ofNat us.length :: us.flatMap UnitNumberSequencePair.bytes)
      = some (.unitSequences true us) := by
    show (readUnits (UInt8.ofNat us.length).toNat _).map _ = _
    rw [hn, readUnits_bytes]
    rfl
  have hsize : us.length * 5 + 5
      = (1 :: UInt8.ofNat us.length
          :: us.flatMap UnitNumberSequencePair.bytes).length + 3 := by
    rw [List.length_cons, List.length_cons, length_unitBytes]
  unfold unitSequencesParamGroup
  rw [hsize, ← readParamGroups_cons hread (by rw [← hsize]; omega) n rest]
  simp only [List.append_assoc, List.cons_append, List.nil_append]

/-- The groups of the bitfields, one for each kind of message. -/
theorem readParamGroups_returnBitfields (ms : List ReturnMessage) :
    readParamGroups ms.length (ms.flatMap returnBitfieldsParamGroup)
      = some (ms.map fun m =>
        .returnBitfields m.messageType m.returnBitfields) := by
  induction ms with
  | nil => rfl
  | cons m ms ih =>
      have hlen : m.returnBitfields.length = 8 := by cases m <;> rfl
      have hread : readParamGroup 0x81
          (m.messageType :: 8 :: m.returnBitfields)
          = some (.returnBitfields m.messageType m.returnBitfields) := by
        show (if m.returnBitfields.length = (8 : UInt8).toNat then _
          else _) = _
        exact if_pos hlen
      have hsize : 13 = (m.messageType :: 8 :: m.returnBitfields).length + 3
        := by rw [List.length_cons, List.length_cons, hlen]
      have hstep := readParamGroups_cons hread (by rw [← hsize]; omega)
        ms.length (ms.flatMap returnBitfieldsParamGroup)
      rw [ih, ← hsize] at hstep
      rw [List.length_cons, List.flatMap_cons, List.map_cons]
      unfold returnBitfieldsParamGroup at hstep ⊢
      rw [← Option.map_some, ← hstep]
      simp only [List.append_assoc, List.cons_append, List.nil_append]

-- =================================================================== login

section Login

variable (c : Credentials) (inbound : UInt8 → UInt32)

/-- Every field of a login has the width of its struct. -/
theorem fits_loginMember :
    Fits Field.width (loginMember c inbound) loginFields := by
  intro f hf
  simp only [loginFields, headerFields, List.cons_append, List.nil_append,
    List.mem_cons, List.not_mem_nil, or_false] at hf
  rcases hf with rfl | rfl | rfl | rfl | rfl | rfl | rfl | rfl | rfl
  · rfl
  · rfl
  · rfl
  · rfl
  · rfl
  · exact c.sessionSubID_length
  · exact c.username_length
  · exact c.password_length
  · rfl

/-- What the exchange is to find in a login request. -/
def loginOf : Login where
  sessionSubID := c.sessionSubID
  username := c.username
  password := c.password
  paramGroups :=
    (if unitSequences inbound ≠ [] then
        [.unitSequences true (unitSequences inbound)] else [])
      ++ ReturnMessage.all.map fun m =>
        .returnBitfields m.messageType m.returnBitfields

/-- The groups of a login request are those of its `Login`. -/
theorem readParamGroups_loginRequest :
    readParamGroups (if unitSequences inbound ≠ [] then 10 else 9)
        ((if unitSequences inbound ≠ [] then
            unitSequencesParamGroup (unitSequences inbound) else [])
          ++ ReturnMessage.all.flatMap returnBitfieldsParamGroup)
      = some (loginOf c inbound).paramGroups := by
  have hbits := readParamGroups_returnBitfields ReturnMessage.all
  have hnine : ReturnMessage.all.length = 9 := rfl
  rw [hnine] at hbits
  unfold loginOf
  by_cases hunits : unitSequences inbound = []
  · rw [if_neg (not_not_intro hunits), if_neg (not_not_intro hunits),
      if_neg (not_not_intro hunits)]
    exact hbits
  · rw [if_pos hunits, if_pos hunits, if_pos hunits,
      readParamGroups_unitSequences (length_unitSequences_le inbound), hbits]
    rfl

/-- What is written fills the bytes that were allocated. -/
theorem length_loginRequest :
    (loginRequest c inbound).length = loginLength inbound := by
  have hhead := Lib.Record.length_pack (fits_loginMember c inbound)
  have hbits : (ReturnMessage.all.flatMap returnBitfieldsParamGroup).length
      = sizeofReturnBitfieldsGroup := by decide
  have hunits : (if unitSequences inbound ≠ [] then
        unitSequencesParamGroup (unitSequences inbound) else []).length
      = sizeofUnitSequencesGroup (unitSequences inbound).length := by
    unfold sizeofUnitSequencesGroup
    cases unitSequences inbound with
    | nil => rfl
    | cons u us =>
        rw [if_pos (List.cons_ne_nil u us),
          if_pos (by rw [List.length_cons]; exact Nat.succ_ne_zero _),
          unitSequencesParamGroup, List.length_append, List.length_append,
          Lib.length_leBytes, length_unitBytes]
        simp only [List.length_cons, List.length_nil]
  unfold loginRequest loginLength
  rw [List.length_append, List.length_append, hhead, hunits, hbits]
  rfl

/-- So nothing of what memory held is sent. -/
theorem sendLoginRequest_eq (mem : Bytes) :
    sendLoginRequest c inbound mem = loginRequest c inbound := by
  unfold sendLoginRequest
  rw [← length_loginRequest c inbound]
  exact List.take_left

/-- The length of a login fits its two bytes. -/
theorem loginLength_lt : loginLength inbound < 65536 := by
  have hunits := length_unitSequences_le inbound
  unfold loginLength sizeofUnitSequencesGroup sizeofReturnBitfieldsGroup
  split <;> omega

/-- A field of the login request, from its bytes. -/
theorem loginField_loginRequest {f : Field} (hf : f ∈ loginFields) :
    loginField (loginRequest c inbound) f = loginMember c inbound f := by
  unfold loginField loginRequest
  rw [List.append_assoc]
  exact Lib.Record.bytesAt_pack (fits_loginMember c inbound) hf _

/-- The exchange reads the login that the session meant. -/
theorem readLogin_sendLoginRequest (mem : Bytes) :
    readLogin (sendLoginRequest c inbound mem) = some (loginOf c inbound) := by
  have hlen := length_loginRequest c inbound
  have hlt := loginLength_lt inbound
  have hlength : leNat (leBytes 2 (loginLength inbound - 2))
      = loginLength inbound - 2 :=
    Lib.leNat_leBytes_of_lt (by omega)
  have hlong : 29 ≤ loginLength inbound := by
    unfold loginLength
    omega
  have hnum : leNat [if unitSequences inbound ≠ [] then 10 else 9]
      = if unitSequences inbound ≠ [] then 10 else 9 := by
    split <;> rfl
  have hdrop : (loginRequest c inbound).drop (size Field.width loginFields)
      = (if unitSequences inbound ≠ [] then
            unitSequencesParamGroup (unitSequences inbound) else [])
          ++ ReturnMessage.all.flatMap returnBitfieldsParamGroup := by
    unfold loginRequest
    rw [List.append_assoc]
    exact List.drop_left'
      (Lib.Record.length_pack (fits_loginMember c inbound))
  rw [sendLoginRequest_eq]
  unfold readLogin
  rw [if_pos]
  · rw [loginField_loginRequest c inbound (by decide),
      loginField_loginRequest c inbound (by decide),
      loginField_loginRequest c inbound (by decide),
      loginField_loginRequest c inbound (by decide), hdrop]
    unfold loginMember
    dsimp only
    rw [hnum, readParamGroups_loginRequest c inbound]
    rfl
  · rw [loginField_loginRequest c inbound (by decide),
      loginField_loginRequest c inbound (by decide), hlen]
    refine ⟨rfl, ?_⟩
    unfold loginMember
    dsimp only
    rw [hlength]
    omega

/-- A unit is in the request if something has come from it. -/
theorem find?_unitSequences (unit : UInt8) :
    ((unitSequences inbound).find? fun u => u.unitNumber = unit).map
        (·.unitSequence)
      = if 1 ≤ unit.toNat ∧ unit.toNat ≤ 32 ∧ inbound unit ≠ 0 then
          some (inbound unit)
        else none := by
  cases hfind : (unitSequences inbound).find? fun u => u.unitNumber = unit with
  | some u =>
      have hunit : u.unitNumber = unit := by
        have hsome := List.find?_some hfind
        exact of_decide_eq_true hsome
      obtain ⟨hone, hmax, hseq, hne⟩ :=
        mem_unitSequences (List.mem_of_find?_eq_some hfind)
      rw [hunit] at hone hmax hseq
      rw [hseq] at hne
      rw [if_pos ⟨hone, hmax, hne⟩, Option.map_some, hseq]
  | none =>
      have hnot := List.find?_eq_none.mp hfind
      rw [if_neg]
      · rfl
      · rintro ⟨hone, hmax, hne⟩
        have hunit : UInt8.ofNat (unit.toNat - 1 + 1) = unit := by
          rw [Nat.sub_add_cancel hone]
          exact UInt8.ofNat_toNat
        have hmem : (⟨unit, inbound unit⟩ : UnitNumberSequencePair)
            ∈ unitSequences inbound := by
          refine List.mem_filterMap.mpr ⟨unit.toNat - 1, ?_, ?_⟩
          · unfold numberOfMatchingUnits
            exact List.mem_range.mpr (by omega)
          · dsimp only
            rw [hunit, if_pos hne]
        exact hnot _ hmem (decide_eq_true rfl)

/-- It knows what to return of each kind of message. -/
theorem bitsFor_loginOf (m : ReturnMessage) :
    (loginOf c inbound).bitsFor m.messageType = m.returnBitfields := by
  have hunits : (if unitSequences inbound ≠ [] then
      [ParamGroup.unitSequences true (unitSequences inbound)]
      else []).findSome? (·.bitsFor m.messageType) = none := by
    split <;> rfl
  unfold Login.bitsFor loginOf
  rw [List.findSome?_append, hunits]
  cases m <;> rfl

/-- And where to replay each unit from. -/
theorem unitSequence_loginOf (unit : UInt8) :
    (loginOf c inbound).unitSequence unit
      = if 1 ≤ unit.toNat ∧ unit.toNat ≤ 32 ∧ inbound unit ≠ 0 then
          some (inbound unit)
        else none := by
  have hbits : (ReturnMessage.all.map fun m =>
      ParamGroup.returnBitfields m.messageType m.returnBitfields).findSome?
      (·.unitSequence unit) = none := rfl
  rw [← find?_unitSequences]
  unfold Login.unitSequence loginOf
  rw [List.findSome?_append, hbits, Option.or_none]
  split
  case isTrue => rw [List.findSome?_singleton]; rfl
  case isFalse hunits =>
    rw [not_not.mp hunits]
    rfl

/-- The login request is one message of the stream. -/
theorem wellFormed_loginRequest : WellFormed (loginRequest c inbound) := by
  have hlen := length_loginRequest c inbound
  have hlt := loginLength_lt inbound
  have hlong : 29 ≤ loginLength inbound := by
    unfold loginLength
    omega
  have hstart : loginField (loginRequest c inbound) .startOfMessage = _ :=
    loginField_loginRequest c inbound (by decide)
  have hlength : loginField (loginRequest c inbound) .messageLength = _ :=
    loginField_loginRequest c inbound (by decide)
  have hread : messageLength (loginRequest c inbound)
      = loginLength inbound - 2 := by
    unfold messageLength startOfMessageSize
    rw [Lib.le16_eq_leNat (by omega)]
    show leNat (loginField _ .messageLength) = _
    rw [hlength]
    exact Lib.leNat_leBytes_of_lt (by omega)
  refine ⟨?_, ?_, ?_⟩
  · unfold startOfMessage
    rw [Lib.le16_eq_leNat (by omega)]
    show leNat (loginField _ .startOfMessage) = _
    rw [hstart]
    rfl
  · rw [hread, hlen]
    unfold startOfMessageSize
    omega
  · rw [hread]
    unfold loginLength sizeofReturnBitfieldsGroup
    omega

/-- Whatever has come in so far: the exchange finds in the login request the
credentials, the last number of every unit that something has come from and
of no other, and the bits that the session goes by; and the request is one
message of the stream, whatever memory it was built in. -/
theorem login_read_back (mem : Bytes) :
    WellFormed (sendLoginRequest c inbound mem)
      ∧ ∃ l, readLogin (sendLoginRequest c inbound mem) = some l
        ∧ l.sessionSubID = c.sessionSubID ∧ l.username = c.username
        ∧ l.password = c.password
        ∧ (∀ unit, l.unitSequence unit
          = if 1 ≤ unit.toNat ∧ unit.toNat ≤ 32 ∧ inbound unit ≠ 0 then
              some (inbound unit)
            else none)
        ∧ ∀ m : ReturnMessage, l.bitsFor m.messageType = m.returnBitfields :=
  ⟨by rw [sendLoginRequest_eq]; exact wellFormed_loginRequest c inbound,
    loginOf c inbound, readLogin_sendLoginRequest c inbound mem, rfl, rfl,
    rfl, unitSequence_loginOf c inbound, bitsFor_loginOf c inbound⟩

end Login

-- ================================================================ messages

/-- The bits that are asked for choose the fields of the struct. -/
theorem chosen_returnBitfields (m : ReturnMessage) :
    chosen m.bitfields m.returnBitfields = m.optionalFields := by
  cases m <;> rfl

/-- There are eight bytes of bits for every kind. -/
theorem length_returnBitfields (m : ReturnMessage) :
    m.returnBitfields.length = 8 := by
  cases m <;> rfl

/-- The kinds have codes of their own. -/
theorem ofMessageType_messageType (m : ReturnMessage) :
    ReturnMessage.ofMessageType m.messageType = some m := by
  cases m <;> rfl

/-- The members that `ExchangeMessage.member` fills in. -/
def framing : List Field :=
  [.startOfMessage, .messageLength, .messageType, .numberOfReturnBitfields,
    .returnBitfields]

/-- The handlers of sequenced messages read members of the struct that the
exchange chose the values of. -/
theorem sequencedOf_congr {m : ReturnMessage} {get get' : Field → Bytes}
    (h : ∀ f ∈ m.inboundMsgBuffer, f ∉ framing → get f = get' f) :
    sequencedOf m get = sequencedOf m get' := by
  have hunit : get .matchingUnit = get' .matchingUnit :=
    h _ (by cases m <;> decide) (by decide)
  have hnumber : get .sequenceNumber = get' .sequenceNumber :=
    h _ (by cases m <;> decide) (by decide)
  have htime : get .transactionTime = get' .transactionTime :=
    h _ (by cases m <;> decide) (by decide)
  have hid : get .clOrdID = get' .clOrdID :=
    h _ (by cases m <;> decide) (by decide)
  unfold sequencedOf
  dsimp only
  rw [hunit, hnumber, htime, hid]
  cases m with
  | orderAcknowledgment =>
      dsimp only
      rw [h .orderID (by decide) (by decide), h .side (by decide) (by decide),
        h .price (by decide) (by decide), h .ordType (by decide) (by decide),
        h .timeInForce (by decide) (by decide),
        h .symbol (by decide) (by decide), h .orderQty (by decide) (by decide),
        h .leavesQty (by decide) (by decide)]
  | orderExecution =>
      dsimp only
      rw [h .lastShares (by decide) (by decide),
        h .lastPx (by decide) (by decide)]
  | orderCancelled =>
      dsimp only
      rw [h .leavesQty (by decide) (by decide)]
  | orderModified =>
      dsimp only
      rw [h .leavesQty (by decide) (by decide)]
  | orderRestated =>
      dsimp only
      rw [h .orderQty (by decide) (by decide),
        h .leavesQty (by decide) (by decide)]
  | tradeCancelOrCorrect => rfl
  | orderRejected => rfl
  | userModifyRejected => rfl
  | cancelRejected => rfl

namespace ExchangeMessage

variable (x : ExchangeMessage)

/-- A field outside the framing is the exchange's to fill in. -/
theorem member_of_not_mem_framing (bits : Bytes) {f : Field}
    (h : f ∉ framing) : x.member bits f = x.value f := by
  unfold member
  split
  · exact absurd (by decide) h
  · exact absurd (by decide) h
  · exact absurd (by decide) h
  · exact absurd (by decide) h
  · exact absurd (by decide) h
  · rfl

/-- The bits that the session goes by. -/
abbrev askedBits : Bytes := x.type.returnBitfields

/-- Every field is as wide as the struct has it. -/
theorem length_member (f : Field) :
    (x.member x.askedBits f).length = f.width := by
  unfold member
  split
  · rfl
  · exact Lib.length_leBytes _ _
  · rfl
  · rfl
  · exact length_returnBitfields x.type
  · exact x.length_value f

/-- With these the exchange sends the struct. -/
theorem fields_askedBits : x.fields x.askedBits = x.type.inboundMsgBuffer := by
  unfold fields ReturnMessage.inboundMsgBuffer
  rw [chosen_returnBitfields]

/-- So a message is as long as the buffer it is read into. -/
theorem length_bytes :
    (x.bytes x.askedBits).length = size Field.width x.type.inboundMsgBuffer := by
  unfold bytes
  rw [Lib.Record.length_pack fun f _ => x.length_member f, fields_askedBits]

/-- A member is read as it was sent. -/
theorem read_bytes {f : Field} (hf : f ∈ x.type.inboundMsgBuffer) :
    x.type.read (x.bytes x.askedBits) f = x.member x.askedBits f := by
  have hread := Lib.Record.bytesAt_pack (fun f _ => x.length_member f) hf []
  rw [List.append_nil] at hread
  unfold ReturnMessage.read bytes
  rw [fields_askedBits]
  exact hread

/-- And the receive path takes it as one message. -/
theorem wellFormed_bytes : WellFormed (x.bytes x.askedBits) := by
  have hlen := x.length_bytes
  have hmin : 10 ≤ size Field.width x.type.inboundMsgBuffer := by
    cases x.type <;> decide
  have hmax : size Field.width x.type.inboundMsgBuffer < 65536 := by
    cases x.type <;> decide
  have hstart : x.type.read (x.bytes x.askedBits) .startOfMessage = _ :=
    x.read_bytes (by cases x.type <;> decide)
  have hlength : x.type.read (x.bytes x.askedBits) .messageLength = _ :=
    x.read_bytes (by cases x.type <;> decide)
  have hoffset : offset Field.width x.type.inboundMsgBuffer .startOfMessage
      = 0 := by
    cases x.type <;> rfl
  have hoffset' : offset Field.width x.type.inboundMsgBuffer .messageLength
      = 2 := by
    cases x.type <;> rfl
  unfold ReturnMessage.read at hstart hlength
  rw [hoffset] at hstart
  rw [hoffset'] at hlength
  have hread : messageLength (x.bytes x.askedBits)
      = size Field.width x.type.inboundMsgBuffer - 2 := by
    unfold messageLength startOfMessageSize
    rw [Lib.le16_eq_leNat (by omega)]
    show leNat (bytesAt _ 2 Field.messageLength.width) = _
    rw [hlength]
    show leNat (leBytes 2 (size Field.width (x.fields x.askedBits) - 2)) = _
    rw [fields_askedBits]
    exact Lib.leNat_leBytes_of_lt (by omega)
  refine ⟨?_, ?_, ?_⟩
  · unfold startOfMessage
    rw [Lib.le16_eq_leNat (by omega)]
    show leNat (bytesAt _ 0 Field.startOfMessage.width) = _
    rw [hstart]
    rfl
  · rw [hread, hlen]
    unfold startOfMessageSize
    omega
  · rw [hread]
    omega

/-- What a handler makes of a message is what was meant. -/
theorem sequenced_bytes : sequenced (x.bytes x.askedBits) = x.meaning := by
  have hoffset : offset Field.width x.type.inboundMsgBuffer .messageType
      = 4 := by
    cases x.type <;> rfl
  have htype : x.type.read (x.bytes x.askedBits) .messageType
      = [x.type.messageType] :=
    x.read_bytes (by cases x.type <;> decide)
  have hbyte : byteAt (x.bytes x.askedBits) 4 = x.type.messageType := by
    unfold ReturnMessage.read at htype
    rw [hoffset] at htype
    exact Lib.byteAt_of_bytesAt htype
  unfold sequenced meaning
  rw [hbyte, ofMessageType_messageType, Option.bind_some]
  refine sequencedOf_congr fun f hf hframing => ?_
  rw [x.read_bytes hf, x.member_of_not_mem_framing _ hframing]

end ExchangeMessage

-- ================================================================== stream

section Stream

variable (c : Credentials) (inbound : UInt8 → UInt32) (mem : Bytes)

/-- An exchange that has read the login request leaves out of a message what
the request has no bit for. Whatever it sends, each member of the struct that
the session casts the message to is where the session looks for it. -/
theorem members_read_back {l : Login}
    (hl : readLogin (sendLoginRequest c inbound mem) = some l)
    (x : ExchangeMessage) {f : Field} (hf : f ∈ x.type.inboundMsgBuffer)
    (hvalue : f ∉ framing) :
    x.type.read (x.bytes (l.bitsFor x.type.messageType)) f = x.value f := by
  rw [readLogin_sendLoginRequest] at hl
  obtain rfl := Option.some.inj hl
  rw [bitsFor_loginOf, x.read_bytes hf, x.member_of_not_mem_framing _ hvalue]

/-- A session that has heard from one unit. -/
def someCredentials : Credentials :=
  ⟨[48, 48, 48, 49], [85, 83, 69, 82], List.replicate 10 80, rfl, rfl, rfl⟩

def heardFromThree : UInt8 → UInt32 := fun unit => if unit = 3 then 7 else 0

/-- A message all of whose fields are zero. -/
def blank (m : ReturnMessage) : ExchangeMessage where
  type := m
  value f := List.replicate f.width 0
  length_value _ := List.length_replicate

theorem members_read_back_demo :
    ReturnMessage.orderCancelled.read ((blank .orderCancelled).bytes
      ((loginOf someCredentials heardFromThree).bitsFor 0x2A)) .leavesQty
      = [0, 0, 0, 0] :=
  members_read_back someCredentials heardFromThree []
    (readLogin_sendLoginRequest someCredentials heardFromThree [])
    (blank .orderCancelled) (by decide) (by decide)

end Stream

end BOE20

end TradingEngine.OE
