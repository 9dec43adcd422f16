/-
When a handshake that was written is read.

`handshakeEventBuf_agrees` says what the wrapper makes of a buffer that
agrees with a handshake as far as both go, by the length of the buffer
alone. Two of its steps are not those of the layout. Before 104 bytes
nothing is read, as the 50 bytes of the net event are asked for twice. And
from the length of the alias on the buffer is valid, whether the alias is
there or not. So a handshake is read back from 104 bytes on, and a piece of
it is refused up to 103 bytes or up to the length of the alias
(`readBack_iff`, `refused_iff`).

# Agreement

A buffer of which a handshake is a beginning, and one that is a beginning of
a handshake, are both cases of `Agrees`: every number that the wrapper reads
of such a buffer is that of the handshake, once the buffer is long enough for
it. So the wrapper is gone through once, check by check, and the two results
are read off by comparing lengths.
-/
import TradingEngine.TS.TPSHandshake
import TradingEngine.TS.Proofs.TPSServer

namespace TradingEngine.TS.TPS

open Lib (le16 leBytes bytesAt byteAt)

-- =================================================================== layout

/-- The `Inst` of an event. -/
@[simp] theorem length_inst (instType instId : UInt32) :
    (inst instType instId).length = 8 := by
  simp [inst]

/-- A timestamp of an event. -/
@[simp] theorem length_timeType (secs nsecs : UInt64) :
    (timeType secs nsecs).length = 16 := by
  simp [timeType]

/-- `EventBuf` as written. -/
@[simp] theorem length_event (et : EventType) :
    (event et).length = eventBufSize := by
  simp [event, eventBufSize]

/-- `NetEventBuf` as written. -/
@[simp] theorem length_netEvent (et : EventType) :
    (netEvent et).length = netEventBufSize := by
  simp [netEvent, eventBufSize, netEventBufSize]

/-- `num_bytes_needed` is what the constructor writes. -/
theorem length_handshakeEvent (version name : DataBuffer) :
    (handshakeEvent version name).length
      = numBytesNeeded version name := by
  simp [handshakeEvent, numBytesNeeded, handshakeLayoutSize]
  omega

/-- The fixed part, and the two strings with the length of the second between
them. -/
theorem numBytesNeeded_eq (version name : DataBuffer) :
    numBytesNeeded version name
      = handshakeEventBufSize + version.length + 2 + name.length := by
  unfold numBytesNeeded netEventBufSize handshakeLayoutSize
    handshakeEventBufSize
  omega

/-- What stands before the strings. -/
def handshakeHead (version : DataBuffer) : DataBuffer :=
  netEvent .handshakeEvent ++ [0, 1] ++ leBytes 2 version.length

/-- The head is the struct of the layout. -/
theorem length_handshakeHead (version : DataBuffer) :
    (handshakeHead version).length = handshakeEventBufSize := by
  simp [handshakeHead, netEventBufSize, handshakeEventBufSize]

/-- A handshake by its parts. -/
theorem handshakeEvent_eq (version name : DataBuffer) :
    handshakeEvent version name
      = handshakeHead version ++ (version
        ++ (leBytes 2 name.length ++ name)) := by
  simp [handshakeEvent, handshakeHead]

/-- A number of two bytes behind some others. -/
theorem le16_append_leBytes {n : Nat} (hn : n < 65536)
    (bs cs : DataBuffer) :
    le16 (bs ++ (leBytes 2 n ++ cs)) bs.length = n := by
  have hlow : byteAt (bs ++ (leBytes 2 n ++ cs)) bs.length = .ofNat n := by
    simp [byteAt, leBytes, List.getD_eq_getElem?_getD]
  have hhigh : byteAt (bs ++ (leBytes 2 n ++ cs)) (bs.length + 1)
      = .ofNat (n / 256) := by
    simp [byteAt, leBytes, List.getD_eq_getElem?_getD]
  unfold le16
  rw [hlow, hhigh]
  simp
  omega

/-- The length of the version, written in two bytes, is read back. -/
theorem versionStringLen_handshakeEvent {version : DataBuffer}
    (h : version.length < 65536) (name : DataBuffer) :
    versionStringLen (handshakeEvent version name) = version.length := by
  have hlen : (netEvent .handshakeEvent ++ [0, 1]).length = 52 := by
    simp [netEventBufSize]
  have hle := le16_append_leBytes h (netEvent .handshakeEvent ++ [0, 1])
    (version ++ (leBytes 2 name.length ++ name))
  rw [hlen] at hle
  unfold versionStringLen handshakeEvent
  simpa using hle

/-- The length of the alias is read where the version ends. -/
theorem aliasLen_handshakeEvent {version name : DataBuffer}
    (hv : version.length < 65536) (ha : name.length < 65536) :
    aliasLen (handshakeEvent version name) = name.length := by
  have hle := le16_append_leBytes ha (handshakeHead version ++ version) name
  rw [List.length_append, length_handshakeHead] at hle
  unfold aliasLen
  rw [versionStringLen_handshakeEvent hv, handshakeEvent_eq]
  simpa using hle

-- ================================================================ agreement

/-- Two buffers that are the same as far as both go. -/
def Agrees (buf e : DataBuffer) : Prop := buf <+: e ∨ e <+: buf

/-- Buffers agree if both begin one that is longer. -/
theorem Agrees.exists_append {buf e : DataBuffer} (h : Agrees buf e) :
    ∃ x y, buf ++ x = e ++ y := by
  rcases h with ⟨x, hx⟩ | ⟨y, hy⟩
  · exact ⟨x, [], by simp [hx]⟩
  · exact ⟨[], y, by simp [hy]⟩

/-- Numbers that both have are the same. -/
theorem Agrees.le16_eq {buf e : DataBuffer} (h : Agrees buf e) {i : Nat}
    (hbuf : i + 1 < buf.length) (he : i + 1 < e.length) :
    le16 buf i = le16 e i := by
  obtain ⟨x, y, hxy⟩ := h.exists_append
  exact Lib.le16_of_append_eq hbuf he hxy

/-- A piece that both have. -/
theorem Agrees.bytesAt_eq {buf bs cs ds : DataBuffer}
    (h : Agrees buf (bs ++ (cs ++ ds)))
    (hlen : bs.length + cs.length ≤ buf.length) :
    bytesAt buf bs.length cs.length = cs := by
  obtain ⟨x, y, hxy⟩ := h.exists_append
  have htake := congrArg (fun l => bytesAt l bs.length cs.length) hxy
  unfold bytesAt at htake ⊢
  rw [List.drop_append_of_le_length (by omega),
    List.take_append_of_le_length (by rw [List.length_drop]; omega)]
    at htake
  rw [htake]
  simp

section Handshake

variable {version name buf : DataBuffer}
  (hv : version.length < 65536) (ha : name.length < 65536)
  (h : Agrees buf (handshakeEvent version name))

include h

/-- The net event is taken by length alone, as its versions are the expected
ones. -/
theorem netEventBufWrapper_agrees :
    netEventBufWrapper buf
      = if buf.length < netEventBufSize then ⟨false, 0⟩
        else ⟨true, netEventBufSize⟩ := by
  have hlen := length_handshakeEvent version name
  unfold numBytesNeeded netEventBufSize handshakeLayoutSize at hlen
  by_cases hnet : buf.length < netEventBufSize
  · rw [if_pos hnet]
    unfold netEventBufWrapper layoutWrapper
    cases hw : (eventBufWrapper buf).valid with
    | false =>
        rw [if_neg Bool.false_ne_true]
        unfold eventBufWrapper at hw ⊢
        split at hw
        · split at hw
          · cases hw
          · rw [if_pos ‹_›, if_neg ‹_›]
        · rw [if_neg ‹_›]
    | true => rw [if_pos rfl, if_neg (by omega)]
  · rw [if_neg hnet]
    unfold netEventBufSize at hnet
    have hevent : le16 buf 0 = EventBuf.expectedVersion := by
      rw [h.le16_eq (by omega) (by omega)]
      rfl
    have hown : le16 buf eventBufSize = NetEventBuf.expectedVersion := by
      unfold eventBufSize
      rw [h.le16_eq (by omega) (by omega)]
      rfl
    have hbase : eventBufWrapper buf = ⟨true, eventBufSize⟩ := by
      unfold eventBufWrapper
      rw [if_pos (by unfold eventBufSize; omega), if_pos hevent]
    unfold netEventBufWrapper layoutWrapper
    rw [hbase, if_pos rfl, if_pos hown,
      if_pos (by unfold netEventBufSize; omega)]

/-- The version of the layout. -/
theorem ownVersion_agrees (hlen : handshakeEventBufSize ≤ buf.length) :
    le16 buf netEventBufSize = HandshakeEventBuf.expectedVersion := by
  have hneeded := length_handshakeEvent version name
  unfold numBytesNeeded netEventBufSize handshakeLayoutSize at hneeded
  unfold handshakeEventBufSize at hlen
  unfold netEventBufSize
  rw [h.le16_eq (by omega) (by omega)]
  rfl

/-- The version string, once it is there. -/
theorem versionBytes_agrees
    (hlen : handshakeEventBufSize + version.length ≤ buf.length) :
    bytesAt buf handshakeEventBufSize version.length = version := by
  rw [handshakeEvent_eq] at h
  rw [← length_handshakeHead version] at hlen ⊢
  exact h.bytesAt_eq hlen

/-- The alias, once it is there. -/
theorem aliasBytes_agrees (hlen : numBytesNeeded version name ≤ buf.length) :
    bytesAt buf (handshakeEventBufSize + version.length + 2) name.length
      = name := by
  have hneeded := numBytesNeeded_eq version name
  have hfront : (handshakeHead version ++ version
      ++ leBytes 2 name.length).length
        = handshakeEventBufSize + version.length + 2 := by
    simp [length_handshakeHead]
    omega
  have happ : handshakeEvent version name
      = (handshakeHead version ++ version ++ leBytes 2 name.length)
        ++ (name ++ []) := by
    simp [handshakeEvent_eq]
  rw [happ] at h
  rw [← hfront]
  exact h.bytesAt_eq (by omega)

include hv

/-- The length of the version string, once the struct is there. -/
theorem versionStringLen_agrees
    (hlen : handshakeEventBufSize ≤ buf.length) :
    versionStringLen buf = version.length := by
  have hneeded := length_handshakeEvent version name
  unfold numBytesNeeded netEventBufSize handshakeLayoutSize at hneeded
  unfold handshakeEventBufSize at hlen
  rw [← versionStringLen_handshakeEvent hv name]
  exact h.le16_eq (by omega) (by omega)

include ha

/-- The length of the alias, once the version string is there. -/
theorem aliasLen_agrees
    (hlen : handshakeEventBufSize + version.length + 2 ≤ buf.length) :
    aliasLen buf = name.length := by
  have hneeded := length_handshakeEvent version name
  unfold numBytesNeeded netEventBufSize handshakeLayoutSize at hneeded
  rw [← aliasLen_handshakeEvent hv ha]
  unfold aliasLen
  rw [versionStringLen_agrees hv h (by omega),
    versionStringLen_handshakeEvent hv]
  unfold handshakeEventBufSize at hlen ⊢
  exact h.le16_eq (by omega) (by omega)

/-- What the wrapper makes of a buffer that agrees with a handshake. -/
theorem handshakeEventBuf_agrees :
    handshakeEventBuf buf
      = if buf.length < handshakeWait then .invalid none
        else if buf.length < handshakeEventBufSize + version.length then
          .invalid none
        else if buf.length < handshakeEventBufSize + version.length + 2 then
          .invalid (some version)
        else if buf.length < numBytesNeeded version name then
          ⟨⟨true, handshakeEventBufSize + version.length + 2⟩,
            some version, none⟩
        else ⟨⟨true, numBytesNeeded version name⟩, some version,
          some name⟩ := by
  have hnet := netEventBufWrapper_agrees h
  have hneeded := numBytesNeeded_eq version name
  unfold handshakeEventBuf
  by_cases hwait : buf.length < handshakeWait
  · rw [if_pos hwait]
    unfold handshakeWait at hwait
    by_cases hshort : buf.length < netEventBufSize
    · rw [hnet, if_pos hshort]
      rfl
    · rw [hnet, if_neg hshort]
      dsimp only
      rw [if_pos rfl, if_pos (by omega)]
  · rw [if_neg hwait]
    unfold handshakeWait at hwait
    have hown := ownVersion_agrees h (by omega)
    rw [if_neg (by omega)] at hnet
    rw [hnet]
    dsimp only
    rw [if_pos rfl, if_neg (by omega), if_neg (not_not_intro hown),
      versionStringLen_agrees hv h (by omega)]
    by_cases hversion
        : buf.length < handshakeEventBufSize + version.length
    · rw [if_pos hversion, if_neg (by omega)]
    · have hstring := versionBytes_agrees h (by omega)
      rw [if_neg hversion, if_pos (by omega), hstring]
      by_cases hlength
          : buf.length < handshakeEventBufSize + version.length + 2
      · rw [if_pos hlength, if_neg (by omega)]
      · rw [if_neg hlength, if_pos (by omega),
          aliasLen_agrees hv ha h (by omega)]
        by_cases hname : buf.length < numBytesNeeded version name
        · rw [if_pos hname, if_neg (by omega)]
        · have hbytes := aliasBytes_agrees h (by omega)
          rw [if_neg hname, if_pos (by omega), hbytes, hneeded]

end Handshake

/-- What `handle_raw_bytes` sees of the wrapper. -/
theorem handshakeEventBuf_wrapper (buf : DataBuffer) :
    (handshakeEventBuf buf).toEventBufWrapper
      = handshakeEventBufWrapper buf := by
  unfold handshakeEventBuf handshakeEventBufWrapper
  dsimp only
  repeat' split
  all_goals rfl

-- =============================================================== round trip

/-- The buffer is read as the handshake with these strings. -/
structure ReadBack (version name buf : DataBuffer) : Prop where
  valid : (handshakeEventBuf buf).valid = true
  bytesRead : (handshakeEventBuf buf).bytesRead = numBytesNeeded version name
  version : (handshakeEventBuf buf).versionString = some version
  name : (handshakeEventBuf buf).aliasString = some name

/-- A handshake at the front is read back, and a piece of one is not. -/
structure RoundTrips (version name buf : DataBuffer) : Prop where
  whole : handshakeEvent version name <+: buf → ReadBack version name buf
  piece : buf <+: handshakeEvent version name →
    buf ≠ handshakeEvent version name → (handshakeEventBuf buf).valid = false

/-- A proper piece is shorter. -/
theorem length_lt_of_piece {version name buf : DataBuffer}
    (h : buf <+: handshakeEvent version name)
    (hne : buf ≠ handshakeEvent version name) :
    buf.length < numBytesNeeded version name := by
  rw [← length_handshakeEvent]
  apply Nat.lt_of_le_of_ne h.length_le
  intro heq
  exact hne (h.eq_of_length heq)

section RoundTrip

variable {version name : DataBuffer} (hv : version.length < 65536)
  (ha : name.length < 65536)

include hv ha

/-- A handshake is read back from 104 bytes on, whatever follows it. -/
theorem readBack_iff {buf : DataBuffer}
    (h : handshakeEvent version name <+: buf) :
    ReadBack version name buf ↔ handshakeWait ≤ buf.length := by
  have heq := handshakeEventBuf_agrees hv ha (.inr h)
  have hlen := h.length_le
  have hneeded := numBytesNeeded_eq version name
  rw [length_handshakeEvent] at hlen
  by_cases hwait : buf.length < handshakeWait
  · rw [if_pos hwait] at heq
    constructor
    · intro hread
      have hvalid := hread.valid
      rw [heq] at hvalid
      cases hvalid
    · intro hle
      omega
  · rw [if_neg hwait, if_neg (by omega), if_neg (by omega),
      if_neg (by omega)] at heq
    constructor
    · intro _
      omega
    · intro _
      constructor <;> rw [heq] <;> rfl

/-- A piece is refused as long as the length of its alias is not there, or the
104 bytes. -/
theorem refused_iff {buf : DataBuffer}
    (h : buf <+: handshakeEvent version name)
    (hne : buf ≠ handshakeEvent version name) :
    (handshakeEventBuf buf).valid = false
      ↔ buf.length < handshakeWait
        ∨ buf.length < handshakeEventBufSize + version.length + 2 := by
  have hlen := length_lt_of_piece h hne
  rw [handshakeEventBuf_agrees hv ha (.inl h)]
  unfold HandshakeEventBufWrapper.invalid
  split
  · exact ⟨fun _ => .inl ‹_›, fun _ => rfl⟩
  · split
    · simp
      omega
    · split
      · simp
        omega
      · simp
        omega

/-- Both together, for any buffer. -/
theorem roundTrips_iff (buf : DataBuffer) :
    RoundTrips version name buf
      ↔ (handshakeEvent version name <+: buf → handshakeWait ≤ buf.length)
        ∧ (buf <+: handshakeEvent version name →
          buf ≠ handshakeEvent version name →
            buf.length < handshakeWait
              ∨ buf.length
                < handshakeEventBufSize + version.length + 2) := by
  constructor
  · intro h
    exact ⟨fun hpre => (readBack_iff hv ha hpre).mp (h.whole hpre),
      fun hpre hne => (refused_iff hv ha hpre hne).mp (h.piece hpre hne)⟩
  · intro h
    exact ⟨fun hpre => (readBack_iff hv ha hpre).mpr (h.1 hpre),
      fun hpre hne => (refused_iff hv ha hpre hne).mpr (h.2 hpre hne)⟩

/-- The strings whose handshake round trips, whatever the buffer: the two
lengths come to 104 bytes with the rest, or there is no alias and they come
to more. -/
theorem forall_roundTrips_iff :
    (∀ buf, RoundTrips version name buf)
      ↔ version.length + name.length = 48
        ∨ name = [] ∧ 48 ≤ version.length := by
  have hlen := length_handshakeEvent version name
  have hneeded := numBytesNeeded_eq version name
  have hwait : handshakeWait = 104 := rfl
  have hsize : handshakeEventBufSize = 54 := rfl
  have hnil : name = [] ↔ name.length = 0 := List.length_eq_zero_iff.symm
  rw [hnil]
  constructor
  · intro h
    have hwhole := ((roundTrips_iff hv ha _).mp
      (h (handshakeEvent version name))).1 (List.prefix_refl _)
    -- all but the last byte
    have hpiece := ((roundTrips_iff hv ha _).mp
      (h ((handshakeEvent version name).take
        (numBytesNeeded version name - 1)))).2 (List.take_prefix _ _)
    rw [List.length_take] at hpiece
    have hne : (handshakeEvent version name).take
        (numBytesNeeded version name - 1) ≠ handshakeEvent version name := by
      intro heq
      have hlength := congrArg List.length heq
      rw [List.length_take] at hlength
      omega
    have hshort := hpiece hne
    omega
  · intro h buf
    rw [roundTrips_iff hv ha]
    constructor
    · intro hpre
      have hle := hpre.length_le
      omega
    · intro hpre hne
      have hlt := length_lt_of_piece hpre hne
      omega

/-- A handshake is read back exactly from 104 bytes on, and a piece of it
refused exactly up to there or up to its alias. -/
theorem handshake_roundTrips :
    (∀ buf, RoundTrips version name buf
        ↔ (handshakeEvent version name <+: buf →
            handshakeWait ≤ buf.length)
          ∧ (buf <+: handshakeEvent version name →
            buf ≠ handshakeEvent version name →
              buf.length < handshakeWait
                ∨ buf.length
                  < handshakeEventBufSize + version.length + 2))
      ∧ ((∀ buf, RoundTrips version name buf)
        ↔ version.length + name.length = 48
          ∨ name = [] ∧ 48 ≤ version.length) :=
  ⟨roundTrips_iff hv ha, forall_roundTrips_iff hv ha⟩

end RoundTrip

/-- With the version of the server, an alias of 36 bytes. -/
theorem handshake_roundTrips_alias :
    RoundTrips expectedVersionString (List.replicate 36 65)
      (handshakeEvent expectedVersionString (List.replicate 36 65)) :=
  (handshake_roundTrips (by decide) (by decide)).2.mpr (.inl (by decide)) _

/-- With a shorter alias the handshake is refused whole. -/
theorem not_roundTrips_short :
    ¬∀ version name : DataBuffer, version.length < 65536 →
      name.length < 65536 → ∀ buf, RoundTrips version name buf := by
  intro h
  have hread := (h expectedVersionString [65] (by decide) (by decide)
    (handshakeEvent expectedVersionString [65])).whole (List.prefix_refl _)
  exact absurd hread.valid (by decide)

end TradingEngine.TS.TPS
