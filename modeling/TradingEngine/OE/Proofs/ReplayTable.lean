/-
The table of orders under any log.

A handler extends the table to the id of its record and then indexes it,
and three things keep that from being enough. An id of 2^32-1 extends it
to nothing, the sum wraps; a record of an order that was sent in an
instrument there is not skips the extension; and then its null pointer
goes wherever the id points, over an order that is stored there
(`tableKept_iff`). In a run without such records the table is as long as
the ids say, every index is in range and a stored order stays.

# The invariant

The table is one longer than the last id, the sum with one fits 32 bits, and
an entry is null or the order of its index (`ReplayInv`). Each handler is
first `decode` on the 32-bit sum (`decodeU32_spec`), exactly under its
condition, and what it leaves is again such a table. The run lemma is the
induction over the log. Where the ids are clear of the wrap and the
instruments are known, the handlers are those of the other replay results
(`decodeU32_eq`).
-/
import TradingEngine.OE.ReplayTable
import TradingEngine.OE.Proofs.Reader

namespace TradingEngine.OE

variable {ι : Type}

namespace OrderManager

-- ============================================================== statements

/-- What one record is to keep. -/
structure TableKept (om : OrderManager ℕ ι) (m : Message ι)
    (h : Handled ι) : Prop where
  aligned : h.om.Aligned
  access : ∀ i ∈ h.access, i < h.om.orders.length
  /-- Nothing that is stored is overwritten, in the table or behind it. -/
  stored : m.type = .orderSent → ∀ i p, om.orderAt i = some p →
    h.om.orderAt i = some p ∧ h.om.order p = om.order p

variable [DecidableEq ι]

/-- The records that keep it: no id of 2^32-1 where the table is indexed,
and without an instrument the id of an entry that is null. -/
def Indexable (valid : ι → Bool) (om : OrderManager ℕ ι) (m : Message ι) :
    Prop :=
  match m.type, m.body with
  | .orderLocalReject, .orderLocalReject _ => True
  | .orderSent, .orderSent b =>
      if valid b.instrumentEsi then b.oid.localID ≠ 4294967295
      else b.oid.localID ≤ om.localID ∧ om.orderAt b.oid.localID = none
  | _, _ => ∀ u ∈ logUpdate m, u.1.localID ≠ 4294967295

instance (valid : ι → Bool) (om : OrderManager ℕ ι) (m : Message ι) :
    Decidable (Indexable valid om m) := by
  unfold Indexable
  split <;> infer_instance

-- =============================================================== invariant

omit [DecidableEq ι] in
/-- An id in range of the table, which is as long as the ids say. -/
theorem Aligned.lt_length {om : OrderManager ℕ ι} (h : om.Aligned)
    {lid : Nat} (hle : lid ≤ om.localID) : lid < om.orders.length := by
  unfold Aligned at h
  omega

structure ReplayInv (om : OrderManager ℕ ι) : Prop where
  aligned : om.Aligned
  small : om.localID + 1 < 4294967296
  /-- A replayed order goes by the id it is stored at. -/
  own : ∀ i p, om.orderAt i = some p → p = i

omit [DecidableEq ι] in
theorem orderAt_of_le {om : OrderManager ℕ ι} {lid : Nat}
    (h : om.orders.length ≤ lid) : om.orderAt lid = none := by
  unfold orderAt
  rw [List.getElem?_eq_none h]
  rfl

omit [DecidableEq ι] in
theorem ReplayInv.extended {om om' : OrderManager ℕ ι} (h : ReplayInv om)
    {lid : Nat} (hlid : lid + 1 < 4294967296)
    (hext : om.Extended lid om') : ReplayInv om' := by
  refine ⟨hext.aligned, ?_, fun i p hp => ?_⟩
  · rw [hext.localID]
    have hsmall := h.small
    omega
  · rw [hext.orderAt] at hp
    exact h.own i p hp

section Extension

variable {om : OrderManager ℕ ι} {oid : OrderIdentifier}

omit [DecidableEq ι] in
/-- Clear of the wrap the sum in 32 bits is the sum. -/
theorem extendLocalIDHelperU32_eq (om : OrderManager ℕ ι)
    {oid : OrderIdentifier} (h : oid.localID + 1 < 4294967296) :
    om.extendLocalIDHelperU32 oid = om.extendLocalIDHelper oid := by
  have hsum : u32 ((oid.localID : Int) + 1) = oid.localID + 1 := by
    exact_mod_cast u32_add_of_fits h
  unfold extendLocalIDHelperU32 extendLocalIDHelper extendLocalIDu32
    extendLocalID
  rw [hsum]

omit [DecidableEq ι] in
/-- The largest id is new to every table and extends none. -/
theorem extendLocalIDHelperU32_top (h : ReplayInv om)
    (htop : oid.localID = 4294967295) :
    om.extendLocalIDHelperU32 oid = (true, om) := by
  have hsmall := h.small
  have hnew : ¬ oid.localID ≤ om.localID := by omega
  have hwraps : u32 ((oid.localID : Int) + 1) = 0 := by
    rw [htop]
    rfl
  unfold extendLocalIDHelperU32 extendLocalIDu32
  rw [if_neg hnew, hwraps]
  rfl

end Extension

-- ================================================== records about an order

/-- What a handler may do to the table with the order it found: at most
clear an entry. -/
structure KeepsTable (om om' : OrderManager ℕ ι) : Prop where
  localID : om'.localID = om.localID
  length : om'.orders.length = om.orders.length
  orderAt : ∀ i p, om'.orderAt i = some p → om.orderAt i = some p

omit [DecidableEq ι] in
theorem ReplayInv.kept {om om' : OrderManager ℕ ι} (h : ReplayInv om)
    (hkeeps : KeepsTable om om') : ReplayInv om' := by
  refine ⟨?_, ?_, fun i p hp => h.own i p (hkeeps.orderAt i p hp)⟩
  · unfold Aligned
    rw [hkeeps.length, hkeeps.localID]
    exact h.aligned
  · rw [hkeeps.localID]
    exact h.small

theorem logUpdate_keeps {m : Message ι}
    {u : OrderIdentifier × (OrderManager ℕ ι → ℕ → OrderManager ℕ ι)}
    (hu : u ∈ logUpdate m) (om : OrderManager ℕ ι) (p : ℕ) :
    KeepsTable om (u.2 om p) := by
  have hclear : ∀ lid, KeepsTable om
      { om with orders := om.orders.set lid none } := by
    intro lid
    refine ⟨rfl, List.length_set .., fun i q hq => ?_⟩
    by_cases hlid : lid < om.orders.length
    · have hat : om.orderAt i = some q ∨ (none : Option ℕ) = some q := by
        have hset := orderAt_set om hlid none i
        rw [show (om.orders.set lid none)[i]?.join = some q from hq] at hset
        split at hset
        · exact .inr hset.symm
        · exact .inl hset.symm
      exact hat.resolve_right nofun
    · have hsame : om.orders.set lid none = om.orders :=
        List.set_eq_of_length_le (by omega)
      exact (congrArg (fun l : List (Option ℕ) => l[i]?.join)
        hsame).symm.trans hq
  unfold logUpdate at hu
  split at hu
  all_goals cases hu
  all_goals first
    | exact ⟨rfl, rfl, fun _ _ h => h⟩
    | exact hclear _

omit [DecidableEq ι] in
/-- Extend, then index: the index is in range unless it is the largest
id. -/
theorem onLogOrderU32_spec {om : OrderManager ℕ ι} (h : ReplayInv om)
    {oid : OrderIdentifier} (hid : oid.localID < 4294967296)
    {update : OrderManager ℕ ι → ℕ → OrderManager ℕ ι}
    (hupdate : ∀ om p, KeepsTable om (update om p)) :
    ReplayInv (om.onLogOrderU32 oid update).om
      ∧ ((∀ i ∈ (om.onLogOrderU32 oid update).access,
            i < (om.onLogOrderU32 oid update).om.orders.length)
        ↔ oid.localID ≠ 4294967295) := by
  by_cases htop : oid.localID = 4294967295
  · have hsmall := h.small
    have hlength : om.orders.length ≤ oid.localID := by
      have haligned := h.aligned
      unfold Aligned at haligned
      omega
    have hsame : (om.onLogOrderU32 oid update).om = om := by
      unfold onLogOrderU32
      rw [extendLocalIDHelperU32_top h htop]
      dsimp only
      rw [orderAt_of_le hlength]
    rw [hsame]
    refine ⟨h, ?_, fun hne => absurd htop hne⟩
    intro haccess
    exact absurd (haccess oid.localID rfl) (by omega)
  · obtain ⟨_, hext⟩ := extendLocalIDHelper_spec h.aligned oid
    have hinv := h.extended (by omega) hext
    have hlookup : KeepsTable (om.extendLocalIDHelper oid).2
        (om.onLogOrderU32 oid update).om := by
      unfold onLogOrderU32
      rw [extendLocalIDHelperU32_eq om (by omega)]
      dsimp only
      split
      · exact hupdate ..
      · exact ⟨rfl, rfl, fun _ _ h => h⟩
    refine ⟨hinv.kept hlookup, fun _ => htop, fun _ i hi => ?_⟩
    have hi : oid.localID = i := Option.some.inj hi
    rw [hlookup.length, ← hi]
    exact hinv.aligned.lt_length (by rw [hext.localID]; exact le_max_right ..)

-- ============================================================ orders sent

/-- An adopted order goes where its id says, and nowhere else. -/
theorem adoptOrderHelper_spec {om : OrderManager ℕ ι}
    {lid : Nat} (hlid : lid < om.orders.length) (op : Option (Order ι)) :
    (om.adoptOrderHelper op lid).localID = om.localID
      ∧ (om.adoptOrderHelper op lid).orders.length = om.orders.length
      ∧ (∀ i, (om.adoptOrderHelper op lid).orderAt i
          = if i = lid then op.map fun _ => lid else om.orderAt i)
      ∧ ∀ p, p ≠ lid →
          (om.adoptOrderHelper op lid).order p = om.order p := by
  cases op with
  | none =>
      exact ⟨rfl, List.length_set .., fun i => orderAt_set om hlid none i,
        fun _ _ => rfl⟩
  | some o =>
      exact ⟨rfl, List.length_set ..,
        fun i => orderAt_set om hlid (some lid) i,
        fun p hp => Function.update_of_ne hp ..⟩

/-- An entry that was null is filled and the rest of the table stays. -/
theorem ReplayInv.adopted {om : OrderManager ℕ ι} (h : ReplayInv om)
    {lid : Nat} (hlid : lid ≤ om.localID) (hnull : om.orderAt lid = none)
    (op : Option (Order ι)) :
    ReplayInv (om.adoptOrderHelper op lid)
      ∧ ∀ i p, om.orderAt i = some p →
          (om.adoptOrderHelper op lid).orderAt i = some p
            ∧ (om.adoptOrderHelper op lid).order p = om.order p := by
  obtain ⟨hid, hlength, hat, horder⟩ :=
    adoptOrderHelper_spec (h.aligned.lt_length hlid) op
  refine ⟨⟨?_, ?_, fun i p hp => ?_⟩, fun i p hp => ?_⟩
  · unfold Aligned
    rw [hlength, hid]
    exact h.aligned
  · rw [hid]
    exact h.small
  · rw [hat] at hp
    split at hp
    case isTrue hi =>
      cases op with
      | none => cases hp
      | some o => exact (Option.some.inj hp).symm.trans hi.symm
    case isFalse => exact h.own i p hp
  · have hne : i ≠ lid := by
      intro hi
      rw [hi, hnull] at hp
      cases hp
    refine ⟨?_, ?_⟩
    · rw [hat, if_neg hne]
      exact hp
    · refine horder p ?_
      rw [h.own i p hp]
      exact hne

section Sent

variable {create : CreateReplayOrder ι} {valid : ι → Bool}
  {om : OrderManager ℕ ι} {ts : Timestamp} {b : NewOrderBody ι}

/-- What an `ORDER_SENT` record is to keep. -/
def SentKept (om : OrderManager ℕ ι) (h : Handled ι) : Prop :=
  (∀ i ∈ h.access, i < h.om.orders.length)
    ∧ ∀ i p, om.orderAt i = some p →
        h.om.orderAt i = some p ∧ h.om.order p = om.order p

theorem length_adoptOrderHelper (om : OrderManager ℕ ι)
    (op : Option (Order ι)) (lid : Nat) :
    (om.adoptOrderHelper op lid).orders.length = om.orders.length := by
  cases op <;> exact List.length_set ..

/-- With an instrument: extended, then adopted, if the id is new. -/
theorem onLogOrderSentU32_known (h : ReplayInv om)
    (hid : b.oid.localID < 4294967296)
    (hvalid : valid b.instrumentEsi = true) :
    (SentKept om (om.onLogOrderSentU32 create valid ts b)
        ↔ b.oid.localID ≠ 4294967295)
      ∧ (b.oid.localID ≠ 4294967295 →
          ReplayInv (om.onLogOrderSentU32 create valid ts b).om) := by
  have hsmall := h.small
  have haligned := h.aligned
  unfold Aligned at haligned
  unfold onLogOrderSentU32
  dsimp only
  rw [if_pos hvalid]
  by_cases htop : b.oid.localID = 4294967295
  · rw [extendLocalIDHelperU32_top h htop, if_pos rfl]
    refine ⟨⟨fun hkept => ?_, fun hne => absurd htop hne⟩,
      fun hne => absurd htop hne⟩
    have hrange : b.oid.localID < om.orders.length :=
      (hkept.1 _ rfl).trans_eq (length_adoptOrderHelper ..)
    omega
  · rw [extendLocalIDHelperU32_eq om (by omega)]
    obtain ⟨hnew, hext⟩ := extendLocalIDHelper_spec h.aligned b.oid
    have hinv := h.extended (by omega) hext
    rw [hnew]
    by_cases hlt : om.localID < b.oid.localID
    · rw [if_pos (decide_eq_true hlt)]
      have hin : b.oid.localID ≤ (om.extendLocalIDHelper b.oid).2.localID := by
        rw [hext.localID]
        exact le_max_right ..
      have hnull : (om.extendLocalIDHelper b.oid).2.orderAt b.oid.localID
          = none := by
        rw [hext.orderAt]
        exact orderAt_of_le (by omega)
      obtain ⟨hadopted, hstored⟩ := hinv.adopted hin hnull
        (if b.oid.sessionName.toString ∈ om.sessions.map Prod.fst then
          create b.oid.sessionName.toString (b.replayOrder ts)
        else none)
      refine ⟨⟨fun _ => htop, fun _ => ⟨fun i hi => ?_, fun i p hp => ?_⟩⟩,
        fun _ => hadopted⟩
      · rw [length_adoptOrderHelper, ← Option.some.inj hi]
        exact hinv.aligned.lt_length hin
      · rw [← hext.orderAt] at hp
        rw [← hext.order]
        exact hstored i p hp
    · rw [if_neg (by simpa using hlt)]
      exact ⟨⟨fun _ => htop, fun _ => ⟨nofun, fun _ _ hp => ⟨hp, rfl⟩⟩⟩,
        fun _ => h⟩

/-- Without: a null pointer, where the id says. -/
theorem onLogOrderSentU32_unknown (h : ReplayInv om)
    (hvalid : valid b.instrumentEsi = false) :
    (SentKept om (om.onLogOrderSentU32 create valid ts b)
        ↔ b.oid.localID ≤ om.localID ∧ om.orderAt b.oid.localID = none)
      ∧ (b.oid.localID ≤ om.localID ∧ om.orderAt b.oid.localID = none →
          ReplayInv (om.onLogOrderSentU32 create valid ts b).om) := by
  have haligned := h.aligned
  unfold Aligned at haligned
  unfold onLogOrderSentU32
  dsimp only
  rw [if_neg (by simp [hvalid])]
  refine ⟨⟨fun hkept => ?_, fun hnull => ⟨fun i hi => ?_, ?_⟩⟩,
    fun hnull => (h.adopted hnull.1 hnull.2 none).1⟩
  · have hrange := hkept.1 b.oid.localID rfl
    rw [length_adoptOrderHelper] at hrange
    refine ⟨by omega, ?_⟩
    -- what was stored there would be gone
    cases hat : om.orderAt b.oid.localID with
    | none => rfl
    | some p =>
        have hgone := (adoptOrderHelper_spec hrange
          (none : Option (Order ι))).2.2.1 b.oid.localID
        rw [if_pos rfl, (hkept.2 _ p hat).1] at hgone
        cases hgone
  · rw [length_adoptOrderHelper, ← Option.some.inj hi]
    exact h.aligned.lt_length hnull.1
  · exact (h.adopted hnull.1 hnull.2 none).2

end Sent

-- ============================================================== any record

section Step

variable {create : CreateReplayOrder ι} {valid : ι → Bool}
  {om : OrderManager ℕ ι} {m : Message ι}

/-- What a handler looks up is the identifier of its record, which is none
of `ORDER_SENT`. -/
theorem logUpdate_some
    {u : OrderIdentifier × (OrderManager ℕ ι → ℕ → OrderManager ℕ ι)}
    (hu : u ∈ logUpdate m) : u.1 ∈ m.body.oid ∧ m.type ≠ .orderSent := by
  unfold logUpdate at hu
  split at hu
  case h_9 => cases hu
  all_goals
    rename_i htype hbody
    cases hu
    rw [htype, hbody]
    exact ⟨rfl, nofun⟩

/-- Each record does what it is to exactly under its condition, and then
leaves a table like the one it found. -/
theorem decodeU32_spec (h : ReplayInv om) (hm : m.Fits) :
    (TableKept om m (om.decodeU32 create valid m)
        ↔ Indexable valid om m)
      ∧ (Indexable valid om m →
          ReplayInv (om.decodeU32 create valid m).om) := by
  unfold decodeU32
  split
  case h_1 b htype hbody =>
    have hcond : Indexable valid om m := by
      unfold Indexable
      rw [htype, hbody]
      exact True.intro
    have hinv : ReplayInv (om.extendLocalIDHelperU32 b.oid).2 := by
      have hid : b.oid.localID < 4294967296 := by
        refine hm b.oid ?_
        rw [hbody]
        rfl
      by_cases htop : b.oid.localID = 4294967295
      · rw [extendLocalIDHelperU32_top h htop]
        exact h
      · rw [extendLocalIDHelperU32_eq om (by omega)]
        exact h.extended (by omega)
          (extendLocalIDHelper_spec h.aligned b.oid).2
    refine ⟨⟨fun _ => hcond, fun _ => ⟨hinv.aligned, ?noAccess, ?sent⟩⟩,
      fun _ => hinv⟩
    case noAccess =>
      intro p hp
      cases hp
    case sent =>
      intro hsent
      rw [htype] at hsent
      cases hsent
  case h_2 b htype hbody =>
    have hid : b.oid.localID < 4294967296 := by
      refine hm b.oid ?_
      rw [hbody]
      rfl
    have hcond : Indexable valid om m
        ↔ if valid b.instrumentEsi then b.oid.localID ≠ 4294967295
          else b.oid.localID ≤ om.localID
            ∧ om.orderAt b.oid.localID = none := by
      unfold Indexable
      rw [htype, hbody]
    obtain ⟨hiff, hinv⟩ :
        (SentKept om (om.onLogOrderSentU32 create valid m.timestamp b)
            ↔ Indexable valid om m)
          ∧ (Indexable valid om m → ReplayInv
            (om.onLogOrderSentU32 create valid m.timestamp b).om) := by
      rw [hcond]
      split
      case isTrue hvalid => exact onLogOrderSentU32_known h hid hvalid
      case isFalse hvalid =>
        exact onLogOrderSentU32_unknown h (Bool.eq_false_of_not_eq_true hvalid)
    refine ⟨⟨fun hkept => ?_, fun hall => ?_⟩, hinv⟩
    · exact hiff.mp ⟨hkept.access, hkept.stored htype⟩
    · obtain ⟨haccess, hstored⟩ := hiff.mpr hall
      exact ⟨(hinv hall).aligned, haccess, fun _ => hstored⟩
  case h_3 hreject hsent =>
    have hcond : Indexable valid om m
        ↔ ∀ u ∈ logUpdate m, u.1.localID ≠ 4294967295 := by
      unfold Indexable
      split
      case h_1 b htype hbody => exact absurd hbody (hreject b htype)
      case h_2 b htype hbody => exact absurd hbody (hsent b htype)
      case h_3 => exact Iff.rfl
    rw [hcond]
    cases hu : logUpdate m with
    | none =>
        refine ⟨⟨?_, fun _ => ⟨h.aligned, ?noAccess, ?kept⟩⟩, fun _ => h⟩
        · intro _ p hp
          cases hp
        case noAccess =>
          intro p hp
          cases hp
        case kept =>
          intro _ _ _ hp
          exact ⟨hp, rfl⟩
    | some u =>
        obtain ⟨hoid, htype⟩ := logUpdate_some hu
        obtain ⟨hinv, haccess⟩ := onLogOrderU32_spec h (hm u.1 hoid)
          (logUpdate_keeps hu)
        refine ⟨⟨fun hkept v hv => ?_, fun hall => ?_⟩, fun _ => hinv⟩
        · rw [← Option.some.inj hv]
          exact haccess.mp hkept.access
        · exact ⟨hinv.aligned, haccess.mpr (hall u rfl),
            fun hsent => absurd hsent htype⟩

end Step

omit [DecidableEq ι] in
theorem onLogOrderU32_eq (om : OrderManager ℕ ι) {oid : OrderIdentifier}
    (h : oid.localID + 1 < 4294967296)
    (update : OrderManager ℕ ι → ℕ → OrderManager ℕ ι) :
    (om.onLogOrderU32 oid update).om = om.onLogOrder oid update := by
  have hext := extendLocalIDHelperU32_eq om h
  unfold onLogOrderU32 onLogOrder
  generalize om.extendLocalIDHelperU32 oid = table at hext ⊢
  subst hext
  rfl

/-- With an instrument for every index and ids clear of the wrap, a record
is read as `Replay.lean` reads it. -/
theorem decodeU32_eq (create : CreateReplayOrder ι) (om : OrderManager ℕ ι)
    {m : Message ι} (hm : ∀ oid ∈ m.body.oid, oid.localID + 1 < 4294967296) :
    (om.decodeU32 create (fun _ => true) m).om = om.decode create m := by
  obtain ⟨type, ts, body⟩ := m
  unfold decode
  dsimp only
  split
  case h_1 b =>
    exact congrArg Prod.snd (extendLocalIDHelperU32_eq om (hm b.oid rfl))
  case h_2 b =>
    show (om.onLogOrderSentU32 create _ ts b).om = _
    unfold onLogOrderSentU32 onLogOrderSent
    dsimp only
    rw [if_pos rfl, extendLocalIDHelperU32_eq om (hm b.oid rfl)]
    split
    case isTrue => rfl
    case isFalse => rfl
  case h_3 b => exact onLogOrderU32_eq om (hm b.oid rfl) _
  case h_4 b => exact onLogOrderU32_eq om (hm b.oid rfl) _
  case h_5 b => exact onLogOrderU32_eq om (hm b.oid rfl) _
  case h_6 b => exact onLogOrderU32_eq om (hm b.oid rfl) _
  case h_7 b => exact onLogOrderU32_eq om (hm b.oid rfl) _
  case h_8 b => exact onLogOrderU32_eq om (hm b.oid rfl) _
  case h_9 b => exact onLogOrderU32_eq om (hm b.oid rfl) _
  case h_10 b => exact onLogOrderU32_eq om (hm b.oid rfl) _
  case h_11 =>
    -- none of the handlers' records: every other arm is one of theirs
    have hnone : logUpdate (⟨type, ts, body⟩ : Message ι) = none := by
      unfold logUpdate
      dsimp only
      split
      case h_9 => rfl
      all_goals simp_all
    unfold decodeU32
    rw [hnone]
    dsimp only
    split
    case h_3 => rfl
    all_goals simp_all

-- =================================================================== runs

omit [DecidableEq ι] in
theorem replayInv_start (c : OrderManagerConf ℕ ι) :
    ReplayInv (OrderManager.start c) := by
  obtain ⟨sessions, records, hstart, _⟩ := start_frame c
  rw [hstart]
  refine ⟨rfl, (by decide : 0 + 1 < 4294967296), fun i p hp => ?_⟩
  have hnull : ([none] : List (Option ℕ))[i]?.join = some p := hp
  cases i with
  | zero => cases hnull
  | succ i => cases hnull

/-- From the start of a day, whatever the log holds, the table is as long
as the ids say after each record, every index is in range and no stored
order is lost to an `ORDER_SENT`, exactly if no record indexes it at 2^32-1
and no order of an unknown instrument has an id that is new or taken. -/
theorem replay_table_kept_iff (create : CreateReplayOrder ι)
    (valid : ι → Bool) (c : OrderManagerConf ℕ ι) (ms : List (Message ι))
    (hms : ∀ m ∈ ms, m.Fits) :
    let step := fun om m => (OrderManager.decodeU32 create valid om m).om
    Lib.Admits step
        (fun om m => TableKept om m (om.decodeU32 create valid m))
        (OrderManager.start c) ms
      ↔ Lib.Admits step (Indexable valid) (OrderManager.start c) ms := by
  intro step
  refine Lib.admits_iff_of_step (I := ReplayInv) (p := fun _ m => m.Fits)
    ?_ ?_ (replayInv_start c) ?_
  · exact fun om m h hm => (decodeU32_spec h hm).1
  · exact fun om m h hm => (decodeU32_spec h hm).2
  · exact Lib.Admits.of_forall_mem fun m hm _ => hms m hm

/-- An order of the session `B` at an id, as the log has it. -/
def sentRecord (esi : ι) (localID : Nat) : Message ι :=
  ⟨.orderSent, ⟨1, 0⟩, .orderSent {
    instrumentEsi := esi
    marketMic := .bats
    oid := ⟨0, localID, stringToSessionName [66]⟩
    clientOrderID := []
    origPrice := 5
    size := 10
    side := .buy
    tif := .day
    type := .limit
    userData := 0
    size_lt := by decide }⟩

/-- An order sent, acknowledged and destroyed, and an order of an unknown
instrument under its id. -/
theorem replay_table_kept_iff_demo :
    let c : OrderManagerConf ℕ Bool := .plain fun _ =>
      .dayLimit true .buy 10 5
    let create : CreateReplayOrder Bool := fun _ a =>
      some (a.build [66] [] ⟨0, 0⟩)
    let oid : OrderIdentifier := ⟨0, 3, stringToSessionName [66]⟩
    let ms : List (Message Bool) := [sentRecord true 3,
      ⟨.orderAcknowledgement, ⟨2, 0⟩, .orderAck ⟨oid, 10, 1⟩⟩,
      ⟨.orderDestroy, ⟨3, 0⟩, .orderDestroy ⟨oid⟩⟩, sentRecord false 3]
    Lib.Admits (fun om m => (decodeU32 create id om m).om)
      (fun om m => TableKept om m (om.decodeU32 create id m))
      (OrderManager.start c) ms := by
  intro c create oid ms
  exact (replay_table_kept_iff create id c ms (by decide +kernel)).mpr
    (by decide +kernel)

/-- An order stored at id 1 gives way to the null pointer of another under
the same id in an instrument there is not; the null pointer of a new id
goes past the end of the table, and so does a lookup at 2^32-1. -/
theorem stored_order_overwritten :
    let c : OrderManagerConf ℕ Bool := .plain fun _ =>
      .dayLimit true .buy 10 5
    let create : CreateReplayOrder Bool := fun _ a =>
      some (a.build [66] [] ⟨0, 0⟩)
    let kept := Lib.Admits (fun om m => (decodeU32 create id om m).om)
      (fun om m => TableKept om m (om.decodeU32 create id m))
      (OrderManager.start c)
    ¬ kept [sentRecord true 1, sentRecord false 1]
      ∧ ¬ kept [sentRecord false 5]
      ∧ ¬ kept [⟨.orderAcknowledgement, ⟨2, 0⟩, .orderAck
        ⟨⟨0, 4294967295, stringToSessionName [66]⟩, 10, 1⟩⟩] := by
  intro c create kept
  refine ⟨fun h => ?_, fun h => ?_, fun h => ?_⟩
  · have hlost := (h.2.1.stored rfl 1 1 (by decide +kernel)).1
    exact absurd hlost (by decide +kernel)
  · exact absurd (h.1.access 5 rfl) (by decide +kernel)
  · exact absurd (h.1.access 4294967295 rfl) (by decide +kernel)

end OrderManager

end TradingEngine.OE
