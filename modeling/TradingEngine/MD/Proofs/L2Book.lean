/-
Half a book is the map of the last sizes, and its flags are those of the
last call, up to what `replace` leaves as it was.

`replace` puts into the map what the last call said of a price, and takes it
out for size 0 (`levels_step`). What it returns tells of the top: an
insertion or a removal elsewhere leaves the beginning of the map in place
(`begin_insert_of_ne`, `begin_erase_of_ne`).

# Runs

`Mirrors` is the invariant of the calls: the levels are those of the last
sizes, and the best is the first of them in the order of the side. The two
comparators are one definition with the side as parameter, and all the lemmas
are for both. The flags are not part of it: a call sets some of them and may
leave another as it was, so they tell of a call exactly under `TellsWhen`.
-/
import TradingEngine.Lib.Run
import TradingEngine.MD.L2Book

namespace TradingEngine.MD

-- ==================================================================== prices

/-- The first price is better, for quotes of the side. -/
def Side.Better : Side → Price → Price → Prop
  | .buy => fun a b => b < a
  | .sell => fun a b => a < b

theorem Side.compare_isLE {side : Side} {a b : Price} :
    (side.compare a b).isLE = true ↔ a = b ∨ side.Better a b := by
  cases side with
  | buy =>
      show (Ord.compare b a).isLE = true ↔ a = b ∨ b < a
      rw [Std.isLE_compare, UInt64.le_iff_toNat_le, UInt64.lt_iff_toNat_lt,
        ← UInt64.toNat_inj]
      omega
  | sell =>
      show (Ord.compare a b).isLE = true ↔ a = b ∨ a < b
      rw [Std.isLE_compare, UInt64.le_iff_toNat_le, UInt64.lt_iff_toNat_lt,
        ← UInt64.toNat_inj]
      omega

theorem Side.compare_eq {side : Side} {a b : Price} :
    side.compare a b = .eq ↔ a = b := Std.LawfulEqCmp.compare_eq_iff_eq

namespace L2BookHalf

variable {side : Side}

-- =================================================================== storage

variable {t : BookHalfStorage side} {p : Price} {l : L2PriceLevel}

/-- The beginning is the best of the prices there are. -/
theorem begin_eq_some_iff {q : Price} :
    begin? t = some (q, l)
      ↔ t[q]? = some l ∧ ∀ k : Price, (t[k]?).isSome = true →
        q = k ∨ side.Better q k := by
  have hmin : t.minKey? = some q ↔ (t[q]?).isSome = true
      ∧ ∀ k : Price, (t[k]?).isSome = true → q = k ∨ side.Better q k := by
    rw [Std.TreeMap.minKey?_eq_some_iff_mem_and_forall]
    simp only [Std.TreeMap.mem_iff_isSome_getElem?, Side.compare_isLE]
  unfold begin?
  constructor
  · intro h
    obtain ⟨k, hk, hmap⟩ := Option.bind_eq_some_iff.mp h
    obtain ⟨level, hlevel, heq⟩ := Option.map_eq_some_iff.mp hmap
    cases heq
    exact ⟨hlevel, (hmin.mp hk).2⟩
  · intro ⟨hl, hall⟩
    rw [hmin.mpr ⟨by simp [hl], hall⟩]
    simp [hl]

/-- There is no beginning of nothing only. -/
theorem begin_eq_none_iff :
    begin? t = none ↔ ∀ k : Price, t[k]? = none := by
  constructor
  · intro h k
    cases hk : t[k]? with
    | none => rfl
    | some level =>
        cases hmin : t.minKey? with
        | none =>
            have hempty := Std.TreeMap.minKey?_eq_none_iff.mp hmin
            rw [Std.TreeMap.getElem?_of_isEmpty hempty] at hk
            cases hk
        | some q =>
            have hmem := (Std.TreeMap.minKey?_eq_some_iff_mem_and_forall.mp
              hmin).1
            obtain ⟨l, hl⟩ := Option.isSome_iff_exists.mp
              (Std.TreeMap.mem_iff_isSome_getElem?.mp hmem)
            unfold begin? at h
            rw [hmin, Option.bind_some, hl] at h
            cases h
  · intro h
    cases hbegin : begin? t with
    | none => rfl
    | some entry =>
        have hl := (begin_eq_some_iff.mp hbegin).1
        rw [h entry.1] at hl
        cases hl

/-- The map with a price put in. -/
theorem getElem?_insert (k : Price) :
    (t.insert p l)[k]? = if p = k then some l else t[k]? := by
  rw [Std.TreeMap.getElem?_insert]
  simp only [Side.compare_eq]

/-- The map with a price taken out. -/
theorem getElem?_erase (k : Price) :
    (t.erase p)[k]? = if p = k then none else t[k]? := by
  rw [Std.TreeMap.getElem?_erase]
  simp only [Side.compare_eq]

/-- A price that is not best when it is in was not the reason for what is. -/
theorem begin_insert_of_ne (h : (t.insert p l).minKey? ≠ some p) :
    begin? (t.insert p l) = begin? t := by
  have hmin := Std.TreeMap.minKey?_insert (t := t) (k := p) (v := l)
  cases hold : t.minKey? with
  | none =>
      rw [hold] at hmin
      exact absurd hmin h
  | some q =>
      rw [hold] at hmin
      simp only [Option.elim_some] at hmin
      have hnot : ¬ (side.compare p q).isLE = true := by
        intro hle
        rw [if_pos hle] at hmin
        exact h hmin
      rw [if_neg hnot] at hmin
      have hne : p ≠ q := by
        intro heq
        apply hnot
        rw [heq]
        exact Side.compare_isLE.mpr (Or.inl rfl)
      unfold begin?
      rw [hmin, hold, Option.bind_some, Option.bind_some, getElem?_insert,
        if_neg hne]

/-- Nor is one that was not best when it was in. -/
theorem begin_erase_of_ne (h : t.minKey? ≠ some p) :
    begin? (t.erase p) = begin? t := by
  have hmin : (t.erase p).minKey? = t.minKey? := by
    apply Std.TreeMap.minKey?_erase_eq_of_not_compare_eq_minKey?
    intro q hq heq
    rw [Side.compare_eq] at heq
    rw [heq] at h
    exact h hq
  unfold begin?
  rw [hmin]
  cases hold : t.minKey? with
  | none => rfl
  | some q =>
      have hne : p ≠ q := by
        intro heq
        rw [heq] at h
        exact h hold
      rw [Option.bind_some, Option.bind_some, getElem?_erase, if_neg hne]

-- =================================================================== replace

/-- All that `replace` does, by whether the price is there and the size 0. -/
theorem replace_cases (b : L2BookHalf side) (p : Price) (s : Size)
    (n : NumOrders) (ts : OE.Timestamp) :
    (b.bookhalfStorage[p]? = none ∧ s = 0 ∧ b.replace p s n ts
      = ({ b with
          levelDeleted := true, deletedLevelExisted := false
          reducedSize := true }, false))
    ∨ (b.bookhalfStorage[p]? = none ∧ s ≠ 0 ∧ ∃ t,
      t = b.bookhalfStorage.insert p (.make p s n ts) ∧ b.replace p s n ts
        = ({ b with
            bookhalfStorage := t, levelAdded := true
            levelDeleted := false, reducedSize := false },
          t.minKey? == some p))
    ∨ (∃ level, b.bookhalfStorage[p]? = some level ∧ s = 0
      ∧ b.replace p s n ts
        = ({ bookhalfStorage := b.bookhalfStorage.erase p
             levelAdded := false, levelDeleted := true
             deletedLevelExisted := true, reducedSize := true },
          b.bookhalfStorage.minKey? == some p))
    ∨ (∃ level, b.bookhalfStorage[p]? = some level ∧ s ≠ 0 ∧ ∃ t,
      t = b.bookhalfStorage.insert p
          { level with size := s, numOrders := n, lastUpdated := ts }
        ∧ b.replace p s n ts
          = ({ b with
              bookhalfStorage := t, levelAdded := false
              levelDeleted := false
              reducedSize := decide (s < level.size) },
            t.minKey? == some p)) := by
  unfold replace
  dsimp only
  cases hlevel : b.bookhalfStorage[p]? with
  | none =>
      by_cases hs : s = 0
      · left
        simp [hs]
      · right
        left
        refine ⟨rfl, hs, _, rfl, ?_⟩
        simp [hs, atBegin]
  | some level =>
      right
      right
      by_cases hs : s = 0
      · left
        refine ⟨level, rfl, hs, ?_⟩
        simp [hs, atBegin]
      · right
        refine ⟨level, rfl, hs, _, rfl, ?_⟩
        simp [hs, atBegin]

/-- When `replace` returns `false` the top stays. -/
theorem bestQuote_of_replace_false (base : BookBase) (b : L2BookHalf side)
    (p : Price) (s : Size) (n : NumOrders) (ts : OE.Timestamp)
    (h : (b.replace p s n ts).2 = false) :
    (b.replace p s n ts).1.bestQuote base = b.bestQuote base := by
  unfold bestQuote
  rcases b.replace_cases p s n ts with ⟨-, -, heq⟩ | ⟨-, -, t, ht, heq⟩
    | ⟨level, -, -, heq⟩ | ⟨level, -, -, t, ht, heq⟩
  · rw [heq]
  · rw [heq] at h ⊢
    dsimp only at h ⊢
    rw [ht] at h ⊢
    rw [begin_insert_of_ne (ne_of_beq_false h)]
  · rw [heq] at h ⊢
    dsimp only at h ⊢
    rw [begin_erase_of_ne (ne_of_beq_false h)]
  · rw [heq] at h ⊢
    dsimp only at h ⊢
    rw [ht] at h ⊢
    rw [begin_insert_of_ne (ne_of_beq_false h)]

-- ================================================================ last sizes

/-- What the last `replace` of each price since the last `clear` said, unless
it said 0. -/
abbrev LastSizes := Price → Option (Size × NumOrders)

namespace LastSizes

/-- A call. -/
def step (m : LastSizes) : Op → LastSizes
  | .replace p s n _ => fun q =>
      if p = q then if s = 0 then none else some (s, n) else m q
  | .clear => fun _ => none

/-- The best price, or the price of an empty book with size 0. -/
def IsBest (base : BookBase) (side : Side) (m : LastSizes) (q : L2Quote) :
    Prop :=
  (m q.price = some (q.size, q.numOrders)
    ∧ ∀ p, (m p).isSome = true → q.price = p ∨ side.Better q.price p)
  ∨ ((∀ p, m p = none) ∧ q = ⟨base.emptyPrice side, 0, 0⟩)

end LastSizes

/-- The half book has the levels of the map, and its best. -/
structure Mirrors (base : BookBase) (m : LastSizes) (b : L2BookHalf side) :
    Prop where
  levels : ∀ p : Price, (b.bookhalfStorage[p]?).map
    (fun l => (l.size, l.numOrders)) = m p
  best : m.IsBest base side (b.bestQuote base)

/-- The best of the levels is the best of the map. -/
theorem isBest_of_levels (base : BookBase) {m : LastSizes}
    {b : L2BookHalf side} (h : ∀ p : Price, (b.bookhalfStorage[p]?).map
      (fun l => (l.size, l.numOrders)) = m p) :
    m.IsBest base side (b.bestQuote base) := by
  have hsome : ∀ p : Price, (m p).isSome
      = (b.bookhalfStorage[p]?).isSome := by
    intro p
    rw [← h p, Option.isSome_map]
  unfold bestQuote
  cases hbegin : begin? b.bookhalfStorage with
  | none =>
      have hnone := begin_eq_none_iff.mp hbegin
      refine Or.inr ⟨fun p => ?_, rfl⟩
      rw [← h p, hnone p]
      rfl
  | some entry =>
      obtain ⟨q, level⟩ := entry
      obtain ⟨hl, hall⟩ := begin_eq_some_iff.mp hbegin
      refine Or.inl ⟨?_, fun p hp => hall p (by rw [← hsome p]; exact hp)⟩
      dsimp only
      rw [← h q, hl]
      rfl

/-- A call does to the levels what it does to the map. -/
theorem levels_step {m : LastSizes} {b : L2BookHalf side}
    (h : ∀ p : Price, (b.bookhalfStorage[p]?).map
      (fun l => (l.size, l.numOrders)) = m p) (op : Op) :
    ∀ p : Price, ((b.step op).bookhalfStorage[p]?).map
      (fun l => (l.size, l.numOrders)) = m.step op p := by
  intro q
  have hq := h q
  cases op with
  | clear => simp [step, clear, LastSizes.step]
  | replace p s n ts =>
      unfold step LastSizes.step
      dsimp only
      rcases b.replace_cases p s n ts with ⟨hnone, hs, heq⟩
        | ⟨hnone, hs, t, ht, heq⟩ | ⟨level, hsome, hs, heq⟩
        | ⟨level, hsome, hs, t, ht, heq⟩
      · -- nothing is there to be taken out
        rw [heq, if_pos hs]
        dsimp only
        split
        case isTrue hpq => rw [← hpq, hnone]; rfl
        case isFalse => exact hq
      · rw [heq, if_neg hs]
        dsimp only
        rw [ht, getElem?_insert]
        split
        case isTrue => rfl
        case isFalse => exact hq
      · rw [heq, if_pos hs]
        dsimp only
        rw [getElem?_erase]
        split
        case isTrue => rfl
        case isFalse => exact hq
      · rw [heq, if_neg hs]
        dsimp only
        rw [ht, getElem?_insert]
        split
        case isTrue => rfl
        case isFalse => exact hq

/-- After any calls the half book is the map of the last sizes, and what
the next `replace` returns tells whether its best can have changed. -/
theorem mirrors_run (base : BookBase) (side : Side)
    (added deleted existed reduced : Bool) (ops : List Op) :
    let b := Lib.run step
      (new added deleted existed reduced : L2BookHalf side) ops
    Mirrors base (Lib.run LastSizes.step (fun _ => none) ops) b
      ∧ ∀ (p : Price) (s : Size) (n : NumOrders) (ts : OE.Timestamp),
        ((b.replace p s n ts).2 = false →
            (b.replace p s n ts).1.bestQuote base = b.bestQuote base)
          ∧ ((b.replace p s n ts).1.bestQuote base ≠ b.bestQuote base →
            (b.replace p s n ts).2 = true) := by
  intro b
  have hlevels : ∀ q : Price, (b.bookhalfStorage[q]?).map
      (fun l => (l.size, l.numOrders))
      = Lib.run LastSizes.step (fun _ => none) ops q :=
    Lib.run_related (R := fun (b : L2BookHalf side) (m : LastSizes) =>
        ∀ q : Price, (b.bookhalfStorage[q]?).map
          (fun l => (l.size, l.numOrders)) = m q)
      (fun b m op h => levels_step h op) (by intro q; simp [new])
  refine ⟨⟨hlevels, isBest_of_levels base hlevels⟩, ?_⟩
  intro p s n ts
  have hsame := bestQuote_of_replace_false base b p s n ts
  refine ⟨hsame, fun hne => ?_⟩
  cases hret : (b.replace p s n ts).2 with
  | true => rfl
  | false => exact absurd (hsame hret) hne

-- ====================================================================== flags

/-- The flags say what a `replace` did to the level of its price. -/
structure FlagsTell (b : L2BookHalf side) (p : Price) (s : Size)
    (b' : L2BookHalf side) : Prop where
  added : b'.lastOrderAddedLevel = true
    ↔ b.bookhalfStorage[p]? = none ∧ (b'.bookhalfStorage[p]?).isSome = true
  deleted : b'.lastOrderDeletedLevel = true ↔ s = 0
  deletedExisting : b'.lastOrderDeletedExistingLevel = true
    ↔ (b.bookhalfStorage[p]?).isSome = true ∧ b'.bookhalfStorage[p]? = none
  reduced : b'.lastUpdateReducedSize = true
    ↔ ∃ level, b.bookhalfStorage[p]? = some level ∧ s < level.size

/-- The flags after a call. A `clear` is not a `replace`. -/
def Tells (b : L2BookHalf side) : Op → Prop
  | .replace p s n ts => FlagsTell b p s (b.replace p s n ts).1
  | .clear => True

/-- A `replace` either takes out a level that is there, or puts one in while
no deletion of an existing level is on record. -/
def TellsWhen (b : L2BookHalf side) : Op → Prop
  | .replace p s _ _ =>
      if s = 0 then (b.bookhalfStorage[p]?).isSome = true
      else b.deletedLevelExisted = false
  | .clear => True

/-- No level has size 0. -/
def Sized (b : L2BookHalf side) : Prop :=
  ∀ (p : Price) (level : L2PriceLevel),
    b.bookhalfStorage[p]? = some level → 0 < level.size

theorem zero_lt_of_ne {s : Size} (h : s ≠ 0) : 0 < s := by
  rw [UInt32.lt_iff_toNat_lt]
  have hne : s.toNat ≠ 0 := fun heq => h (UInt32.toNat_inj.mp heq)
  exact Nat.pos_of_ne_zero hne

/-- Size 0 leaves no level behind, another size one of that size. -/
theorem Sized.step {b : L2BookHalf side} (h : Sized b) (op : Op) :
    Sized (b.step op) := by
  have hinsert : ∀ (p : Price) (l : L2PriceLevel), 0 < l.size →
      ∀ (q : Price) (level : L2PriceLevel),
        (b.bookhalfStorage.insert p l)[q]? = some level →
          0 < level.size := by
    intro p l hl q level hq
    rw [getElem?_insert] at hq
    split at hq
    case isTrue =>
      cases hq
      exact hl
    case isFalse => exact h q level hq
  cases op with
  | clear =>
      intro q level hq
      simp [L2BookHalf.step, clear] at hq
  | replace p s n ts =>
      unfold L2BookHalf.step Sized
      dsimp only
      rcases b.replace_cases p s n ts with ⟨-, -, heq⟩
        | ⟨-, hs, t, ht, heq⟩ | ⟨level, -, -, heq⟩
        | ⟨level, -, hs, t, ht, heq⟩
      · rw [heq]
        exact h
      · rw [heq, ht]
        exact hinsert p _ (zero_lt_of_ne hs)
      · rw [heq]
        intro q level hq
        rw [getElem?_erase] at hq
        split at hq
        case isTrue => cases hq
        case isFalse => exact h q level hq
      · rw [heq, ht]
        exact hinsert p _ (zero_lt_of_ne hs)

/-- A call that leaves the price there and the record of deletions alone
tells the rest, and so all exactly if that record says no. -/
theorem flagsTell_iff_of_kept {b b' : L2BookHalf side} {p : Price} {s : Size}
    (hin : (b'.bookhalfStorage[p]?).isSome = true)
    (hkept : b'.deletedLevelExisted = b.deletedLevelExisted)
    (hadded : b'.lastOrderAddedLevel = true ↔ b.bookhalfStorage[p]? = none
      ∧ (b'.bookhalfStorage[p]?).isSome = true)
    (hdeleted : b'.lastOrderDeletedLevel = true ↔ s = 0)
    (hreduced : b'.lastUpdateReducedSize = true
      ↔ ∃ level, b.bookhalfStorage[p]? = some level ∧ s < level.size) :
    FlagsTell b p s b' ↔ b.deletedLevelExisted = false := by
  have hthere : b'.bookhalfStorage[p]? ≠ none :=
    Option.isSome_iff_ne_none.mp hin
  have hflag : b'.lastOrderDeletedExistingLevel = b.deletedLevelExisted :=
    hkept
  constructor
  · intro htell
    apply Bool.eq_false_iff.mpr
    intro hexisted
    exact hthere (htell.deletedExisting.mp (hflag.trans hexisted)).2
  · intro hexisted
    have hsaid : ¬ b'.lastOrderDeletedExistingLevel = true := by
      rw [hflag, hexisted]
      exact Bool.false_ne_true
    exact
      { added := hadded
        deleted := hdeleted
        deletedExisting := iff_of_false hsaid fun hgone => hthere hgone.2
        reduced := hreduced }

/-- The flags tell of a call exactly then. -/
theorem tells_iff {b : L2BookHalf side} (h : Sized b) (op : Op) :
    Tells b op ↔ TellsWhen b op := by
  cases op with
  | clear => exact Iff.rfl
  | replace p s n ts =>
      unfold Tells TellsWhen
      dsimp only
      rcases b.replace_cases p s n ts with ⟨hnone, hs, heq⟩
        | ⟨hnone, hs, t, ht, heq⟩ | ⟨level, hsome, hs, heq⟩
        | ⟨level, hsome, hs, t, ht, heq⟩
      · -- nothing to take out: the size is said to be reduced
        rw [if_pos hs, hnone]
        refine iff_of_false ?_ Bool.false_ne_true
        intro htell
        obtain ⟨level, hlevel, -⟩ := htell.reduced.mp (by rw [heq]; rfl)
        rw [hnone] at hlevel
        cases hlevel
      · have hin : (t[p]?).isSome = true := by
          rw [ht, getElem?_insert, if_pos rfl]
          rfl
        rw [if_neg hs, heq]
        refine flagsTell_iff_of_kept ?_ rfl ?_ ?_ ?_
        · exact hin
        · exact iff_of_true rfl ⟨hnone, hin⟩
        · exact iff_of_false Bool.false_ne_true hs
        · exact iff_of_false Bool.false_ne_true (by simp [hnone])
      · have hout : (b.bookhalfStorage.erase p)[p]? = none := by
          rw [getElem?_erase, if_pos rfl]
        rw [if_pos hs, hsome, heq]
        refine iff_of_true ?_ rfl
        exact
          { added := iff_of_false Bool.false_ne_true (by simp [hsome])
            deleted := iff_of_true rfl hs
            deletedExisting := iff_of_true rfl ⟨by simp [hsome], hout⟩
            reduced := by
              refine iff_of_true rfl ⟨level, hsome, ?_⟩
              rw [hs]
              exact h p level hsome }
      · have hin : (t[p]?).isSome = true := by
          rw [ht, getElem?_insert, if_pos rfl]
          rfl
        rw [if_neg hs, heq]
        refine flagsTell_iff_of_kept ?_ rfl ?_ ?_ ?_
        · exact hin
        · exact iff_of_false Bool.false_ne_true (by simp [hsome])
        · exact iff_of_false Bool.false_ne_true hs
        · unfold lastUpdateReducedSize
          simp [hsome]

/-- After any calls the flags tell of the next one exactly then, and along a
run of all exactly if then each time. -/
theorem tells_run_iff (side : Side) (added deleted existed reduced : Bool)
    (ops : List Op) :
    let b : L2BookHalf side := new added deleted existed reduced
    (Lib.Admits step Tells b ops ↔ Lib.Admits step TellsWhen b ops)
      ∧ ∀ op, Tells (Lib.run step b ops) op
        ↔ TellsWhen (Lib.run step b ops) op := by
  intro b
  have hinit : Sized b := by
    intro p level hp
    simp [b, new] at hp
  constructor
  · exact Lib.admits_iff_of_step (I := Sized)
      (fun b op h _ => tells_iff h op) (fun b op h _ _ => h.step op) hinit
      (Lib.Admits.trivial _ _)
  · intro op
    exact tells_iff (Lib.run_induction (fun b op h => h.step op) hinit) op

/-- Taking out a level that is not there is said to reduce its size. -/
theorem not_tells_absent :
    ¬ ∀ (side : Side) (added deleted existed reduced : Bool)
      (ops : List Op) (op : Op),
      Tells (Lib.run step
        (new added deleted existed reduced : L2BookHalf side) ops) op := by
  intro h
  obtain ⟨level, hlevel, -⟩ := (h .buy false false false false []
    (.replace 10000 0 0 ⟨0, 0⟩)).reduced.mp (by decide)
  simp [new] at hlevel

end L2BookHalf

end TradingEngine.MD
