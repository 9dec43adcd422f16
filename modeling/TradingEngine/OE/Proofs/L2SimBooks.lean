/-
What the container operations of a simulated session do to the orders in
it.

# Settling

Every operation goes through a container entry by entry: an entry stays,
stays with less, or goes, and may leave events behind. `Settles` says so
for all of them at once, and what an entry keeps is the parameter: it is
`Live` when it keeps no more than the events have left of it, and `Dead`
when a `CANCELLED` speaks for the rest, as after an auction, where the
entry is not erased.

`Settles.order` says what this comes to for one order, and is what the
later proofs use.
-/
import TradingEngine.OE.L2Sim

namespace TradingEngine.OE

variable {ω ι : Type}

-- ==================================================================== events

/-- What the event takes of its order's size. -/
def SimEvent.takes (e : SimEvent ω) : Nat :=
  if e.state = .filled ∨ e.state = .cancelled then e.size else 0

/-- What the events take. -/
def sizes (es : List (SimEvent ω)) : Nat := (es.map SimEvent.takes).sum

/-- How many of the events are of the state. -/
def countOf (st : OrderState) (es : List (SimEvent ω)) : Nat :=
  es.countP fun e => decide (e.state = st)

/-- No event takes nothing. -/
@[simp] theorem sizes_nil : sizes ([] : List (SimEvent ω)) = 0 := rfl

/-- One event more. -/
@[simp] theorem sizes_cons (e : SimEvent ω) (es : List (SimEvent ω)) :
    sizes (e :: es) = e.takes + sizes es := rfl

/-- Events of two steps. -/
@[simp] theorem sizes_append (es es' : List (SimEvent ω)) :
    sizes (es ++ es') = sizes es + sizes es' := by
  unfold sizes
  rw [List.map_append, List.sum_append]

/-- In whatever order. -/
theorem sizes_perm {es es' : List (SimEvent ω)} (h : es.Perm es') :
    sizes es = sizes es' := (h.map _).sum_eq

/-- Events of a kind in two steps. -/
@[simp] theorem countOf_append (st : OrderState)
    (es es' : List (SimEvent ω)) :
    countOf st (es ++ es') = countOf st es + countOf st es' :=
  List.countP_append

/-- One event more. -/
theorem countOf_cons (st : OrderState) (e : SimEvent ω)
    (es : List (SimEvent ω)) :
    countOf st (e :: es) = countOf st es + if e.state = st then 1 else 0 := by
  unfold countOf
  rw [List.countP_cons]
  simp

/-- None of a kind. -/
theorem countOf_eq_zero {st : OrderState} {es : List (SimEvent ω)} :
    countOf st es = 0 ↔ ∀ e ∈ es, e.state ≠ st := by
  unfold countOf
  rw [List.countP_eq_zero]
  simp

/-- Some of a kind. -/
theorem countOf_pos {st : OrderState} {es : List (SimEvent ω)} :
    0 < countOf st es ↔ ∃ e ∈ es, e.state = st := by
  unfold countOf
  rw [List.countP_pos_iff]
  simp

section OfOrder

variable [DecidableEq ω]

/-- The events of the order. -/
def eventsOf (es : List (SimEvent ω)) (w : ω) : List (SimEvent ω) :=
  es.filter fun e => decide (e.order = w)

/-- What the events take of the order's size. -/
def taken (es : List (SimEvent ω)) (w : ω) : Nat := sizes (eventsOf es w)

/-- The entries of the order. -/
def entriesOf (c : OrderContainer ω) (w : ω) : List (SimOrder ω) :=
  (c.map Prod.snd).filter fun o => decide (o.order = w)

/-- The events of an order are those that name it. -/
theorem mem_eventsOf {es : List (SimEvent ω)} {w : ω} {e : SimEvent ω} :
    e ∈ eventsOf es w ↔ e ∈ es ∧ e.order = w := by
  unfold eventsOf
  rw [List.mem_filter, decide_eq_true_eq]

/-- The events of an order in two steps. -/
theorem eventsOf_append (es es' : List (SimEvent ω)) (w : ω) :
    eventsOf (es ++ es') w = eventsOf es w ++ eventsOf es' w :=
  List.filter_append ..

/-- All events are of the order. -/
theorem eventsOf_self {es : List (SimEvent ω)} {w : ω}
    (h : ∀ e ∈ es, e.order = w) : eventsOf es w = es :=
  List.filter_eq_self.mpr fun e he => decide_eq_true (h e he)

/-- None is. -/
theorem eventsOf_eq_nil {es : List (SimEvent ω)} {w : ω}
    (h : ∀ e ∈ es, e.order ≠ w) : eventsOf es w = [] :=
  List.filter_eq_nil_iff.mpr fun e he => by simpa using h e he

/-- The entries of an order are those that name it, at whatever price. -/
theorem mem_entriesOf {c : OrderContainer ω} {w : ω} {o : SimOrder ω} :
    o ∈ entriesOf c w ↔ (∃ p, (p, o) ∈ c) ∧ o.order = w := by
  unfold entriesOf
  rw [List.mem_filter, decide_eq_true_eq, List.mem_map]
  simp

/-- One entry more. -/
theorem entriesOf_cons (p : Rat) (o : SimOrder ω) (c : OrderContainer ω)
    (w : ω) : entriesOf ((p, o) :: c) w
      = if o.order = w then o :: entriesOf c w else entriesOf c w := by
  unfold entriesOf
  rw [List.map_cons, List.filter_cons]
  simp

end OfOrder

-- ================================================================= an entry

/-- What one entry leaves behind. -/
structure EntryEvents (o : SimOrder ω) (es : List (SimEvent ω)) : Prop where
  about : ∀ e ∈ es, e.order = o.order
  kind : ∀ e ∈ es, e.state = .filled ∨ e.state = .cancelled
  positive : ∀ e ∈ es, 0 < e.size
  within : sizes es ≤ o.remains
  once : countOf .cancelled es ≤ 1

/-- An entry may leave nothing behind. -/
theorem EntryEvents.nil (o : SimOrder ω) : EntryEvents o [] where
  about := nofun
  kind := nofun
  positive := nofun
  within := Nat.zero_le _
  once := Nat.zero_le _

/-- What is kept and what was taken is no more than there was. -/
def Live (o o' : SimOrder ω) (es : List (SimEvent ω)) : Prop :=
  o'.remains + sizes es ≤ o.remains

/-- What is kept was cancelled. -/
def Dead (_o _o' : SimOrder ω) (es : List (SimEvent ω)) : Prop :=
  0 < countOf .cancelled es

/-- A container is gone through entry by entry. -/
inductive Settles
    (keeps : SimOrder ω → SimOrder ω → List (SimEvent ω) → Prop) :
    OrderContainer ω → OrderContainer ω → List (SimEvent ω) → Prop
  | nil : Settles keeps [] [] []
  | gone {p : Rat} {o : SimOrder ω} {c c' : OrderContainer ω}
      {es es' : List (SimEvent ω)} (he : EntryEvents o es)
      (h : Settles keeps c c' es') :
      Settles keeps ((p, o) :: c) c' (es ++ es')
  | kept {p : Rat} {o o' : SimOrder ω} {c c' : OrderContainer ω}
      {es es' : List (SimEvent ω)} (he : EntryEvents o es)
      (horder : o'.order = o.order) (hpos : 0 < o'.remains)
      (hkeeps : keeps o o' es) (h : Settles keeps c c' es') :
      Settles keeps ((p, o) :: c) ((p, o') :: c') (es ++ es')

/-- What this comes to for one order: without an entry nothing, and else
what its entry comes to. -/
inductive SettlesOrder
    (keeps : SimOrder ω → SimOrder ω → List (SimEvent ω) → Prop) :
    List (SimOrder ω) → List (SimOrder ω) → List (SimEvent ω) → Prop
  | none : SettlesOrder keeps [] [] []
  | gone {o : SimOrder ω} {es : List (SimEvent ω)} (he : EntryEvents o es) :
      SettlesOrder keeps [o] [] es
  | kept {o o' : SimOrder ω} {es : List (SimEvent ω)} (he : EntryEvents o es)
      (horder : o'.order = o.order) (hpos : 0 < o'.remains)
      (hkeeps : keeps o o' es) : SettlesOrder keeps [o] [o'] es

/-- What an operation on a container comes to for one order that is in it once
at most. -/
theorem Settles.order [DecidableEq ω]
    {keeps : SimOrder ω → SimOrder ω → List (SimEvent ω) → Prop}
    {c c' : OrderContainer ω} {es : List (SimEvent ω)}
    (h : Settles keeps c c' es) {w : ω}
    (honce : (entriesOf c w).length ≤ 1) :
    SettlesOrder keeps (entriesOf c w) (entriesOf c' w) (eventsOf es w) := by
  induction h with
  | nil => exact .none
  | @gone p o c c' es es' hes h ih =>
      rw [entriesOf_cons] at honce ⊢
      rw [eventsOf_append]
      by_cases hw : o.order = w
      · -- its only entry
        rw [if_pos hw] at honce ⊢
        have hnil : entriesOf c w = [] :=
          List.length_eq_zero_iff.mp (Nat.le_zero.mp
            (Nat.le_of_succ_le_succ honce))
        have hrest := ih (by rw [hnil]; exact Nat.zero_le _)
        rw [hnil] at hrest ⊢
        obtain ⟨hc', hes'⟩ :
            entriesOf c' w = [] ∧ eventsOf es' w = [] := by
          generalize entriesOf c' w = l, eventsOf es' w = l' at hrest
          cases hrest
          exact ⟨rfl, rfl⟩
        rw [hc', hes', List.append_nil,
          eventsOf_self fun e he => (hes.about e he).trans hw]
        exact .gone hes
      · rw [if_neg hw] at honce ⊢
        rw [eventsOf_eq_nil fun e he heq => hw (hes.about e he ▸ heq)]
        exact ih honce
  | @kept p o o' c c' es es' hes horder hpos hkeeps h ih =>
      rw [entriesOf_cons] at honce
      rw [entriesOf_cons, entriesOf_cons, eventsOf_append, horder]
      by_cases hw : o.order = w
      · rw [if_pos hw] at honce
        rw [if_pos hw, if_pos hw]
        have hnil : entriesOf c w = [] :=
          List.length_eq_zero_iff.mp (Nat.le_zero.mp
            (Nat.le_of_succ_le_succ honce))
        have hrest := ih (by rw [hnil]; exact Nat.zero_le _)
        rw [hnil] at hrest ⊢
        obtain ⟨hc', hes'⟩ :
            entriesOf c' w = [] ∧ eventsOf es' w = [] := by
          generalize entriesOf c' w = l, eventsOf es' w = l' at hrest
          cases hrest
          exact ⟨rfl, rfl⟩
        rw [hc', hes', List.append_nil,
          eventsOf_self fun e he => (hes.about e he).trans hw]
        exact .kept hes horder hpos hkeeps
      · rw [if_neg hw] at honce
        rw [if_neg hw, if_neg hw,
          eventsOf_eq_nil fun e he heq => hw (hes.about e he ▸ heq)]
        exact ih honce

-- ================================================================ operations

section Operations

variable {c : OrderContainer ω} (hpos : ∀ x ∈ c, 0 < x.2.remains)

include hpos

omit hpos in
/-- What is found is there. -/
theorem mem_of_find {price : Rat} {o : SimOrder ω}
    (h : c.find price = some o) : ∃ p, (p, o) ∈ c := by
  unfold OrderContainer.find at h
  rw [List.lookup_eq_findSome?] at h
  obtain ⟨⟨p, o'⟩, hmem, hsome⟩ := List.exists_of_findSome?_eq_some h
  dsimp only at hsome
  split at hsome
  · cases hsome
    exact ⟨p, hmem⟩
  · cases hsome

omit hpos in
/-- An order is put in, or one was there at its price. -/
theorem emplace_perm (before : Rat → Rat → Bool) (price : Rat)
    (o : SimOrder ω) :
    c.emplace before price o = c
      ∨ (c.emplace before price o).Perm ((price, o) :: c) := by
  induction c with
  | nil => exact .inr (.refl _)
  | cons x c ih =>
      obtain ⟨p, o'⟩ := x
      unfold OrderContainer.emplace
      split
      · exact .inl rfl
      · split
        · exact .inr (.refl _)
        · rcases ih with heq | hperm
          · rw [heq]
            exact .inl rfl
          · exact .inr ((hperm.cons _).trans (.swap ..))

/-- Nothing happens. -/
theorem settles_refl : Settles Live c c [] := by
  induction c with
  | nil => exact .nil
  | cons x c ih =>
      have hrest := ih fun y hy => hpos y (List.mem_cons_of_mem _ hy)
      exact .kept (.nil _) rfl (hpos x List.mem_cons_self)
        (Nat.le_refl _) hrest

/-- The entry at a price is changed, or erased, and leaves events behind. -/
theorem settles_updateAt {price : Rat} {o : SimOrder ω}
    (hfind : c.find price = some o) {f : SimOrder ω → Option (SimOrder ω)}
    {es : List (SimEvent ω)} (hes : EntryEvents o es)
    (hf : ∀ o', f o = some o' →
      o'.order = o.order ∧ 0 < o'.remains ∧ Live o o' es) :
    Settles Live c (c.updateAt price f) es := by
  induction c with
  | nil => cases hfind
  | cons x c ih =>
      obtain ⟨p, o₁⟩ := x
      have hrest : ∀ y ∈ c, 0 < y.2.remains :=
        fun y hy => hpos y (List.mem_cons_of_mem _ hy)
      unfold OrderContainer.find at hfind
      rw [List.lookup_cons] at hfind
      unfold OrderContainer.updateAt
      by_cases hp : p = price
      · rw [hp, beq_self_eq_true] at hfind
        obtain rfl : o₁ = o := Option.some.inj hfind
        rw [if_pos hp, ← List.append_nil es]
        cases hfo : f o₁ with
        | none => exact .gone hes (settles_refl hrest)
        | some o' =>
            obtain ⟨horder, hpos', hlive⟩ := hf o' hfo
            exact .kept hes horder hpos' hlive (settles_refl hrest)
      · rw [beq_false_of_ne (Ne.symm hp)] at hfind
        rw [if_neg hp]
        have hle : o₁.remains + 0 ≤ o₁.remains := Nat.le_refl _
        exact .kept (.nil o₁) rfl (hpos (p, o₁) List.mem_cons_self) hle
          (ih hrest hfind)

/-- Sizes ahead and behind change, nothing else. -/
theorem settles_adjust {f : SimOrder ω → SimOrder ω}
    (hf : ∀ o, (f o).order = o.order ∧ (f o).remains = o.remains)
    (price : Rat) :
    Settles Live c (c.updateAt price fun o => some (f o)) [] := by
  induction c with
  | nil => exact .nil
  | cons x c ih =>
      obtain ⟨p, o⟩ := x
      have hrest : ∀ y ∈ c, 0 < y.2.remains :=
        fun y hy => hpos y (List.mem_cons_of_mem _ hy)
      have ho := hpos (p, o) List.mem_cons_self
      unfold OrderContainer.updateAt
      split
      · refine .kept (.nil _) (hf o).1 ?_ ?_ (settles_refl hrest)
        · rw [(hf o).2]
          exact ho
        · show (f o).remains + 0 ≤ o.remains
          rw [(hf o).2]
          exact Nat.le_refl _
      · exact .kept (.nil _) rfl ho (Nat.le_refl _) (ih hrest)

end Operations

-- ----------------------------------------------------------- one entry's end

/-- A fill of what there is, or of less. -/
theorem entryEvents_fill {o : SimOrder ω} {n : Nat} (hpos : 0 < n)
    (hle : n ≤ o.remains) (esi : Nat) (price : Rat) :
    EntryEvents o [⟨.filled, o.order, esi, n, price⟩] where
  about := by simp
  kind := by simp
  positive := by simpa using hpos
  within := by simpa [SimEvent.takes] using hle
  once := by simp [countOf]

/-- The rest is cancelled. -/
theorem entryEvents_cancel {o : SimOrder ω} {n : Nat} (hpos : 0 < n)
    (hle : n ≤ o.remains) (esi : Nat) (price : Rat) :
    EntryEvents o [⟨.cancelled, o.order, esi, n, price⟩] where
  about := by simp
  kind := by simp
  positive := by simpa using hpos
  within := by simpa [SimEvent.takes] using hle
  once := by simp [countOf]

/-- A fill of less, and the rest is cancelled. -/
theorem entryEvents_fillCancel {o : SimOrder ω} {n m : Nat} (hn : 0 < n)
    (hm : 0 < m) (hle : n + m ≤ o.remains) (esi : Nat) (price : Rat) :
    EntryEvents o [⟨.filled, o.order, esi, n, price⟩,
      ⟨.cancelled, o.order, esi, m, 0⟩] where
  about := by simp
  kind := by simp
  positive := by simp [hn, hm]
  within := by simpa [SimEvent.takes] using hle
  once := by simp [countOf]

namespace L2SimSession

variable {order : ω → Order ι} {esi : Nat} {x : Cross ω}

/-- What `cross_helper` takes for the open size is what remains. An order
that is not acknowledged yet has its whole size. -/
def OpenSizeOk (order : ω → Order ι) (o : SimOrder ω) : Prop :=
  stateCode (order o.order).state < stateCode .acknowledged →
    (order o.order).size = o.remains

/-- What one pass of `cross_helper` does to its entry. -/
structure EntryCrossed (x : Cross ω) (o : SimOrder ω)
    (r : Option (SimOrder ω) × List (SimEvent ω) × AvailSize) : Prop where
  events : EntryEvents o r.2.1
  kept : ∀ o', r.1 = some o' → o'.order = o.order ∧ 0 < o'.remains
  live : x.cxlRemainder = false → ∀ o', r.1 = some o' → Live o o' r.2.1
  dead : x.cxlRemainder = true → ∀ o', r.1 = some o' → Dead o o' r.2.1

/-- A cancel for the rest is one cancel. -/
theorem countOf_singleton (w : ω) (esi n : Nat) (price : Rat) :
    countOf .cancelled [(⟨.cancelled, w, esi, n, price⟩ : SimEvent ω)]
      = 1 := rfl

/-- No fill: the entry stays, and is cancelled as a remainder or not. -/
theorem entryCrossed_unfilled {o : SimOrder ω} (hpos : 0 < o.remains)
    (o' : SimOrder ω) (horder : o'.order = o.order)
    (hremains : o'.remains = o.remains) (esi : Nat) (a : AvailSize) :
    (x.cxlRemainder = true → EntryCrossed x o
      (some o', [⟨.cancelled, o.order, esi, o.remains, 0⟩], a))
    ∧ (x.cxlRemainder = false → EntryCrossed x o (some o', [], a)) := by
  have hkept : ∀ o₁, some o' = some o₁ →
      o₁.order = o.order ∧ 0 < o₁.remains := by
    rintro o₁ ⟨⟩
    exact ⟨horder, hremains ▸ hpos⟩
  constructor
  · intro hcxl
    refine ⟨entryEvents_cancel hpos (Nat.le_refl _) esi 0, hkept,
      fun h => ?_, fun _ o₁ _ => ?_⟩
    · rw [hcxl] at h
      cases h
    · show 0 < countOf .cancelled [_]
      rw [countOf_singleton]
      exact Nat.one_pos
  · intro hcxl
    refine ⟨.nil o, hkept, ?_, fun h => ?_⟩
    · rintro - o₁ ⟨⟩
      show o'.remains + 0 ≤ o.remains
      omega
    · rw [hcxl] at h
      cases h

/-- One turn of the loop of `cross_helper` settles one entry. -/
theorem crossEntry_crossed {o : SimOrder ω} (hpos : 0 < o.remains)
    (hopen : x.cxlRemainder = true → OpenSizeOk order o) (a : AvailSize) :
    EntryCrossed x o (crossEntry order esi x a o) := by
  -- the size that a remainder is cancelled with
  have hsize : x.cxlRemainder = true →
      (if stateCode (order o.order).state < stateCode .acknowledged then
        (order o.order).size else o.remains) = o.remains := by
    intro hcxl
    split
    case isTrue h => exact hopen hcxl h
    case isFalse => rfl
  unfold crossEntry
  dsimp only
  split
  case isTrue htrade =>
    simp only [Bool.and_eq_true, bne_iff_ne, ne_eq] at htrade
    by_cases hahead : o.sizeAhead = 0
    · -- a fill, of all or of some
      rw [if_pos hahead, if_pos hahead]
      have hfill : 0 < min o.remains (a.get (x.imbalanceOnly o.order)) :=
        lt_min hpos (Nat.pos_of_ne_zero htrade.2)
      have hle : min o.remains (a.get (x.imbalanceOnly o.order))
          ≤ o.remains := min_le_left _ _
      generalize min o.remains (a.get (x.imbalanceOnly o.order)) = n
        at hfill hle
      split
      case isTrue => exact ⟨entryEvents_fill hfill hle esi x.ref, nofun,
        fun _ => nofun, fun _ => nofun⟩
      case isFalse hrest =>
        split
        case isTrue hcxl =>
          rw [hsize hcxl]
          refine ⟨entryEvents_fillCancel hfill (by omega) (by omega) esi
            x.ref, ?_, fun h => ?_, fun _ o' ho' => ?_⟩
          · rintro o' ⟨⟩
            exact ⟨rfl, by show 0 < o.remains - n; omega⟩
          · rw [hcxl] at h
            cases h
          · show 0 < countOf .cancelled ([_] ++ [_])
            rw [countOf_append, countOf_singleton]
            omega
        case isFalse hcxl =>
          refine ⟨entryEvents_fill hfill hle esi x.ref, ?_, ?_,
            fun h => absurd h hcxl⟩
          · rintro o' ⟨⟩
            exact ⟨rfl, by show 0 < o.remains - n; omega⟩
          · rintro - o' ⟨⟩
            show o.remains - n + (n + 0) ≤ o.remains
            omega
    · -- somebody is ahead
      rw [if_neg hahead, if_neg hahead]
      split
      case isTrue hzero =>
        have hzero : o.remains - 0 = 0 := hzero
        omega
      case isFalse =>
        obtain ⟨hdead, hlive⟩ := entryCrossed_unfilled (x := x) hpos
          { o with remains := o.remains - 0 } rfl rfl esi
          (a.remove (x.imbalanceOnly o.order) 0)
        split
        case isTrue hcxl =>
          rw [hsize hcxl]
          exact hdead hcxl
        case isFalse hcxl => exact hlive (Bool.eq_false_iff.mpr hcxl)
  case isFalse =>
    obtain ⟨hdead, hlive⟩ := entryCrossed_unfilled (x := x) hpos _ rfl rfl
      esi a
    split
    case isTrue hcxl =>
      rw [hsize hcxl]
      exact hdead hcxl
    case isFalse hcxl => exact hlive (Bool.eq_false_iff.mpr hcxl)

/-- A loop over entries that are crossed is one that settles them. -/
theorem settles_crossLoop
    {keeps : SimOrder ω → SimOrder ω → List (SimEvent ω) → Prop}
    {c : OrderContainer ω}
    (hentry : ∀ y ∈ c, ∀ a, EntryCrossed x y.2
      (crossEntry order esi x a y.2))
    (hkeeps : ∀ o r, EntryCrossed x o r → ∀ o', r.1 = some o' →
      keeps o o' r.2.1) (a : AvailSize) :
    Settles keeps c (crossLoop order esi x a c).1
      (crossLoop order esi x a c).2 := by
  induction c generalizing a with
  | nil => exact .nil
  | cons y c ih =>
      obtain ⟨p, o⟩ := y
      have hcrossed := hentry (p, o) List.mem_cons_self a
      have hrest := ih (fun z hz => hentry z (List.mem_cons_of_mem _ hz))
        (crossEntry order esi x a o).2.2
      unfold crossLoop
      dsimp only
      cases hr : (crossEntry order esi x a o).1 with
      | none => exact .gone hcrossed.events hrest
      | some o' =>
          obtain ⟨horder, hpos⟩ := hcrossed.kept o' hr
          exact .kept hcrossed.events horder hpos
            (hkeeps o _ hcrossed o' hr) hrest

/-- A cross in the day keeps what it does not fill. -/
theorem settles_cross_live {c : OrderContainer ω}
    (hpos : ∀ y ∈ c, 0 < y.2.remains) (hx : x.cxlRemainder = false)
    (a : AvailSize) :
    Settles Live c (crossLoop order esi x a c).1
      (crossLoop order esi x a c).2 := by
  refine settles_crossLoop (fun y hy a => ?_) (fun o r h o' ho' => ?_) a
  · refine crossEntry_crossed (hpos y hy) (fun h => ?_) a
    rw [hx] at h
    cases h
  · exact h.live hx o' ho'

/-- And cancels nothing. -/
theorem crossEntry_filled (hx : x.cxlRemainder = false) (a : AvailSize)
    (o : SimOrder ω) {e : SimEvent ω}
    (he : e ∈ (crossEntry order esi x a o).2.1) : e.state = .filled := by
  unfold crossEntry at he
  simp only [hx, Bool.false_eq_true, if_false] at he
  by_cases hahead : o.sizeAhead = 0
  · simp only [if_pos hahead] at he
    split at he
    · split at he <;> rw [List.mem_singleton.mp he]
    · cases he
  · simp only [if_neg hahead] at he
    split at he
    · split at he <;> cases he
    · cases he

/-- Without cancels for the rest all events are fills. -/
theorem crossLoop_filled (hx : x.cxlRemainder = false)
    {c : OrderContainer ω} (a : AvailSize) {e : SimEvent ω}
    (he : e ∈ (crossLoop order esi x a c).2) : e.state = .filled := by
  induction c generalizing a with
  | nil => cases he
  | cons y c ih =>
      rcases List.mem_append.mp he with he | he
      · exact crossEntry_filled hx a y.2 he
      · exact ih _ he

/-- An auction cancels what it does not fill. -/
theorem settles_cross_dead {c : OrderContainer ω}
    (hpos : ∀ y ∈ c, 0 < y.2.remains) (hx : x.cxlRemainder = true)
    (hopen : ∀ y ∈ c, OpenSizeOk order y.2) (a : AvailSize) :
    Settles Dead c (crossLoop order esi x a c).1
      (crossLoop order esi x a c).2 :=
  settles_crossLoop
    (fun y hy a => crossEntry_crossed (hpos y hy) (fun _ => hopen y hy) a)
    (fun _ _ h o' ho' => h.dead hx o' ho') a

/-- The fills of an execution add up to the order. -/
theorem execFills_spec (w : ω) (esi : Nat) (ref : Rat) {avail : Nat}
    (havail : 0 < avail) (remains : Nat) (hpos : 0 < remains) :
    (∀ e ∈ execFills w esi ref avail remains,
      e.order = w ∧ e.state = .filled ∧ 0 < e.size)
    ∧ sizes (execFills w esi ref avail remains) = remains := by
  induction remains using Nat.strongRecOn with
  | ind remains ih =>
      have hmin : 0 < min remains avail := lt_min hpos havail
      have hhead : ∀ n,
          (⟨.filled, w, esi, n, ref⟩ : SimEvent ω).takes = n :=
        fun n => if_pos (.inl rfl)
      unfold execFills
      dsimp only
      split
      case isTrue hlast =>
        refine ⟨?_, ?_⟩
        · intro e he
          rw [List.mem_singleton.mp he]
          exact ⟨rfl, rfl, hmin⟩
        · rw [sizes_cons, hhead, sizes_nil]
          omega
      case isFalse hrest =>
        have hrest : remains - min remains avail ≠ 0 :=
          fun h => hrest (.inl h)
        obtain ⟨htail, htaken⟩ := ih (remains - min remains avail) (by omega)
          (by omega)
        refine ⟨?_, ?_⟩
        · intro e he
          rcases List.mem_cons.mp he with rfl | he
          · exact ⟨rfl, rfl, hmin⟩
          · exact htail e he
        · rw [sizes_cons, hhead, htaken]
          omega

/-- The fills of one entry take no more than it has. -/
theorem entryEvents_execFills {o : SimOrder ω} (hpos : 0 < o.remains)
    (ref : Rat) {avail : Nat} (havail : 0 < avail) :
    EntryEvents o (execFills o.order esi ref avail o.remains) := by
  obtain ⟨hfills, htaken⟩ := execFills_spec o.order esi ref havail
    o.remains hpos
  refine ⟨fun e he => (hfills e he).1, fun e he => .inl (hfills e he).2.1,
    fun e he => (hfills e he).2.2, Nat.le_of_eq htaken, ?_⟩
  have hnone : countOf .cancelled (execFills o.order esi ref avail o.remains)
      = 0 := by
    refine countOf_eq_zero.mpr fun e he hstate => ?_
    rw [(hfills e he).2.1] at hstate
    cases hstate
  rw [hnone]
  exact Nat.zero_le _

/-- An execution fills an order whole, or leaves it. -/
theorem settles_execCross {check : ω → Bool} {ref : Rat}
    {c : OrderContainer ω} (hpos : ∀ y ∈ c, 0 < y.2.remains) (avail : Nat) :
    Settles Live c (execCrossLoop check esi ref avail c).1
      (execCrossLoop check esi ref avail c).2.1 := by
  induction c generalizing avail with
  | nil => exact .nil
  | cons y c ih =>
      obtain ⟨p, o⟩ := y
      have ho : 0 < o.remains := hpos (p, o) List.mem_cons_self
      have hrest := ih (fun z hz => hpos z (List.mem_cons_of_mem _ hz))
        (avail - min o.sizeAhead avail)
      unfold execCrossLoop
      split
      case isFalse => exact settles_refl hpos
      case isTrue =>
        dsimp only
        split
        case isTrue havail =>
          exact .gone (entryEvents_execFills ho ref
            (Nat.pos_of_ne_zero havail)) hrest
        case isFalse =>
          exact .kept (.nil o) rfl ho
            (Nat.le_refl _) hrest

/-- The loop of `exec_cross_helper` only fills. -/
theorem execCrossLoop_filled {check : ω → Bool} {ref : Rat}
    {c : OrderContainer ω} (hpos : ∀ y ∈ c, 0 < y.2.remains) (avail : Nat)
    {e : SimEvent ω} (he : e ∈ (execCrossLoop check esi ref avail c).2.1) :
    e.state = .filled := by
  induction c generalizing avail with
  | nil => cases he
  | cons y c ih =>
      obtain ⟨p, o⟩ := y
      have hrest := ih (fun z hz => hpos z (List.mem_cons_of_mem _ hz))
        (avail - min o.sizeAhead avail)
      unfold execCrossLoop at he
      split at he
      case isFalse => cases he
      case isTrue =>
        dsimp only at he
        split at he
        case isTrue havail =>
          rcases List.mem_append.mp he with he | he
          · exact ((execFills_spec o.order esi ref (Nat.pos_of_ne_zero havail)
              o.remains (hpos (p, o) List.mem_cons_self)).1 e he).2.1
          · exact hrest he
        case isFalse => exact hrest he

/-- A cancel request takes what it says of the order, or all of it. -/
theorem settles_reduceHelper [DecidableEq ω] {c : OrderContainer ω}
    (hpos : ∀ y ∈ c, 0 < y.2.remains) (esi : Nat) (price : Rat) (w : ω)
    (newqty : Nat) :
    ((reduceHelper c price w newqty).1 = 0
      ∧ Settles Live c (reduceHelper c price w newqty).2 [])
    ∨ (0 < (reduceHelper c price w newqty).1
      ∧ Settles Live c (reduceHelper c price w newqty).2
        [⟨.cancelled, w, esi, (reduceHelper c price w newqty).1, 0⟩]) := by
  unfold reduceHelper
  cases hfind : c.find price with
  | none => exact .inl ⟨rfl, settles_refl hpos⟩
  | some o =>
      have ho : 0 < o.remains := by
        obtain ⟨p, hmem⟩ := mem_of_find hfind
        exact hpos _ hmem
      dsimp only
      split
      case isFalse => exact .inl ⟨rfl, settles_refl hpos⟩
      case isTrue hw =>
        subst hw
        split
        case isTrue =>
          exact .inr ⟨ho, settles_updateAt hpos hfind
            (entryEvents_cancel ho (Nat.le_refl _) esi 0) nofun⟩
        case isFalse hall =>
          split
          case isTrue hless =>
            have hqty : 0 < newqty :=
              Nat.pos_of_ne_zero fun h => hall (.inl h)
            refine .inr ⟨hqty, settles_updateAt hpos hfind
              (entryEvents_cancel hqty (Nat.le_of_lt hless) esi 0) ?_⟩
            rintro o' ⟨⟩
            refine ⟨rfl, ?_, ?_⟩
            · show 0 < o.remains - newqty
              omega
            · show o.remains - newqty + (newqty + 0) ≤ o.remains
              omega
          case isFalse => exact .inl ⟨rfl, settles_refl hpos⟩

/-- It takes something of an order that rests with no less. -/
theorem reduceHelper_pos_iff [DecidableEq ω] {c : OrderContainer ω}
    (hpos : ∀ y ∈ c, 0 < y.2.remains) (price : Rat) (w : ω) (newqty : Nat) :
    0 < (reduceHelper c price w newqty).1
      ↔ ∃ o, c.find price = some o ∧ o.order = w
        ∧ (newqty = 0 ∨ newqty ≤ o.remains) := by
  unfold reduceHelper
  cases hfind : c.find price with
  | none => simp
  | some o =>
      have ho : 0 < o.remains := by
        obtain ⟨p, hmem⟩ := mem_of_find hfind
        exact hpos _ hmem
      simp only [Option.some.injEq, exists_eq_left']
      by_cases hw : o.order = w
      · rw [if_pos hw]
        by_cases hall : newqty = 0 ∨ o.remains = newqty
        · rw [if_pos hall]
          exact ⟨fun _ => ⟨hw, by omega⟩, fun _ => ho⟩
        · rw [if_neg hall]
          by_cases hless : newqty < o.remains
          · rw [if_pos hless]
            exact ⟨fun _ => ⟨hw, by omega⟩, fun _ => by omega⟩
          · rw [if_neg hless]
            constructor
            · exact fun h => absurd h (Nat.lt_irrefl 0)
            · rintro ⟨-, h⟩
              omega
      · rw [if_neg hw]
        exact ⟨fun h => absurd h (Nat.lt_irrefl 0), fun h => absurd h.1 hw⟩

end L2SimSession

end TradingEngine.OE
