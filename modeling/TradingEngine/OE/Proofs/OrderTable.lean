/-
`m_orders` as an index from local ids to orders.

`send` takes the next local id and an entry of the table before
`validate_base` is asked whether the order may be sent at all. For a new
order that is the order's first id. For an order that was sent before, the
refusal comes too late: the order has a second entry and answers to the
second id, its first entry no longer matches, and `LOCALLY_REJECTED` is
written over whatever state it was in.

# The condition

The table stays an index, and refusals leave their orders alone, in every
run whose `send` calls are handed `NEW_AND_UNSENT` orders, and in no other
(`order_table_is_index_iff`). What is asked of the environment is that no
pointer is used after `destroy` deleted its order.
-/
import TradingEngine.OE.Proofs.Send

namespace TradingEngine.OE

variable {ω ι : Type}

namespace Trading

-- ============================================================== statements

/-- `m_orders[i]` points to the order. -/
def ListedAt (t : Trading ω ι) (w : ω) (i : Nat) : Prop :=
  t.om.orders[i]? = some (some w)

/-- Every entry is null, or an order that is not destroyed and whose local
id is the entry's index. -/
structure Indexed (t : Trading ω ι) : Prop where
  alive : ∀ w i, t.ListedAt w i → w ∉ t.destroyed
  localID : ∀ w i, t.ListedAt w i → (t.om.order w).localID = i
  once : ∀ w i j, t.ListedAt w i → t.ListedAt w j → i = j

variable [DecidableEq ω] [DecidableEq ι]

/-- A `send` of an order that is not `NEW_AND_UNSENT` leaves its local id,
its state and its entries alone. -/
def RefusalLeaves (t : Trading ω ι) : Event ω → Prop
  | .send w session a =>
      (t.om.order w).unsent = false →
        let t' := t.step (.send w session a)
        (t'.om.order w).localID = (t.om.order w).localID
          ∧ (t'.om.order w).state = (t.om.order w).state
          ∧ ∀ i, t'.ListedAt w i ↔ t.ListedAt w i
  | _ => True

/-- What a step is to keep. -/
def TableKept (t : Trading ω ι) (e : Event ω) : Prop :=
  (t.step e).Indexed ∧ t.RefusalLeaves e

/-- No pointer is used after its order was deleted. -/
def Alive (t : Trading ω ι) (e : Event ω) : Prop := e.about ∉ t.destroyed

/-- What is handed to `send` is `NEW_AND_UNSENT`. -/
def SendsUnsent (t : Trading ω ι) : Event ω → Prop
  | .send w _ _ => (t.om.order w).unsent = true
  | _ => True

instance (t : Trading ω ι) (e : Event ω) : Decidable (t.Alive e) :=
  inferInstanceAs (Decidable (_ ∉ _))

instance (t : Trading ω ι) : (e : Event ω) → Decidable (t.SendsUnsent e)
  | .send .. | .cancel .. | .destroy .. | .acknowledged .. | .rejected ..
  | .fill .. | .cancelled .. | .cancelRejected .. => by
      unfold SendsUnsent
      infer_instance

-- =============================================================== invariant

structure TableInv (t : Trading ω ι) : Prop where
  indexed : t.Indexed
  /-- The entry that protects against looking up local id zero. -/
  sentinel : t.om.orders[0]? = some none
  /-- The assertion of `send`. -/
  length : t.om.orders.length = t.om.localID + 1
  counted : ∀ w, (t.om.order w).localID ≤ t.om.localID
  unsent : ∀ w, (t.om.order w).unsent = true → (t.om.order w).localID = 0

omit [DecidableEq ω] [DecidableEq ι] in
/-- The invariant for a table whose entries carry their index. -/
theorem TableInv.mk' {t : Trading ω ι}
    (halive : ∀ w i, t.ListedAt w i → w ∉ t.destroyed)
    (hid : ∀ w i, t.ListedAt w i → (t.om.order w).localID = i)
    (hsentinel : t.om.orders[0]? = some none)
    (hlength : t.om.orders.length = t.om.localID + 1)
    (hcounted : ∀ w, (t.om.order w).localID ≤ t.om.localID)
    (hunsent : ∀ w, (t.om.order w).unsent = true →
      (t.om.order w).localID = 0) : TableInv t :=
  ⟨⟨halive, hid, fun w i j hi hj => (hid w i hi).symm.trans (hid w j hj)⟩,
    hsentinel, hlength, hcounted, hunsent⟩

omit [DecidableEq ω] [DecidableEq ι] in
/-- An order without a local id has no entry. -/
theorem TableInv.not_listedAt {t : Trading ω ι} (h : TableInv t) {w : ω}
    (hw : (t.om.order w).localID = 0) (i : Nat) : ¬t.ListedAt w i := by
  intro hi
  have hid := h.indexed.localID w i hi
  rw [hw] at hid
  subst hid
  have hsentinel := h.sentinel
  rw [show t.om.orders[0]? = _ from hi] at hsentinel
  cases hsentinel

-- =================================================================== steps

/-- Only `send` gives an order a local id, and nothing makes it new. -/
theorem step_localID (t : Trading ω ι) {e : Event ω}
    (he : ∀ v session a, e ≠ .send v session a) (w : ω) :
    ((t.step e).om.order w).localID = (t.om.order w).localID
      ∧ (((t.step e).om.order w).unsent = true →
        (t.om.order w).unsent = true) := by
  by_cases hw : e.about = w
  case neg =>
    rw [t.step_order_of_ne hw]
    exact ⟨rfl, id⟩
  case pos =>
    -- a report writes another state, which is not `NEW_AND_UNSENT`
    have written : ∀ {o : Order ι},
        (t.step e).om.order w = o → o.localID = (t.om.order w).localID →
        o.unsent = false →
        ((t.step e).om.order w).localID = (t.om.order w).localID
          ∧ (((t.step e).om.order w).unsent = true →
            (t.om.order w).unsent = true) := by
      intro o hself hid hunsent
      rw [hself, hunsent]
      exact ⟨hid, nofun⟩
    cases e with
    | send v session a => exact absurd rfl (he v session a)
    | cancel v newqty a =>
        obtain rfl : v = w := hw
        rcases t.step_cancel_order v newqty a with hself | hself
        · rw [hself]
          exact ⟨rfl, id⟩
        · exact written hself rfl rfl
    | destroy v onlyIfTerminal sessionDestroys =>
        rw [step_destroy_order]
        exact ⟨rfl, id⟩
    | acknowledged v exchangeID size ts exts =>
        obtain rfl : v = w := hw
        exact written (Function.update_self ..) rfl rfl
    | rejected v ts exts =>
        obtain rfl : v = w := hw
        exact written (Function.update_self ..) rfl rfl
    | fill v size price ts exts feeCode =>
        obtain rfl : v = w := hw
        refine written (Function.update_self ..) rfl ?_
        show ((if _ then OrderState.filled else .partiallyFilled)
          == .newAndUnsent) = false
        split <;> rfl
    | cancelled v size ts exts =>
        obtain rfl : v = w := hw
        refine written (Function.update_self ..) ?_ ?_
        · rw [orderUpdateOnCancel_eq]
        · rw [orderUpdateOnCancel_eq]
          show ((if _ then OrderState.cancelled else .partiallyCancelled)
            == .newAndUnsent) = false
          split <;> rfl
    | cancelRejected v ts exts =>
        obtain rfl : v = w := hw
        exact written (Function.update_self ..) rfl rfl

/-- A step that is no `send` keeps the invariant when it keeps the table
and destroys nothing. -/
theorem TableInv.still {t : Trading ω ι} (h : TableInv t) {e : Event ω}
    (he : ∀ v session a, e ≠ .send v session a)
    (hdestroyed : (t.step e).destroyed = t.destroyed)
    (horders : (t.step e).om.orders = t.om.orders)
    (hcounter : (t.step e).om.localID = t.om.localID) :
    TableInv (t.step e) := by
  have hlisted : ∀ w i, (t.step e).ListedAt w i ↔ t.ListedAt w i := by
    intro w i
    unfold ListedAt
    rw [horders]
  refine .mk' (fun w i hi => ?_) (fun w i hi => ?_) ?_ ?_ (fun w => ?_)
    (fun w hw => ?_)
  · rw [hdestroyed]
    exact h.indexed.alive w i ((hlisted w i).mp hi)
  · rw [(t.step_localID he w).1]
    exact h.indexed.localID w i ((hlisted w i).mp hi)
  · rw [horders]
    exact h.sentinel
  · rw [horders, hcounter]
    exact h.length
  · rw [(t.step_localID he w).1, hcounter]
    exact h.counted w
  · rw [(t.step_localID he w).1]
    exact h.unsent w ((t.step_localID he w).2 hw)

/-- A `send` of a new order: it had no entry, and gets the one of its first
id. -/
theorem TableInv.send {t : Trading ω ι} (h : TableInv t) {w : ω}
    (halive : w ∉ t.destroyed) (hnew : (t.om.order w).unsent = true)
    (session : Bytes) (a : OrderManager.SendAnswer) :
    TableInv (t.step (.send w session a)) := by
  obtain ⟨o, hwrites⟩ := t.om.send_writes w session a
  have horders : (t.step (.send w session a)).om.orders
      = t.om.orders ++ [some w] := hwrites.orders
  have hcounter : (t.step (.send w session a)).om.localID
      = t.om.localID + 1 := hwrites.counter
  have hself : (t.step (.send w session a)).om.order w = o :=
    (congrFun hwrites.order w).trans (Function.update_self ..)
  have hother : ∀ v, v ≠ w →
      (t.step (.send w session a)).om.order v = t.om.order v :=
    fun v hv => t.step_order_of_ne (Ne.symm hv)
  have hlisted : ∀ v i, (t.step (.send w session a)).ListedAt v i →
      t.ListedAt v i ∨ (v = w ∧ i = t.om.localID + 1) := by
    intro v i hi
    unfold ListedAt at hi
    rw [horders] at hi
    by_cases hlt : i < t.om.orders.length
    · rw [List.getElem?_append_left hlt] at hi
      exact .inl hi
    · have hlength := h.length
      rw [List.getElem?_append_right (by omega),
        List.getElem?_singleton] at hi
      split at hi
      case isTrue hlast =>
        cases hi
        exact .inr ⟨rfl, by omega⟩
      case isFalse => cases hi
  have hfresh := h.not_listedAt (h.unsent w hnew)
  refine .mk' (fun v i hi => ?_) (fun v i hi => ?_) ?_ ?_ (fun v => ?_)
    (fun v hv => ?_)
  · rcases hlisted v i hi with hi | ⟨rfl, -⟩
    · exact h.indexed.alive v i hi
    · exact halive
  · rcases hlisted v i hi with hold | ⟨rfl, rfl⟩
    · have hne : v ≠ w := by
        rintro rfl
        exact hfresh i hold
      rw [hother v hne]
      exact h.indexed.localID v i hold
    · rw [hself, hwrites.localID]
  · have hlength := h.length
    rw [horders, List.getElem?_append_left (by omega)]
    exact h.sentinel
  · rw [horders, hcounter, List.length_append, h.length]
    rfl
  · rw [hcounter]
    by_cases hv : v = w
    · rw [hv, hself, hwrites.localID]
    · rw [hother v hv]
      exact (h.counted v).trans (Nat.le_succ _)
  · by_cases hv' : v = w
    · rw [hv', hself, Order.unsent, hwrites.state] at hv
      split at hv <;> cases hv
    · rw [hother v hv'] at hv ⊢
      exact h.unsent v hv

/-- A `destroy` clears the entry of the order, if it has one. -/
theorem TableInv.destroy {t : Trading ω ι} (h : TableInv t) (w : ω)
    (onlyIfTerminal sessionDestroys : Bool) :
    TableInv (t.step (.destroy w onlyIfTerminal sessionDestroys)) := by
  let e : Event ω := .destroy w onlyIfTerminal sessionDestroys
  have horder : ∀ v, (t.step e).om.order v = t.om.order v := fun v =>
    t.step_destroy_order w v onlyIfTerminal sessionDestroys
  rcases t.om.destroy_cases w onlyIfTerminal sessionDestroys with
    heq | ⟨hzero, heq⟩ | ⟨hid, heq⟩
  · have hstep : t.step e = t := by
      show { t with om := _, destroyed := if _ then _ else _ } = t
      rw [heq]
      rfl
    show TableInv (t.step e)
    rw [hstep]
    exact h
  · -- never sent: it had no entry
    have hstep : t.step e = { t with
        om := t.om.append (logDestroy (t.om.order w))
        destroyed := insert w t.destroyed } := by
      show { t with om := _, destroyed := if _ then _ else _ } = _
      rw [heq]
      rfl
    show TableInv (t.step e)
    rw [hstep]
    refine .mk' (fun v i hi => ?_) (fun v i hi => h.indexed.localID v i hi)
      h.sentinel h.length h.counted h.unsent
    have hne : v ≠ w := by
      rintro rfl
      exact h.not_listedAt hzero i hi
    exact fun hv => (Finset.mem_insert.mp hv).elim hne
      (h.indexed.alive v i hi)
  · have hstep : t.step e = { t with
        om := { t.om with
          orders := t.om.orders.set (t.om.order w).localID none }.append
            (logDestroy (t.om.order w))
        destroyed := insert w t.destroyed } := by
      show { t with om := _, destroyed := if _ then _ else _ } = _
      rw [heq]
      rfl
    have hlisted : ∀ v i, (t.step e).ListedAt v i →
        t.ListedAt v i ∧ i ≠ (t.om.order w).localID := by
      intro v i hi
      rw [hstep] at hi
      have hi : (t.om.orders.set (t.om.order w).localID none)[i]?
          = some (some v) := hi
      rw [List.getElem?_set] at hi
      split at hi
      case isTrue => split at hi <;> cases hi
      case isFalse hne => exact ⟨hi, Ne.symm hne⟩
    show TableInv (t.step e)
    refine .mk' (fun v i hi => ?_) (fun v i hi => ?_) ?_ ?_ ?_ ?_
    · obtain ⟨hold, hne⟩ := hlisted v i hi
      rw [hstep]
      intro hv
      rcases Finset.mem_insert.mp hv with rfl | hv
      · exact hne (h.indexed.localID v i hold).symm
      · exact h.indexed.alive v i hold hv
    · rw [horder]
      exact h.indexed.localID v i (hlisted v i hi).1
    · rw [hstep]
      show (t.om.orders.set (t.om.order w).localID none)[0]? = _
      rw [List.getElem?_set_ne hid]
      exact h.sentinel
    · rw [hstep]
      show (t.om.orders.set (t.om.order w).localID none).length = _
      rw [List.length_set]
      exact h.length
    · rw [hstep]
      exact h.counted
    · rw [hstep]
      exact h.unsent

theorem tableInv_step {t : Trading ω ι} {e : Event ω} (h : TableInv t)
    (halive : t.Alive e) (hnew : t.SendsUnsent e) :
    TableInv (t.step e) := by
  cases e with
  | send w session a => exact h.send halive hnew session a
  | destroy w onlyIfTerminal sessionDestroys =>
      exact h.destroy w onlyIfTerminal sessionDestroys
  | cancel w newqty a =>
      have hframe : (t.om.cancel w newqty a).2.orders = t.om.orders
          ∧ (t.om.cancel w newqty a).2.localID = t.om.localID := by
        rcases t.om.cancel_cases w newqty a with heq | ⟨-, -, heq⟩ <;>
          rw [heq] <;> exact ⟨rfl, rfl⟩
      exact h.still nofun rfl hframe.1 hframe.2
  | _ => exact h.still nofun rfl rfl rfl

/-- The second id makes the difference: it is larger than the first. -/
theorem refusalLeaves_send_iff {t : Trading ω ι} (h : TableInv t) (w : ω)
    (session : Bytes) (a : OrderManager.SendAnswer) :
    t.RefusalLeaves (.send w session a)
      ↔ (t.om.order w).unsent = true := by
  constructor
  · intro hleaves
    by_contra hsent
    have hid := (hleaves (Bool.eq_false_iff.mpr hsent)).1
    obtain ⟨o, hwrites⟩ := t.om.send_writes w session a
    have hself : (t.step (.send w session a)).om.order w = o :=
      (congrFun hwrites.order w).trans (Function.update_self ..)
    rw [hself, hwrites.localID] at hid
    have hcounted := h.counted w
    omega
  · intro hnew hsent
    rw [hnew] at hsent
    cases hsent

theorem tableKept_iff {t : Trading ω ι} {e : Event ω} (h : TableInv t)
    (halive : t.Alive e) : t.TableKept e ↔ t.SendsUnsent e := by
  constructor
  · rintro ⟨-, hleaves⟩
    cases e with
    | send w session a => exact (refusalLeaves_send_iff h ..).mp hleaves
    | _ => trivial
  · intro hnew
    refine ⟨(tableInv_step h halive hnew).indexed, ?_⟩
    cases e with
    | send w session a => exact (refusalLeaves_send_iff h ..).mpr hnew
    | _ => trivial

omit [DecidableEq ω] [DecidableEq ι] in
theorem tableInv_start (c : OrderManagerConf ω ι) :
    TableInv (start c) := by
  obtain ⟨sessions, records, heq, -⟩ := OrderManager.start_frame c
  have hlisted : ∀ w i, ¬(start c).ListedAt w i := by
    intro w i hi
    have hi : (OrderManager.start c).orders[i]? = some (some w) := hi
    rw [heq] at hi
    have hi : [none][i]? = some (some w) := hi
    rw [List.getElem?_singleton] at hi
    split at hi <;> cases hi
  have hzero : ∀ w, ((start c).om.order w).localID = 0 := by
    intro w
    show ((OrderManager.start c).order w).localID = 0
    rw [heq]
    rfl
  refine .mk' (fun w i hi => absurd hi (hlisted w i))
    (fun w i hi => absurd hi (hlisted w i)) ?_ ?_
    (fun w => (hzero w).trans_le (Nat.zero_le _)) fun w _ => hzero w
  · show (OrderManager.start c).orders[0]? = _
    rw [heq]
    rfl
  · show (OrderManager.start c).orders.length
      = (OrderManager.start c).localID + 1
    rw [heq]
    rfl

end Trading

-- ================================================================= result

variable [DecidableEq ω] [DecidableEq ι]

/-- In a run that uses no deleted order, the table is an index after every
step and refused orders are left alone, if and only if every order handed
to `send` is `NEW_AND_UNSENT`. -/
theorem order_table_is_index_iff (c : OrderManagerConf ω ι)
    (es : List (Event ω))
    (hes : Lib.Admits Trading.step Trading.Alive (Trading.start c) es) :
    ((Trading.start c).Indexed
        ∧ Lib.Admits Trading.step Trading.TableKept (Trading.start c) es)
      ↔ Lib.Admits Trading.step Trading.SendsUnsent (Trading.start c) es := by
  rw [and_iff_right (Trading.tableInv_start c).indexed]
  exact Lib.admits_iff_of_step (I := Trading.TableInv)
    (fun _ _ h halive => Trading.tableKept_iff h halive)
    (fun _ _ h halive hnew => Trading.tableInv_step h halive hnew)
    (Trading.tableInv_start c) hes

/-- Two orders, one of them destroyed after its last fill. -/
theorem order_table_is_index_iff_demo :
    let c : OrderManagerConf Bool Unit := .plain fun _ =>
      .dayLimit () .buy 5 10
    let es : List (Event Bool) := [.send true [66] .taken,
      .acknowledged true 1 5 ⟨1, 0⟩ 1, .send false [66] .taken,
      .fill true 5 10 ⟨2, 0⟩ 2 .unknown, .destroy true true true]
    Lib.Admits Trading.step Trading.TableKept (Trading.start c) es := by
  intro c es
  exact ((order_table_is_index_iff c es (by decide +kernel)).mpr
    (by decide +kernel)).2

/-- An order that is sent, acknowledged and by mistake sent again: the
second `send` is refused, the order is in the table twice, the first time
under an id it no longer has, and its state says `LOCALLY_REJECTED` while
it is open at the exchange. -/
theorem resent_order_listed_twice :
    let c : OrderManagerConf Unit Unit := .plain fun _ =>
      .dayLimit () .buy 5 10
    let es : List (Event Unit) := [.send () [66] .taken,
      .acknowledged () 1 5 ⟨1, 0⟩ 1, .send () [66] .taken]
    let t := Lib.run Trading.step (Trading.start c) es
    Lib.Admits Trading.step Trading.Alive (Trading.start c) es
      ∧ t.om.orders = [none, some (), some ()]
      ∧ (t.om.order ()).localID = 2
      ∧ (t.om.order ()).state = .locallyRejected
      ∧ ¬t.Indexed
      ∧ ¬Lib.Admits Trading.step Trading.TableKept (Trading.start c) es := by
  intro c es t
  have horders : t.om.orders = [none, some (), some ()] := by
    decide +kernel
  have hindexed : ¬t.Indexed := by
    intro h
    have honce := h.once () 1 2
    unfold Trading.ListedAt at honce
    rw [horders] at honce
    cases honce rfl rfl
  refine ⟨by decide +kernel, horders, by decide +kernel, by decide +kernel,
    hindexed, fun hkept => ?_⟩
  exact hindexed hkept.2.2.1.1

end TradingEngine.OE
