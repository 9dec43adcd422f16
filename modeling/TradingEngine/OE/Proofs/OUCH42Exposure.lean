/-
Open exposure over the life of an OUCH order: what its fills and cancels
take away, against what `send` added.

`send` adds the order's size at its price. A fill or a cancel takes its
shares away at the price the order has by then, and two messages overwrite
that price with the one the exchange states. So what is taken away is an
account of its own, `removedValue`, that can be kept from the messages
alone; `tracks_run` says that the book follows it, and the exposures are
back where they were exactly if it comes to what was added.

# The invariant

`Tracks` says of a state in the middle of the order's life that the book lost
a certain value since the send, and at which price the order goes on. A
message about the order changes both by what it removes, and the price it
states. By induction the book has lost `removedValue` in the end. The sizes
play no part in it: that they are used up is what ends the life of the order.
-/
import TradingEngine.OE.OUCH42Orders
import TradingEngine.OE.Proofs.Exposure

namespace TradingEngine.OE

variable {ι : Type}

-- ============================================================ the messages

namespace OUCH42

/-- The price the order has after the message. -/
def OrderBody.priceAfter (price : Rat) : OrderBody → Rat
  | .accepted m => getLimit m.price
  | .orderPriorityUpdate executionPrice _ => getLimit executionPrice
  | _ => price

/-- The shares the message takes off an order of the given size. -/
def OrderBody.removes (size : Nat) : OrderBody → Nat
  | .accepted m => if m.orderState = .dead then size else 0
  | .canceled shares | .aiqCancelled shares => shares.toNat
  | .executed shares _ _ => shares.toNat
  | _ => 0

/-- The shares removed, each at the price in force when it was. -/
def removedValue (size : Nat) : Rat → List OrderBody → Rat
  | _, [] => 0
  | price, b :: bs =>
      b.removes size * b.priceAfter price
        + removedValue size (b.priceAfter price) bs

/-- Messages that only execute, cancel or reprice the order. -/
def OrderBody.Reduces : OrderBody → Prop
  | .canceled _ | .aiqCancelled _ | .executed .. => True
  | .orderPriorityUpdate .. => True
  | _ => False

instance (b : OrderBody) : Decidable b.Reduces := by
  cases b <;> unfold OrderBody.Reduces <;> infer_instance

/-- A message about one order, without the id. -/
structure Notice where
  ts : Timestamp
  exchTime : Nat
  hprMarking : UInt8
  body : OrderBody

def Notice.packet (id : Nat) (n : Notice) : Packet :=
  ⟨n.ts, .order ⟨n.exchTime, ⟨n.hprMarking, id⟩⟩ n.body⟩

/-- The life of an order that the exchange accepts: an `ACCEPTED`, then
messages that reduce it, until its size is used up. -/
structure Completes (size : Nat) (ns : List Notice) : Prop where
  accepted : ∃ m bs, ns.map Notice.body = .accepted m :: bs
    ∧ ∀ b ∈ bs, b.Reduces
  unmarked : ∀ n ∈ ns, n.hprMarking ≠ riskbotReject
  total : (ns.map fun n => n.body.removes size).sum = size

/-- What the life of an order is made of. -/
theorem Completes.bodies {size : Nat} {ns : List Notice}
    (h : Completes size ns) :
    ∀ n ∈ ns, (∃ m, n.body = .accepted m) ∨ n.body.Reduces := by
  obtain ⟨m, bs, hns, hbs⟩ := h.accepted
  intro n hn
  have hmem : n.body ∈ OrderBody.accepted m :: bs := by
    rw [← hns]
    exact List.mem_map_of_mem hn
  rcases List.mem_cons.mp hmem with hb | hb
  · exact .inl ⟨m, hb⟩
  · exact .inr (hbs _ hb)

/-- Where no message changes the price, all of it goes at that price. -/
theorem removedValue_of_echoed {size : Nat} {price : Rat}
    {bs : List OrderBody} (h : ∀ b ∈ bs, b.priceAfter price = price) :
    removedValue size price bs
      = ((bs.map (OrderBody.removes size)).sum : Nat) * price := by
  induction bs with
  | nil =>
      show (0 : Rat) = ((0 : Nat) : Rat) * price
      rw [Nat.cast_zero, zero_mul]
  | cons b bs ih =>
      have hb := h b List.mem_cons_self
      have hbs := ih fun b' hb' => h b' (List.mem_cons_of_mem b hb')
      show b.removes size * b.priceAfter price
        + removedValue size (b.priceAfter price) bs = _
      rw [hb, hbs, List.map_cons, List.sum_cons, Nat.cast_add, add_mul]

end OUCH42

open OUCH42

-- ================================================================ the book

/-- The open exposures, long and short, of every instrument and of the
firm. -/
def OrderManager.openExposures {ω : Type} (om : OrderManager ω ι) :
    (ι → Rat × Rat) × Rat × Rat :=
  (fun i => ((om.desk.position i).openLongExposure,
      (om.desk.position i).openShortExposure),
    om.desk.firmRisk.longOpenExposure, om.desk.firmRisk.shortOpenExposure)

/-- The exposures of all instruments and of the firm. -/
theorem OrderManager.openExposures_eq_iff {ω : Type}
    {om om' : OrderManager ω ι} :
    om'.openExposures = om.openExposures
      ↔ (∀ i, (om'.book.position i).openVec.2.2
          = (om.book.position i).openVec.2.2)
        ∧ om'.book.totals.openPair = om.book.totals.openPair := by
  constructor
  · intro h
    exact ⟨fun i => congrFun (congrArg Prod.fst h) i, congrArg Prod.snd h⟩
  · rintro ⟨hpos, hfirm⟩
    exact Prod.ext (funext hpos) hfirm

/-- An open value on one side. -/
def valueShare (s : Side) (value : Rat) : Rat × Rat :=
  if s = .buy then (value, 0) else (0, -value)

/-- The value of a share. -/
theorem openShare_value (s : Side) (p : Rat) (n : Int) :
    (openShare s p n).2.2 = valueShare s (n * p) := by
  unfold openShare valueShare
  split <;> rfl

/-- No value, no exposure. -/
theorem valueShare_zero (s : Side) : valueShare s 0 = 0 := by
  unfold valueShare
  split
  · rfl
  · exact Prod.ext rfl neg_zero

/-- Values add up. -/
theorem valueShare_add (s : Side) (u v : Rat) :
    valueShare s (u + v) = valueShare s u + valueShare s v := by
  unfold valueShare
  split
  · exact Prod.ext rfl (add_zero _).symm
  · exact Prod.ext (add_zero _).symm (neg_add ..)

/-- And subtract. -/
theorem valueShare_sub (s : Side) (u v : Rat) :
    valueShare s (u - v) = valueShare s u - valueShare s v := by
  rw [eq_sub_iff_add_eq, ← valueShare_add, sub_add_cancel]

/-- Only no value is no exposure. -/
theorem valueShare_eq_zero {s : Side} {v : Rat} :
    valueShare s v = 0 ↔ v = 0 := by
  constructor
  · intro h
    unfold valueShare at h
    split at h
    · exact congrArg Prod.fst h
    · exact neg_eq_zero.mp (congrArg Prod.snd h)
  · rintro rfl
    exact valueShare_zero s

variable [DecidableEq ι]

/-- An open value went from one side of an instrument, and with it from
the firm's total. -/
structure Book.Sheds (b b' : Book ι) (esi : ι) (s : Side) (value : Rat) :
    Prop where
  position : ∀ i, (b'.position i).openVec.2.2
    = (b.position i).openVec.2.2
      - if i = esi then valueShare s value else 0
  firm : b'.totals.openPair = b.totals.openPair - valueShare s value

namespace Book

variable {b b' b'' : Book ι} {esi : ι} {s : Side} {u v : Rat}

/-- Nothing is given up. -/
theorem Sheds.refl (b : Book ι) (esi : ι) (s : Side) :
    b.Sheds b esi s 0 := by
  constructor
  · intro i
    rw [valueShare_zero, ite_self, sub_zero]
  · rw [valueShare_zero, sub_zero]

/-- What is given up in two steps. -/
theorem Sheds.trans (h : b.Sheds b' esi s u) (h' : b'.Sheds b'' esi s v) :
    b.Sheds b'' esi s (u + v) := by
  constructor
  · intro i
    rw [h'.position i, h.position i, valueShare_add, sub_sub]
    by_cases hi : i = esi
    · rw [if_pos hi, if_pos hi, if_pos hi]
    · rw [if_neg hi, if_neg hi, if_neg hi, add_zero]
  · rw [h'.firm, h.firm, valueShare_add, sub_sub]

/-- A removal of open size. -/
theorem sheds_moveOpen (b : Book ι) (esi : ι) (s : Side) (p : Rat)
    (n : Nat) : b.Sheds (b.moveOpen esi s p (-n)) esi s (n * p) := by
  have hvalue : (openShare s p (-n)).2.2 = -valueShare s (n * p) := by
    rw [openShare_neg]
    exact congrArg Neg.neg (openShare_value s p n)
  constructor
  · intro i
    rw [Book.openVec_moveOpen]
    by_cases hi : i = esi
    · rw [if_pos hi, if_pos hi, sub_eq_add_neg, ← hvalue]
      rfl
    · rw [if_neg hi, if_neg hi, add_zero, sub_zero]
  · rw [sub_eq_add_neg, ← hvalue, ← FirmTotals.openPair_moveOpen]
    rfl

/-- A trade sheds nothing. -/
theorem sheds_trade (b : Book ι) (esi : ι) (s : Side) (n : Nat)
    (price fee : Rat) : b.Sheds (b.trade esi s n price fee) esi s 0 := by
  constructor
  · intro i
    rw [Book.openVec_trade, valueShare_zero, ite_self, sub_zero]
  · rw [valueShare_zero, sub_zero]
    rfl

/-- What was added and what went after it cancel out exactly if they have
the same value. -/
theorem Sheds.restores_iff {p : Rat} {n : Nat}
    (h : (b.moveOpen esi s p n).Sheds b' esi s v) :
    ((∀ i, (b'.position i).openVec.2.2 = (b.position i).openVec.2.2)
        ∧ b'.totals.openPair = b.totals.openPair)
      ↔ v = n * p := by
  have hdiff : (openShare s p n).2.2 - valueShare s v
      = valueShare s (n * p - v) := by
    rw [openShare_value, valueShare_sub]
    rfl
  have hfirm : b'.totals.openPair
      = b.totals.openPair + valueShare s (n * p - v) := by
    rw [h.firm, ← hdiff, ← add_sub_assoc, ← FirmTotals.openPair_moveOpen]
    rfl
  have hpos : ∀ i, (b'.position i).openVec.2.2
      = (b.position i).openVec.2.2
        + if i = esi then valueShare s (n * p - v) else 0 := by
    intro i
    rw [h.position i, Book.openVec_moveOpen, ← hdiff]
    by_cases hi : i = esi
    · rw [if_pos hi, if_pos hi, if_pos hi, ← add_sub_assoc]
      rfl
    · rw [if_neg hi, if_neg hi, if_neg hi, add_zero, add_zero, sub_zero]
  constructor
  · rintro ⟨-, heq⟩
    rw [hfirm, add_eq_left, valueShare_eq_zero, sub_eq_zero] at heq
    exact heq.symm
  · intro hv
    have hzero : valueShare s (n * p - v) = 0 :=
      valueShare_eq_zero.mpr (sub_eq_zero.mpr hv.symm)
    refine ⟨fun i => ?_, ?_⟩
    · rw [hpos i, hzero, ite_self, add_zero]
    · rw [hfirm, hzero, add_zero]

end Book

-- ============================================================== the order

namespace OUCH42Orders

/-- The session finds the order under its id, with the terms of `o` but at
a price of its own, and since the book `b` a value of `removed` went. -/
structure Tracks (s : OUCH42Orders ι) (b : Book ι) (om : OrderManager ℕ ι)
    (id w : ℕ) (o : Order ι) (price removed : Rat) : Prop where
  entry : om.orderAt id = some w
  session : (om.order w).session = some s.name
  terms : ((om.order w).instrument, (om.order w).side, (om.order w).size)
    = (o.instrument, o.side, o.size)
  price : (om.order w).price = price
  sheds : b.Sheds om.book o.instrument o.side removed

namespace Tracks

variable {s : OUCH42Orders ι} {b : Book ι} {om om' : OrderManager ℕ ι}
  {id w : ℕ} {o o' : Order ι} {p p' r v : Rat}

/-- The id leads to the order. -/
theorem getOrder (h : s.Tracks b om id w o p r) :
    s.getOrder om id = some w := by
  unfold OUCH42Orders.getOrder
  rw [h.entry]
  exact if_pos h.session

/-- The order was written to, and a value of `v` went at the same time. -/
theorem write (h : s.Tracks b om id w o p r)
    (hentries : om'.orders = om.orders)
    (horder : om'.order = Function.update om.order w o')
    (hsession : o'.session = (om.order w).session)
    (hterms : (o'.instrument, o'.side, o'.size)
      = ((om.order w).instrument, (om.order w).side, (om.order w).size))
    (hprice : o'.price = p')
    (hbook : om.book.Sheds om'.book o.instrument o.side v) :
    s.Tracks b om' id w o p' (r + v) := by
  have ho : om'.order w = o' := by
    rw [horder, Function.update_self]
  refine ⟨?_, ?_, ?_, ?_, h.sheds.trans hbook⟩
  · unfold OrderManager.orderAt
    rw [hentries]
    exact h.entry
  · rw [ho, hsession]
    exact h.session
  · rw [ho, hterms]
    exact h.terms
  · rw [ho]
    exact hprice

/-- Written to by the session, past the order manager. -/
theorem setOrder (h : s.Tracks b om id w o p r)
    (hsession : o'.session = (om.order w).session)
    (hterms : (o'.instrument, o'.side, o'.size)
      = ((om.order w).instrument, (om.order w).side, (om.order w).size))
    (hprice : o'.price = p') :
    s.Tracks b (om.setOrder w o') id w o p' r := by
  have hw : s.Tracks b (om.setOrder w o') id w o p' (r + 0) :=
    h.write rfl rfl hsession hterms hprice (Book.Sheds.refl ..)
  rwa [add_zero] at hw

/-- An acknowledgment gives up nothing. -/
theorem onAcknowledged (h : s.Tracks b om id w o p r)
    (exchangeID size : Nat) (ts : Timestamp) (exts : Nat) :
    s.Tracks b (om.onAcknowledged w exchangeID size ts exts) id w o p
      r := by
  have hw : s.Tracks b (om.onAcknowledged w exchangeID size ts exts) id w o
      p (r + 0) :=
    h.write rfl rfl rfl rfl h.price (Book.Sheds.refl ..)
  rwa [add_zero] at hw

/-- A cancel gives up what it cancels, at the order's price. -/
theorem onCancel (h : s.Tracks b om id w o p r) (n : Nat) (ts : Timestamp)
    (exts : Nat) :
    s.Tracks b (om.onCancel w n ts exts) id w o p (r + n * p) := by
  have hterms := h.terms
  simp only [Prod.mk.injEq] at hterms
  have horder : (om.onCancel w n ts exts).order = Function.update om.order w
      (orderUpdateOnCancel (om.order w) n ts exts) := rfl
  rw [orderUpdateOnCancel_eq] at horder
  refine h.write rfl horder rfl rfl h.price ?_
  rw [om.book_onCancel, hterms.1, hterms.2.1, h.price]
  exact Book.sheds_moveOpen ..

/-- And a fill what it fills, at the order's price, not its own. -/
theorem onFill (h : s.Tracks b om id w o p r) (n : Nat) (price : Rat)
    (ts : Timestamp) (exts : Nat) (feeCode : FillFeeCode) :
    s.Tracks b (om.onFill w n price ts exts feeCode) id w o p
      (r + n * p) := by
  have hterms := h.terms
  simp only [Prod.mk.injEq] at hterms
  refine h.write rfl rfl rfl rfl h.price ?_
  rw [om.book_onFill, hterms.1, hterms.2.1, h.price]
  have hs := (om.book.sheds_trade o.instrument o.side n price 0).trans
    (Book.sheds_moveOpen _ o.instrument o.side p n)
  rwa [zero_add] at hs

/-- An acceptance puts its own price on the order; a dead one takes the
whole size away at that price. -/
theorem handleAccepted (h : s.Tracks b om id w o p r) (ts : Timestamp)
    (hdr : OrderHeader) (m : Accepted) :
    s.Tracks b (OUCH42Orders.handleAccepted om ts hdr w m) id w o
      (getLimit m.price)
      (r + (OrderBody.accepted m).removes o.size * getLimit m.price) := by
  have hpriced : s.Tracks b (om.setOrder w { om.order w with
      price := getLimit m.price
      tif := m.tif }) id w o (getLimit m.price) r :=
    h.setOrder rfl rfl rfl
  have hremoves : (OrderBody.accepted m).removes o.size
      = if m.orderState = .dead then o.size else 0 := rfl
  have hnone : ((0 : Nat) : Rat) * getLimit m.price = 0 := by
    rw [Nat.cast_zero, zero_mul]
  rw [hremoves]
  unfold OUCH42Orders.handleAccepted
  generalize om.setOrder w _ = om₁ at hpriced ⊢
  cases m.orderState with
  | live =>
      rw [if_neg (by decide), hnone, add_zero]
      exact hpriced.onAcknowledged ..
  | dead =>
      rw [if_pos rfl]
      dsimp only
      have hacked := hpriced.onAcknowledged m.orderReferenceNumber
        m.shares.toNat ts hdr.exchTime
      generalize om₁.onAcknowledged w _ _ _ _ = om₂ at hacked ⊢
      have hterms := hacked.terms
      simp only [Prod.mk.injEq] at hterms
      have hcancelled := hacked.onCancel (om₂.order w).size ts hdr.exchTime
      rw [← hterms.2.2]
      exact hcancelled.setOrder rfl rfl hcancelled.price
  | other code =>
      rw [if_neg nofun, hnone, add_zero]
      exact hpriced

/-- One message. -/
theorem step (h : s.Tracks b om id w o p r) (hid : id ≠ 0) (n : Notice)
    (hmark : n.hprMarking ≠ riskbotReject)
    (hbody : (∃ m, n.body = .accepted m) ∨ n.body.Reduces) :
    s.Tracks b (s.handlePacket om (n.packet id)) id w o
      (n.body.priceAfter p)
      (r + n.body.removes o.size * n.body.priceAfter p) := by
  have hhandle : s.handlePacket om (n.packet id)
      = s.handleKnown om n.ts ⟨n.exchTime, ⟨n.hprMarking, id⟩⟩ w
          n.body := by
    unfold OUCH42Orders.handlePacket Notice.packet
    dsimp only
    rw [if_neg hid, h.getOrder]
    exact if_neg hmark
  rw [hhandle]
  rcases hbody with ⟨m, hm⟩ | hreduces
  · rw [hm]
    exact h.handleAccepted ..
  · cases hb : n.body with
    | canceled shares => exact h.onCancel ..
    | aiqCancelled shares => exact h.onCancel ..
    | executed shares price flag => exact h.onFill ..
    | orderPriorityUpdate price refnum =>
        show s.Tracks b _ id w o (getLimit price)
          (r + ((0 : Nat) : Rat) * getLimit price)
        rw [Nat.cast_zero, zero_mul, add_zero]
        exact h.setOrder rfl rfl rfl
    | _ =>
        -- no other message reduces an order
        rw [hb] at hreduces
        exact hreduces.elim

/-- A run of messages, whose account the book follows. -/
theorem run (h : s.Tracks b om id w o p r) (hid : id ≠ 0)
    (ns : List Notice) (hmark : ∀ n ∈ ns, n.hprMarking ≠ riskbotReject)
    (hbody : ∀ n ∈ ns, (∃ m, n.body = .accepted m) ∨ n.body.Reduces) :
    ∃ p', s.Tracks b
      (Lib.run s.handlePacket om (ns.map (Notice.packet id))) id w o p'
      (r + removedValue o.size p (ns.map Notice.body)) := by
  induction ns generalizing om p r with
  | nil =>
      refine ⟨p, ?_⟩
      show s.Tracks b om id w o p (r + 0)
      rw [add_zero]
      exact h
  | cons n ns ih =>
      have hn : n ∈ n :: ns := List.mem_cons_self
      have hstep := h.step hid n (hmark n hn) (hbody n hn)
      obtain ⟨p', hrun⟩ := ih hstep
        (fun n' hn' => hmark n' (List.mem_cons_of_mem n hn'))
        (fun n' hn' => hbody n' (List.mem_cons_of_mem n hn'))
      refine ⟨p', ?_⟩
      rw [add_assoc] at hrun
      exact hrun

end Tracks

/-- `send` has put the order where the session looks for it. -/
theorem tracks_send (s : OUCH42Orders ι) (om : OrderManager ℕ ι) (w : ℕ)
    (a : OrderManager.SendAnswer) (hom : om.orders.length = om.localID + 1)
    (hsend : (om.send w s.name a).1 = true) :
    ∃ b o, b = om.book.moveOpen o.instrument o.side (om.order w).price
        (om.order w).size
      ∧ o.size = (om.order w).size
      ∧ s.Tracks b (om.send w s.name a).2 (om.localID + 1) w o
          (om.order w).price 0 := by
  rcases om.send_spec w s.name a with ⟨-, side, hacc⟩ | ⟨hr, -⟩
  · have ho : (om.send w s.name a).2.order w
        = { om.order w with
            localID := om.localID + 1
            side := side
            session := some s.name
            sentTime := a.sentTime
            clientOrderID := a.clientOrderID
            state := .sent } := by
      rw [hacc.order, Function.update_self]
    refine ⟨_, { om.order w with side := side }, rfl, rfl, ?_, ?_, ?_, ?_,
      ?_⟩
    · unfold OrderManager.orderAt
      rw [hacc.orders, ← hom, List.getElem?_concat_length]
      rfl
    · rw [ho]
    · rw [ho]
    · rw [ho]
    · rw [hacc.book]
      exact Book.Sheds.refl ..
  · rw [hsend] at hr
    cases hr

/-- Over its life the order sheds what its messages remove. -/
theorem sheds_send_run (s : OUCH42Orders ι) (om : OrderManager ℕ ι) (w : ℕ)
    (a : OrderManager.SendAnswer) (ns : List Notice)
    (hom : om.orders.length = om.localID + 1)
    (hsend : (om.send w s.name a).1 = true)
    (hns : Completes (om.order w).size ns) :
    ∃ esi side, (om.book.moveOpen esi side (om.order w).price
        (om.order w).size).Sheds
      (Lib.run s.handlePacket (om.send w s.name a).2
        (ns.map (Notice.packet (om.localID + 1)))).book esi side
      (removedValue (om.order w).size (om.order w).price
        (ns.map Notice.body)) := by
  obtain ⟨b, o, hb, hsize, htracks⟩ := s.tracks_send om w a hom hsend
  obtain ⟨p, hrun⟩ := htracks.run (Nat.succ_ne_zero _) ns hns.unmarked
    hns.bodies
  rw [zero_add, hsize] at hrun
  exact ⟨o.instrument, o.side, hb ▸ hrun.sheds⟩

end OUCH42Orders

open OUCH42Orders

-- ============================================================= the result

/-- Over the life of an order sent through the session, the open exposures
come back to where they were before the send exactly if its shares, each
at the price last stated when it went, are worth what was added. -/
theorem exposure_returns_iff (s : OUCH42Orders ι) (om : OrderManager ℕ ι)
    (w : ℕ) (a : OrderManager.SendAnswer) (ns : List Notice)
    (hom : om.orders.length = om.localID + 1)
    (hsend : (om.send w s.name a).1 = true)
    (hns : Completes (om.order w).size ns) :
    (Lib.run s.handlePacket (om.send w s.name a).2
        (ns.map (Notice.packet (om.localID + 1)))).openExposures
        = om.openExposures
      ↔ removedValue (om.order w).size (om.order w).price
          (ns.map Notice.body)
        = (om.order w).size * (om.order w).price := by
  obtain ⟨_, _, hsheds⟩ := sheds_send_run s om w a ns hom hsend hns
  exact OrderManager.openExposures_eq_iff.trans hsheds.restores_iff

/-- So they do where the exchange states the price it was sent. -/
theorem exposure_returns_of_echoed (s : OUCH42Orders ι)
    (om : OrderManager ℕ ι) (w : ℕ) (a : OrderManager.SendAnswer)
    (ns : List Notice) (hom : om.orders.length = om.localID + 1)
    (hsend : (om.send w s.name a).1 = true)
    (hns : Completes (om.order w).size ns)
    (hecho : ∀ n ∈ ns, n.body.priceAfter (om.order w).price
      = (om.order w).price) :
    (Lib.run s.handlePacket (om.send w s.name a).2
        (ns.map (Notice.packet (om.localID + 1)))).openExposures
      = om.openExposures := by
  obtain ⟨_, _, hsheds⟩ := sheds_send_run s om w a ns hom hsend hns
  refine OrderManager.openExposures_eq_iff.mpr (hsheds.restores_iff.mpr ?_)
  have hbodies : ∀ b ∈ ns.map Notice.body,
      b.priceAfter (om.order w).price = (om.order w).price := by
    intro b hb
    obtain ⟨n, hn, rfl⟩ := List.mem_map.mp hb
    exact hecho n hn
  have htotal : ((ns.map Notice.body).map
      (OrderBody.removes (om.order w).size)).sum = (om.order w).size := by
    rw [List.map_map]
    exact hns.total
  rw [removedValue_of_echoed hbodies, htotal]

namespace OUCH42Orders

/-- A day on which ten are bought at 5 through one session, to run
examples on. -/
def tenBought : OrderManagerConf ℕ Unit :=
  { OrderManagerConf.plain fun _ =>
      { OrderParams.dayLimit () .buy 10 5 with market := .xnas } with
    sessions := [([79], .xnas)] }

def plain : OUCH42Orders Unit where
  name := [79]
  market := .xnas
  findInstrument := fun _ => some ()
  createOrderTokenHpr := fun _ => some []
  now := ⟨0, 0⟩

end OUCH42Orders

namespace OUCH42

/-- Ten bought, a day order, live at the price stated. -/
def Accepted.tenBought (price : UInt32) : Accepted where
  buySellIndicator := .buy
  shares := 10
  stock := []
  price := price
  timeInForce := 0x1869E
  orderReferenceNumber := 1
  minimumQuantity := 0
  crossType := .other 78
  orderState := .live

/-- A message with the mark of a buy. -/
def Notice.plain (body : OrderBody) : Notice := ⟨⟨1, 0⟩, 1, 73, body⟩

end OUCH42

/-- Accepted at 4, four executed, repriced to 6, four canceled, repriced
to 5, two canceled: it is worth fifty again. -/
theorem exposure_returns_iff_demo :
    let om := OrderManager.start tenBought
    let ns := [Notice.plain (.accepted (.tenBought 40000)),
      Notice.plain (.executed 4 40000 65),
      Notice.plain (.orderPriorityUpdate 60000 2),
      Notice.plain (.canceled 4),
      Notice.plain (.orderPriorityUpdate 50000 3),
      Notice.plain (.canceled 2)]
    (Lib.run plain.handlePacket (om.send 0 [79] .taken).2
        (ns.map (Notice.packet (om.localID + 1)))).openExposures
      = om.openExposures := by
  intro om ns
  refine (exposure_returns_iff plain om 0 .taken ns (by decide +kernel)
    (by decide +kernel) ⟨⟨_, _, rfl, by decide⟩, by decide, ?_⟩).mpr ?_
  · decide +kernel
  · decide +kernel

/-- Ten bought at 5 and accepted at 4.99: they are all executed, and ten
cents stay open. -/
theorem repriced_order_keeps_exposure :
    let om := OrderManager.start tenBought
    let ns := [Notice.plain (.accepted (.tenBought 49900)),
      Notice.plain (.executed 10 49900 65)]
    let om' := Lib.run plain.handlePacket (om.send 0 [79] .taken).2
      (ns.map (Notice.packet (om.localID + 1)))
    (om.send 0 [79] .taken).1 = true
      ∧ Completes (om.order 0).size ns
      ∧ (om'.order 0).state = .filled
      ∧ om'.desk.firmRisk.longOpenExposure = 1 / 10
      ∧ om'.openExposures ≠ om.openExposures := by
  intro om ns om'
  have hopen : om'.desk.firmRisk.longOpenExposure = 1 / 10 := by
    decide +kernel
  have hstart : om.desk.firmRisk.longOpenExposure = 0 := by
    decide +kernel
  refine ⟨by decide +kernel,
    ⟨⟨_, _, rfl, by decide⟩, by decide, by decide +kernel⟩,
    by decide +kernel, hopen, fun h => ?_⟩
  have hfirm : om'.desk.firmRisk.longOpenExposure
      = om.desk.firmRisk.longOpenExposure :=
    congrArg (fun x => x.2.1) h
  rw [hopen, hstart] at hfirm
  norm_num at hfirm

end TradingEngine.OE
