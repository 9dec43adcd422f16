/-
Under which token a cancel names an order.

The token is made anew for the cancel, of what the order has by then: its
instrument and id, which nothing writes to, its side, which an
`OrderModified` overwrites, and its tif, which an `Accepted` overwrites.
Everything else keeps these terms (`KeepsTerms`), so over a run they are
what the messages state last (`sideAfter`, `tifAfter`), and the tokens agree
exactly if the markings do (`marker_eq_iff`).

# Names

`Names` is the invariant of the run: the session finds the order under its
id, and the order has the terms that were stated last. Each handler keeps it
with the terms of its own message, and one lemma does the handlers that write
none of them. The token of the order is then a function of the terms, and of
the symbol and the id, which are those of the entry.

# What goes wrong

A sale short and a sale short exempt are marked alike, so that a change from
one to the other does no harm. Any other change of the side does, and so does
a tif that comes to be, or ceases to be, that of a cross.
-/
import TradingEngine.OE.OUCH42Send
import TradingEngine.OE.Proofs.OUCH42Exposure

namespace TradingEngine.OE

open OUCH42

variable {ι : Type}

-- ================================================================= markings

namespace OUCH42

/-- The sides of one marking: the two short ones are. -/
def MarkedAlike (side side' : Side) : Prop :=
  side = side' ∨ (side = .short ∧ side' = .shortExempt)
    ∨ (side = .shortExempt ∧ side' = .short)

instance (side side' : Side) : Decidable (MarkedAlike side side') :=
  inferInstanceAs (Decidable (_ ∨ _ ∧ _ ∨ _ ∧ _))

theorem sideMarker_eq_none_iff {l : Fin 4} {side : Side} :
    sideMarker l side = none ↔ side = .unknown := by
  cases side <;> simp [sideMarker]

/-- Four codes for each of the two kinds of sell, and one for a buy. -/
theorem sideMarker_eq_iff {l : Fin 4} {side side' : Side} :
    sideMarker l side = sideMarker l side' ↔ MarkedAlike side side' := by
  have hl := l.isLt
  cases side <;> cases side' <;> simp [sideMarker, MarkedAlike] <;> omega

theorem sideMarker_bounds {l : Fin 4} {side : Side} {m : Nat}
    (hm : sideMarker l side = some m) : 65 ≤ m ∧ m ≤ 73 := by
  have hl := l.isLt
  cases side with
  | unknown => cases hm
  | _ =>
      cases hm
      omega

/-- The assertion on the marker: `'A'` to `'R'`. -/
theorem marker_bounds {l : Fin 4} {side : Side} {tif : TimeInForce}
    {m : Nat} (hm : marker l side tif = some m) : 65 ≤ m ∧ m ≤ 82 := by
  obtain ⟨k, hk, rfl⟩ := Option.map_eq_some_iff.mp hm
  have hbounds := sideMarker_bounds hk
  split <;> omega

/-- Nine up is past all the codes of the sides. -/
theorem marker_eq_iff {l : Fin 4} {side side' : Side}
    {tif tif' : TimeInForce} {m m' : Nat}
    (hm : marker l side tif = some m) (hm' : marker l side' tif' = some m') :
    m = m' ↔ MarkedAlike side side' ∧ (InCross tif ↔ InCross tif') := by
  obtain ⟨k, hk, rfl⟩ := Option.map_eq_some_iff.mp hm
  obtain ⟨k', hk', rfl⟩ := Option.map_eq_some_iff.mp hm'
  have hb := sideMarker_bounds hk
  have hb' := sideMarker_bounds hk'
  have hsides : MarkedAlike side side' ↔ k = k' := by
    rw [← sideMarker_eq_iff (l := l), hk, hk', Option.some.injEq]
  rw [hsides]
  by_cases ht : InCross tif
  · by_cases ht' : InCross tif'
    · rw [if_pos ht, if_pos ht', Nat.add_right_cancel_iff]
      constructor
      · intro h
        exact ⟨h, iff_of_true ht ht'⟩
      · intro h
        exact h.1
    · rw [if_pos ht, if_neg ht']
      constructor
      · omega
      · intro h
        exact absurd (h.2.mp ht) ht'
  · by_cases ht' : InCross tif'
    · rw [if_neg ht, if_pos ht']
      constructor
      · omega
      · intro h
        exact absurd (h.2.mpr ht') ht
    · rw [if_neg ht, if_neg ht']
      constructor
      · intro h
        exact ⟨h, iff_of_false ht ht'⟩
      · intro h
        exact h.1

/-- Two tokens of one instrument and id. -/
theorem createOrderTokenHpr_eq_iff {l : Fin 4} {symbolCache : ι → Bytes}
    {o o' : Order ι} {t t' : HPRData}
    (ht : createOrderTokenHpr l symbolCache o = some t)
    (ht' : createOrderTokenHpr l symbolCache o' = some t')
    (hinst : o'.instrument = o.instrument) (hid : o'.localID = o.localID) :
    t' = t ↔ MarkedAlike o'.side o.side ∧ (InCross o'.tif ↔ InCross o.tif)
    := by
  obtain ⟨m, hm, rfl⟩ := Option.map_eq_some_iff.mp ht
  obtain ⟨m', hm', rfl⟩ := Option.map_eq_some_iff.mp ht'
  have hb := marker_bounds hm
  have hb' := marker_bounds hm'
  rw [← marker_eq_iff hm' hm, hinst, hid]
  constructor
  · intro h
    have hbyte := congrArg (fun t => t.hprMarking.toNat) h
    dsimp only at hbyte
    rw [UInt8.toNat_ofNat', UInt8.toNat_ofNat'] at hbyte
    omega
  · rintro rfl
    rfl

-- ================================================================= messages

/-- The side the order has after the message. -/
def OrderBody.sideAfter (side : Side) : OrderBody → Side
  | .orderModified (.other _) _ => side
  | .orderModified b _ => toI01Side b
  | _ => side

/-- The tif the order has after the message. -/
def OrderBody.tifAfter (tif : TimeInForce) : OrderBody → TimeInForce
  | .accepted m => m.tif
  | _ => tif

/-- The side and the tif after a message, whose body is not looked at if it
is marked as a reject of the risk bot. -/
def Notice.termsAfter (terms : Side × TimeInForce) (n : Notice) :
    Side × TimeInForce :=
  if n.hprMarking = riskbotReject then terms
  else (n.body.sideAfter terms.1, n.body.tifAfter terms.2)

/-- The side and the tif that are stated last. -/
def lastTerms (terms : Side × TimeInForce) (ns : List Notice) :
    Side × TimeInForce :=
  ns.foldl Notice.termsAfter terms

/-- No message takes the side away. -/
theorem Notice.side_known {terms : Side × TimeInForce}
    (h : terms.1 ≠ .unknown) (n : Notice) :
    (n.termsAfter terms).1 ≠ .unknown := by
  unfold Notice.termsAfter
  split
  case isTrue => exact h
  case isFalse =>
    cases hb : n.body with
    | orderModified b shares =>
        cases b with
        | other code => exact h
        | _ => exact nofun
    | _ => exact h

theorem lastTerms_known {terms : Side × TimeInForce}
    (h : terms.1 ≠ .unknown) (ns : List Notice) :
    (lastTerms terms ns).1 ≠ .unknown := by
  induction ns generalizing terms with
  | nil => exact h
  | cons n ns ih => exact ih (n.side_known h)

end OUCH42

open OUCH42

-- ==================================================================== frame

/-- What the token of an order is made of, and the session it has. -/
def Order.tokenTerms (o : Order ι) :
    Option Bytes × ι × Nat × Side × TimeInForce :=
  (o.session, o.instrument, o.localID, o.side, o.tif)

/-- The ids stay those of the same orders, and the orders keep what their
tokens are made of. -/
structure OrderManager.KeepsTerms (om om' : OrderManager ℕ ι) : Prop where
  orders : om'.orders = om.orders
  terms : ∀ w, (om'.order w).tokenTerms = (om.order w).tokenTerms

namespace OrderManager.KeepsTerms

variable {om om' om'' : OrderManager ℕ ι}

theorem refl (om : OrderManager ℕ ι) : om.KeepsTerms om :=
  ⟨rfl, fun _ => rfl⟩

theorem trans (h : om.KeepsTerms om') (h' : om'.KeepsTerms om'') :
    om.KeepsTerms om'' :=
  ⟨h'.orders.trans h.orders, fun w => (h'.terms w).trans (h.terms w)⟩

/-- One order was written to. -/
theorem write {w : ℕ} {o : Order ι} (hentries : om'.orders = om.orders)
    (horder : om'.order = Function.update om.order w o)
    (ho : o.tokenTerms = (om.order w).tokenTerms) : om.KeepsTerms om' := by
  refine ⟨hentries, fun v => ?_⟩
  rw [horder]
  by_cases hv : v = w
  · rw [hv, Function.update_self, ho]
  · rw [Function.update_of_ne hv]

variable (om)

theorem onAcknowledged (w exchangeID size : ℕ) (ts : Timestamp)
    (exts : Nat) :
    om.KeepsTerms (om.onAcknowledged w exchangeID size ts exts) :=
  write rfl rfl rfl

theorem onCancelRejected (w : ℕ) (ts : Timestamp) (exts : Nat) :
    om.KeepsTerms (om.onCancelRejected w ts exts) :=
  write rfl rfl rfl

variable [DecidableEq ι]

theorem onRejected (w : ℕ) (ts : Timestamp) (exts : Nat) :
    om.KeepsTerms (om.onRejected w ts exts) :=
  write rfl rfl rfl

theorem onFill (w n : ℕ) (price : Rat) (ts : Timestamp) (exts : Nat)
    (feeCode : FillFeeCode) :
    om.KeepsTerms (om.onFill w n price ts exts feeCode) :=
  write rfl rfl rfl

theorem onCancel (w n : ℕ) (ts : Timestamp) (exts : Nat) :
    om.KeepsTerms (om.onCancel w n ts exts) := by
  have horder : (om.onCancel w n ts exts).order = Function.update om.order w
      (orderUpdateOnCancel (om.order w) n ts exts) := rfl
  rw [orderUpdateOnCancel_eq] at horder
  exact write rfl horder rfl

end OrderManager.KeepsTerms

-- ==================================================================== steps

namespace OUCH42Orders

/-- The previous order ends, and the order of the message is acknowledged
or ends: terms stay. -/
theorem keepsTerms_handleReplaced [DecidableEq ι] (s : OUCH42Orders ι)
    (om : OrderManager ℕ ι) (ts : Timestamp) (hdr : OrderHeader) (w : ℕ)
    (m : Replaced) :
    om.KeepsTerms (s.handleReplaced om ts hdr w m) := by
  unfold handleReplaced
  dsimp only
  cases s.getOrder om m.previousOrderToken.id with
  | none => exact .refl om
  | some po =>
      dsimp only
      split
      case isTrue => exact .refl om
      case isFalse =>
        have hfirst : om.KeepsTerms (om.setOrder po { om.order po with
            state := .cancelReplaced }) := .write rfl rfl rfl
        generalize om.setOrder po _ = om₁ at hfirst ⊢
        have hcancel := hfirst.trans
          (.onCancel om₁ po (om₁.order po).openSize ts hdr.exchTime)
        generalize om₁.onCancel po _ ts hdr.exchTime = om₂ at hcancel ⊢
        have hsecond := hcancel.trans (.write rfl rfl rfl :
          om₂.KeepsTerms (om₂.setOrder po { om₂.order po with
            state := .cancelReplaced }))
        generalize om₂.setOrder po _ = om₃ at hsecond ⊢
        split
        · exact hsecond.trans (.onCancel ..)
        · split
          · exact hsecond.trans (.onAcknowledged ..)
          · exact hsecond

/-- The session finds the order under its id, with the terms given. -/
structure Names (s : OUCH42Orders ι) (om : OrderManager ℕ ι) (id w : ℕ)
    (instrument : ι) (terms : Side × TimeInForce) : Prop where
  entry : om.orderAt id = some w
  terms : (om.order w).tokenTerms = (some s.name, instrument, id, terms)

namespace Names

variable {s : OUCH42Orders ι} {om om' : OrderManager ℕ ι} {id w : ℕ}
  {i : ι} {terms terms' : Side × TimeInForce}

theorem getOrder (h : s.Names om id w i terms) :
    s.getOrder om id = some w := by
  have hsession : (om.order w).session = some s.name :=
    congrArg Prod.fst h.terms
  unfold OUCH42Orders.getOrder
  rw [h.entry]
  exact if_pos hsession

theorem keeps (h : s.Names om id w i terms) (hkeeps : om.KeepsTerms om') :
    s.Names om' id w i terms := by
  constructor
  · unfold OrderManager.orderAt
    rw [hkeeps.orders]
    exact h.entry
  · rw [hkeeps.terms w]
    exact h.terms

/-- The order itself was written to. -/
theorem setOrder (h : s.Names om id w i terms) {o : Order ι}
    (ho : o.tokenTerms = (some s.name, i, id, terms')) :
    s.Names (om.setOrder w o) id w i terms' := by
  constructor
  · exact h.entry
  · rw [OrderManager.setOrder_order, Function.update_self]
    exact ho

theorem handleModified (h : s.Names om id w i terms) (ts : Timestamp)
    (hdr : OrderHeader) (b : BuySellIndicator) (shares : UInt32) :
    s.Names (OUCH42Orders.handleModified om ts hdr w b shares) id w i
      ((OrderBody.orderModified b shares).sideAfter terms.1, terms.2) := by
  have hterms := h.terms
  simp only [Order.tokenTerms, Prod.ext_iff] at hterms
  cases b with
  | other code => exact h
  | _ =>
      refine h.setOrder ?_
      simp only [Order.tokenTerms, Prod.ext_iff]
      exact ⟨hterms.1, hterms.2.1, hterms.2.2.1, rfl, hterms.2.2.2.2⟩

variable [DecidableEq ι]

theorem handleAccepted (h : s.Names om id w i terms) (ts : Timestamp)
    (hdr : OrderHeader) (m : Accepted) :
    s.Names (OUCH42Orders.handleAccepted om ts hdr w m) id w i
      (terms.1, m.tif) := by
  have hwritten : s.Names (om.setOrder w { om.order w with
      price := getLimit m.price
      tif := m.tif }) id w i (terms.1, m.tif) := by
    refine h.setOrder ?_
    have hterms := h.terms
    simp only [Order.tokenTerms, Prod.ext_iff] at hterms ⊢
    exact ⟨hterms.1, hterms.2.1, hterms.2.2.1, hterms.2.2.2.1, trivial⟩
  unfold OUCH42Orders.handleAccepted
  generalize om.setOrder w _ = om₁ at hwritten ⊢
  cases m.orderState with
  | live => exact hwritten.keeps (.onAcknowledged ..)
  | dead =>
      dsimp only
      have hacked := hwritten.keeps (.onAcknowledged om₁ w
        m.orderReferenceNumber m.shares.toNat ts hdr.exchTime)
      generalize om₁.onAcknowledged w _ _ _ _ = om₂ at hacked ⊢
      have hcancelled := hacked.keeps
        (.onCancel om₂ w (om₂.order w).size ts hdr.exchTime)
      exact hcancelled.keeps (.write rfl rfl rfl)
  | other code => exact hwritten

/-- One message. -/
theorem step (h : s.Names om id w i terms) (hid : id ≠ 0) (n : Notice) :
    s.Names (s.handlePacket om (n.packet id)) id w i
      (n.termsAfter terms) := by
  unfold OUCH42Orders.handlePacket Notice.packet Notice.termsAfter
  dsimp only
  rw [if_neg hid, h.getOrder]
  dsimp only
  split
  case isTrue => exact h.keeps (.onRejected ..)
  case isFalse =>
    cases n.body with
    | accepted m => exact h.handleAccepted ..
    | replaced m => exact h.keeps (keepsTerms_handleReplaced ..)
    | canceled shares => exact h.keeps (.onCancel ..)
    | aiqCancelled shares => exact h.keeps (.onCancel ..)
    | executed shares price flag => exact h.keeps (.onFill ..)
    | brokenTrade => exact h
    | rejected => exact h.keeps (.onRejected ..)
    | cancelPending => exact h.keeps (.onCancelRejected ..)
    | cancelReject => exact h.keeps (.onCancelRejected ..)
    | orderPriorityUpdate price refnum =>
        exact h.keeps (.write rfl rfl rfl)
    | orderModified b shares => exact h.handleModified ..

/-- A run of messages. -/
theorem run (h : s.Names om id w i terms) (hid : id ≠ 0)
    (ns : List Notice) :
    s.Names (Lib.run s.handlePacket om (ns.map (Notice.packet id))) id w i
      (lastTerms terms ns) := by
  induction ns generalizing om terms with
  | nil => exact h
  | cons n ns ih => exact ih (h.step hid n)

end Names

end OUCH42Orders

-- ====================================================================== send

/-- A send that returns true leaves the order with the terms the session
saw. -/
theorem OrderManager.tokenTerms_send [DecidableEq ι]
    {om : OrderManager ℕ ι} {w : ℕ} {session : Bytes} {a : SendAnswer}
    (hsend : (om.send w session a).1 = true) :
    ((om.send w session a).2.order w).tokenTerms
      = (om.orderToSend w session).tokenTerms := by
  rw [OrderManager.send_of_true hsend]
  rfl

namespace OUCH42Sender

/-- What is sent has a token. -/
theorem orderToken_of_send {s : OUCH42Sender ι} {c : OUCH42Session}
    {o : Order ι} {n : NASDAQTerms} {e : EnterOrder}
    (h : s.send c o n = some e) : s.orderToken o = some e.orderToken := by
  unfold send at h
  split at h
  case isTrue => cases h
  case isFalse =>
    obtain ⟨token, htoken, h⟩ := Option.bind_eq_some_iff.mp h
    obtain ⟨side, -, h⟩ := Option.bind_eq_some_iff.mp h
    obtain ⟨terms, -, h⟩ := Option.bind_eq_some_iff.mp h
    obtain ⟨tif, -, h⟩ := Option.bind_eq_some_iff.mp h
    cases h
    exact htoken

/-- A session that is up makes a cancel for any order with a side. -/
theorem exists_cancel {s : OUCH42Sender ι} {c : OUCH42Session}
    {o : Order ι} (hup : c.active = true ∧ c.loggedIn = true)
    (hside : o.side ≠ .unknown) (newqty : Nat) :
    ∃ k, s.cancel c o newqty = some k
      ∧ s.orderToken o = some k.orderToken := by
  have hmarker : marker s.defaultBrokerLocate o.side o.tif ≠ none := by
    intro h
    exact hside (sideMarker_eq_none_iff.mp (Option.map_eq_none_iff.mp h))
  obtain ⟨m, hm⟩ := Option.ne_none_iff_exists'.mp hmarker
  obtain ⟨token, htoken⟩ : ∃ token, s.orderToken o = some token :=
    ⟨_, Option.map_eq_some_iff.mpr ⟨m, hm, rfl⟩⟩
  refine ⟨⟨token, newqty⟩, ?_, htoken⟩
  unfold cancel
  rw [hup.1, hup.2, htoken]
  rfl

variable [DecidableEq ι]

/-- `send` has put the order where the session looks for it, with the terms
of its token. -/
theorem names_send (s : OUCH42Sender ι) (om : OrderManager ℕ ι) (w : ℕ)
    (a : OrderManager.SendAnswer) (hom : om.orders.length = om.localID + 1)
    (hsend : (om.send w s.name a).1 = true) :
    s.Names (om.send w s.name a).2 (om.localID + 1) w
      (om.orderToSend w s.name).instrument
      ((om.orderToSend w s.name).side, (om.orderToSend w s.name).tif) := by
  have hterms := OrderManager.tokenTerms_send hsend
  rcases om.send_spec w s.name a with ⟨-, side, hacc⟩ | ⟨hr, -⟩
  · have ho : ((om.send w s.name a).2.order w).tokenTerms
        = (some s.name, (om.order w).instrument, om.localID + 1, side,
          (om.order w).tif) := by
      rw [hacc.order, Function.update_self]
      rfl
    constructor
    · unfold OrderManager.orderAt
      rw [hacc.orders, ← hom, List.getElem?_concat_length]
      rfl
    · simp only [Order.tokenTerms, Prod.ext_iff] at ho hterms ⊢
      exact ⟨ho.1, hterms.2.1, ho.2.2.1, hterms.2.2.2.1, hterms.2.2.2.2⟩
  · rw [hsend] at hr
    cases hr

end OUCH42Sender

-- ==================================================================== result

/-- What was last said of the order has the marking it was entered with. -/
def OUCH42.TokenKept (o : Order ι) (ns : List Notice) : Prop :=
  let terms := lastTerms (o.side, o.tif) ns
  MarkedAlike terms.1 o.side ∧ (InCross terms.2 ↔ InCross o.tif)

instance (o : Order ι) (ns : List Notice) : Decidable (TokenKept o ns) :=
  inferInstanceAs (Decidable (_ ∧ (_ ↔ _)))

namespace OUCH42Sender

variable [DecidableEq ι]

/-- Whatever messages come for an order that was sent, a cancel names it by
the token it was entered under exactly if the side that was modified last,
if any was, is marked as the one sent, and the tif of the last acceptance,
if there was one, is that of an opening or closing cross exactly if the one
sent was. -/
theorem cancel_names_entered_iff (s : OUCH42Sender ι)
    (om : OrderManager ℕ ι) (w : ℕ) (c c' : OUCH42Session)
    (n : NASDAQTerms) (took : Bool) (now : Timestamp) (ns : List Notice)
    (newqty : ℕ) (hom : om.orders.length = om.localID + 1)
    (hsend : (om.send w s.name
      (s.sendAnswer c (om.orderToSend w s.name) n took now)).1 = true)
    (hup : c'.active = true ∧ c'.loggedIn = true) :
    let o := om.orderToSend w s.name
    let om' := Lib.run s.handlePacket
      (om.send w s.name (s.sendAnswer c o n took now)).2
      (ns.map (Notice.packet (om.localID + 1)))
    ∃ e k, s.send c o n = some e
      ∧ s.cancel c' (om'.order w) newqty = some k
      ∧ (k.orderToken = e.orderToken ↔ TokenKept o ns) := by
  intro o om'
  have hsent := ((om.send_eq_true_iff ..).mp hsend).2.2
  obtain ⟨e, he⟩ : ∃ e, s.send c o n = some e :=
    Option.isSome_iff_exists.mp (Bool.and_eq_true_iff.mp hsent).1
  have htoken := orderToken_of_send he
  have hside : o.side ≠ .unknown := by
    obtain ⟨m, hm, -⟩ := Option.map_eq_some_iff.mp htoken
    intro hunknown
    unfold marker at hm
    rw [hunknown] at hm
    cases hm
  have hrun := (s.names_send om w _ hom hsend).run (Nat.succ_ne_zero _) ns
  have hterms := hrun.terms
  simp only [Order.tokenTerms, Prod.ext_iff] at hterms
  obtain ⟨-, hinst, hid, hside', htif'⟩ := hterms
  have hid₀ : o.localID = om.localID + 1 := by
    have h₀ := (s.names_send om w _ hom hsend).terms
    rw [OrderManager.tokenTerms_send hsend] at h₀
    exact congrArg (fun t => t.2.2.1) h₀
  have hknown : (om'.order w).side ≠ .unknown := by
    rw [show (om'.order w).side = _ from hside']
    exact lastTerms_known hside ns
  obtain ⟨k, hk, hktoken⟩ := exists_cancel (s := s) hup hknown newqty
  refine ⟨e, k, he, hk, ?_⟩
  unfold TokenKept
  rw [createOrderTokenHpr_eq_iff htoken hktoken hinst (hid.trans hid₀.symm),
    show (om'.order w).side = _ from hside',
    show (om'.order w).tif = _ from htif']

/-- A session to run examples on, with one symbol, `A.B`. -/
def plain : OUCH42Sender Unit where
  name := [79]
  market := .xnas
  findInstrument := fun _ => some ()
  createOrderTokenHpr := fun o =>
    (OUCH42.createOrderTokenHpr 0 (fun _ => [65, 46, 66]) o).map
      fun t => SoupBinTCP30.copyOverSpaces 20 t.arr
  now := ⟨0, 0⟩
  firmIdentifier := [32, 32, 32, 32]
  defaultBrokerLocate := 0
  symbolCache := fun _ => [65, 46, 66]
  createOrderTokenHpr_eq := fun _ => rfl

/-- Logged in. -/
def up : OUCH42Session :=
  { OUCH42Session.init [] [] [] 5 0 [] with
    sessionState := .loggedIn
    active := true }

/-- A day on which ten are sold short at 5. -/
def tenShort : OrderManagerConf ℕ Unit :=
  { OrderManagerConf.plain fun _ =>
      { OrderParams.dayLimit () .short 10 5 with market := .xnas } with
    sessions := [([79], .xnas)] }

def dayTerms : NASDAQTerms := ⟨.unknown, .agency, 0⟩

/-- Accepted, four executed, modified to short exempt, one canceled: the
cancel of the rest has the token of the order. -/
theorem cancel_names_entered_iff_demo :
    let om := OrderManager.start tenShort
    let o := om.orderToSend 0 plain.name
    let om' := Lib.run plain.handlePacket
      (om.send 0 plain.name
        (plain.sendAnswer up o dayTerms true ⟨1, 0⟩)).2
      ([Notice.plain (.accepted (.tenBought 50000)),
        Notice.plain (.executed 4 50000 65),
        Notice.plain (.orderModified .shortExempt 6),
        Notice.plain (.canceled 1)].map (Notice.packet (om.localID + 1)))
    ∃ e k, plain.send up o dayTerms = some e
      ∧ plain.cancel up (om'.order 0) 0 = some k
      ∧ k.orderToken = e.orderToken := by
  intro om o om'
  obtain ⟨e, k, he, hk, hiff⟩ := cancel_names_entered_iff plain om 0 up up
    dayTerms true ⟨1, 0⟩ [Notice.plain (.accepted (.tenBought 50000)),
      Notice.plain (.executed 4 50000 65),
      Notice.plain (.orderModified .shortExempt 6),
      Notice.plain (.canceled 1)] 0 (by decide +kernel)
    (by decide +kernel) (by decide)
  exact ⟨e, k, he, hk, hiff.mpr (by decide +kernel)⟩

/-- Sold short and modified to a sale: the order was entered with an `A`,
and the cancel has an `E`. -/
theorem modified_order_cannot_be_cancelled :
    let om := OrderManager.start tenShort
    let o := om.orderToSend 0 plain.name
    let sent := om.send 0 plain.name
      (plain.sendAnswer up o dayTerms true ⟨1, 0⟩)
    let om' := Lib.run plain.handlePacket sent.2
      ([Notice.plain (.accepted (.tenBought 50000)),
        Notice.plain (.orderModified .sell 10)].map
          (Notice.packet (om.localID + 1)))
    sent.1 = true
      ∧ (plain.send up o dayTerms).map (fun e => e.orderToken.arr)
        = some [65, 65, 99, 66, 48, 48, 48, 48, 48, 48, 48, 48, 48, 49]
      ∧ (plain.cancel up (om'.order 0) 0).map (fun k => k.orderToken.arr)
        = some [69, 65, 99, 66, 48, 48, 48, 48, 48, 48, 48, 48, 48, 49] := by
  intro om o sent om'
  exact ⟨by decide +kernel, by decide +kernel, by decide +kernel⟩

end OUCH42Sender

end TradingEngine.OE

