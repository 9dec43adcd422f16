/-
A process that dies while it handles a message.

The sequence number of a message is on disk before its update is in the
log. If the process dies in between, the exchange does not send the
message again and the log does not have it: it is lost. In every other
case the new process is where the old one was, or at the message that was
just to come.

# The relation

`calm` is the process that never dies. `Follows` relates it to the one
that does: what `calm` knows of the orders the other one knows too, their
books are the same, the same messages are to come, and the log would
restore all of this. A handler keeps it (`follows_handle`), and so does a
restart (`Follows.restart`), since what the log restores looks like the
process that wrote it (`Mirrors`).
-/
import TradingEngine.OE.BOE20Session
import TradingEngine.OE.Proofs.Replay

namespace TradingEngine.OE

variable {ι : Type}

namespace OrderManager

-- ============================================================ look alike

/-- `om'` has of the orders in `K` those that `om` has; all of them look
the same, and so do the books. -/
structure Alike (K : Finset ℕ) (om om' : OrderManager ℕ ι) : Prop where
  localID : om'.localID = om.localID
  book : om'.book = om.book
  view : ∀ l ∈ K, (om'.order l).view = (om.order l).view
  entry : ∀ l ∈ K, om.orderAt l = some l → om'.orderAt l = some l

theorem Alike.refl (K : Finset ℕ) (om : OrderManager ℕ ι) : Alike K om om :=
  ⟨rfl, rfl, fun _ _ => rfl, fun _ _ h => h⟩

variable {K : Finset ℕ} {om om' : OrderManager ℕ ι}

/-- One order written on both sides, and the books moved alike. -/
theorem Alike.touch (h : Alike K om om') {om₁ om₁' : OrderManager ℕ ι}
    {l : ℕ} {o o' : Order ι} (hview : o'.view = o.view)
    (hid : om₁.localID = om.localID) (horders : om₁.orders = om.orders)
    (horder : om₁.order = Function.update om.order l o)
    (hid' : om₁'.localID = om'.localID)
    (horders' : om₁'.orders = om'.orders)
    (horder' : om₁'.order = Function.update om'.order l o')
    (hbook : om₁'.book = om₁.book) : Alike K om₁ om₁' := by
  refine ⟨?_, hbook, fun k hk => ?_, fun k hk hat => ?_⟩
  · rw [hid', hid]
    exact h.localID
  · rw [horder', horder]
    by_cases hkl : k = l
    · subst hkl
      rw [Function.update_self, Function.update_self]
      exact hview
    · rw [Function.update_of_ne hkl, Function.update_of_ne hkl]
      exact h.view k hk
  · unfold orderAt at hat ⊢
    rw [horders] at hat
    rw [horders']
    exact h.entry k hk hat

variable [DecidableEq ι]

/-- The same event on both sides. -/
theorem Alike.update (h : Alike K om om') {e : Event ℕ} {l : ℕ}
    (he : e.reportOn = some l) (hl : l ∈ K) :
    Alike K (om.update e) (om'.update e) := by
  have hview := h.view l hl
  cases e with
  | send v session a => cases he
  | cancel v newqty a => cases he
  | destroy v onlyIfTerminal sessionDestroys => cases he
  | acknowledged v exchangeID size ts exts =>
      obtain rfl := Option.some.inj he
      exact h.touch (Order.view_ack hview ..) rfl rfl rfl rfl rfl rfl h.book
  | rejected v ts exts =>
      obtain rfl := Option.some.inj he
      refine h.touch (Order.view_reject hview ts ts exts exts) rfl rfl rfl
        rfl rfl rfl ?_
      have hsize : (om'.order v).size = (om.order v).size :=
        congrArg OrderView.size hview
      show (om'.desk.onOrderRemoves _ (om'.order v).size).book
        = (om.desk.onOrderRemoves _ (om.order v).size).book
      rw [hsize]
      exact Desk.book_onOrderRemoves_congr h.book
        (Order.view_reject hview ..) _
  | fill v size price ts exts feeCode =>
      obtain rfl := Option.some.inj he
      refine h.touch
        (Order.view_fill hview size price ts ts exts exts feeCode) rfl rfl
        rfl rfl rfl rfl ?_
      refine Desk.book_onOrderFill_congr ?_ (Order.view_fill hview ..) ..
      rw [Desk.book_locates _ (sansLocates_recycleOnFill ..),
        Desk.book_locates _ (sansLocates_recycleOnFill ..)]
      exact h.book
  | cancelled v size ts exts =>
      obtain rfl := Option.some.inj he
      refine h.touch (Order.view_cancel hview size ts ts exts exts) rfl rfl
        rfl rfl rfl rfl ?_
      refine Desk.book_onOrderRemoves_congr ?_ (Order.view_cancel hview ..) _
      rw [Desk.book_locates _ (sansLocates_recycleOnCancel ..),
        Desk.book_locates _ (sansLocates_recycleOnCancel ..)]
      exact h.book
  | cancelRejected v ts exts =>
      obtain rfl := Option.some.inj he
      refine h.touch ?_ rfl rfl rfl rfl rfl rfl h.book
      exact Order.view_state hview .cancelRejected

omit [DecidableEq ι] in
/-- The log is not looked at. -/
theorem Alike.logReport (h : Alike K om om') (e : Event ℕ) :
    Alike K (om.logReport e) (om'.logReport e) :=
  ⟨h.localID, h.book, h.view, h.entry⟩

/-- Dropping the entry of a known order leaves the rest. -/
theorem applyOrphan_none {l : ℕ} (hl : l ≤ om.localID) (name : Bytes) :
    om.applyOrphan name l none
      = { om with orders := om.orders.set l none } := by
  unfold applyOrphan extendLocalIDHelper adoptOrderHelper
  dsimp only
  rw [if_pos hl]

theorem orderAt_applyOrphan {l : ℕ} (hl : l ≤ om.localID) (name : Bytes)
    (k : ℕ) :
    (om.applyOrphan name l none).orderAt k
      = if k = l then none else om.orderAt k := by
  rw [applyOrphan_none hl]
  unfold orderAt
  dsimp only
  by_cases hk : k = l
  · subst hk
    rw [if_pos rfl, List.getElem?_set_self']
    cases om.orders[k]? <;> rfl
  · rw [if_neg hk, List.getElem?_set_ne (Ne.symm hk)]

end OrderManager

-- ================================================================ handlers

namespace BOE20

/-- What a handler does for a known order: nothing more than to store the
number, a report about the order, or to drop its entry. -/
inductive Handles (h : MessageHeader) (l : ℕ) : List (Effect ι) → Prop
  | silent : Handles h l [.storeSeqnum h]
  | report (e : Event ℕ) (he : e.reportOn = some l) :
      Handles h l [.storeSeqnum h, .update e, .log e]
  | drop (name : Bytes) : Handles h l [.storeSeqnum h, .adopt name l none]

end BOE20

open BOE20

namespace BOE20Session

variable {s : BOE20Session ι}

/-- A session finds its order in a process that looks the same. -/
theorem getOrder_alike {K : Finset ℕ} {om om' : OrderManager ℕ ι}
    (h : OrderManager.Alike K om om') {l : ℕ} (hl : l ∈ K)
    (hget : s.getOrder om l = some l) : s.getOrder om' l = some l := by
  obtain ⟨hat, hses⟩ := getOrder_eq_some.mp hget
  refine getOrder_eq_some.mpr ⟨h.entry l hl hat, ?_⟩
  rw [← hses]
  exact congrArg OrderView.session (h.view l hl)

variable [DecidableEq ι] {p p' : Process ι} {ts : Timestamp}
  {m : SequencedMessage}

omit [DecidableEq ι] in
theorem handleKnown_handles (om : OrderManager ℕ ι) (l : ℕ) :
    Handles m.header l
      (.storeSeqnum m.header :: handleKnown om ts m l) := by
  have hreport : ∀ e : Event ℕ, e.reportOn = some l →
      Handles (ι := ι) m.header l (.storeSeqnum m.header :: report e) :=
    fun e he => .report e he
  unfold handleKnown
  cases m.body with
  | orderAcknowledgment orderID opt => exact .silent
  | orderExecution lastShares lastPx => exact hreport _ rfl
  | orderCancelled leavesQty =>
      dsimp only
      split
      · exact hreport _ rfl
      · exact .silent
  | orderModified leavesQty =>
      dsimp only
      split
      · exact hreport _ rfl
      · exact .silent
  | orderRestated orderQty leavesQty =>
      dsimp only
      split
      · exact hreport _ rfl
      · exact .silent
  | tradeCancelOrCorrect => exact .silent

omit [DecidableEq ι] in
/-- The effects of a message for a known order. -/
theorem effects_handles
    (hget : s.getOrder p.om m.clOrdID.localID = some m.clOrdID.localID) :
    Handles m.header m.clOrdID.localID (s.effects p ts m) := by
  unfold effects
  cases hbody : m.body with
  | orderAcknowledgment orderID opt =>
      dsimp only
      unfold handleOrderAcknowledgment
      rw [hget]
      dsimp only
      split
      · unfold handleRiskbotReject
        cases p.state with
        | replay => exact .drop _
        | active => exact .report _ rfl
      · exact .report _ rfl
  | _ =>
      dsimp only
      rw [hget]
      exact handleKnown_handles p.om _

omit [DecidableEq ι] in
/-- Processes that look the same answer alike. -/
theorem effects_alike {K : Finset ℕ} (h : OrderManager.Alike K p.om p'.om)
    (hstate : p'.state = p.state) (hl : m.clOrdID.localID ∈ K)
    (hget : s.getOrder p.om m.clOrdID.localID = some m.clOrdID.localID) :
    s.effects p' ts m = s.effects p ts m := by
  have hget' := getOrder_alike h hl hget
  have hopen := congrArg OrderView.openSize (h.view _ hl)
  have hords := congrArg OrderView.state (h.view _ hl)
  have hopen : (p'.om.order m.clOrdID.localID).openSize
      = (p.om.order m.clOrdID.localID).openSize := hopen
  have hords : (p'.om.order m.clOrdID.localID).state
      = (p.om.order m.clOrdID.localID).state := hords
  unfold effects handleOrderAcknowledgment handleRiskbotReject handleKnown
  rw [hget, hget', hstate]
  dsimp only
  rw [hopen, hords]

end BOE20Session

-- ========================================================== the simulation

namespace OrderManager

/-- The order manager as a day on which just the orders in `K` were sent. -/
def asDay (om : OrderManager ℕ ι) (K : Finset ℕ) : Trading ℕ ι :=
  ⟨om, K, K, ∅, ∅, ∅⟩

end OrderManager

/-- A mirror does not look at the history of acknowledgments. -/
theorem Mirrors.congr {t t' : Trading ℕ ι} {r : OrderManager ℕ ι}
    (h : Mirrors t r) (hid : t'.om.localID = t.om.localID)
    (hsessions : t'.om.sessions = t.om.sessions)
    (hbook : t'.om.book = t.om.book) (horder : t'.om.order = t.om.order)
    (hsent : t'.sent = t.sent) (hdestroyed : t'.destroyed = t.destroyed) :
    Mirrors t' r := by
  refine ⟨?_, h.aligned, ?_, ?_, ?_, ?_⟩
  · rw [hid]
    exact h.localID
  · rw [hsessions]
    exact h.sessions
  · rw [hbook]
    exact h.book
  · rw [hsent, hdestroyed, horder]
    exact h.order
  · rw [hsent, hdestroyed, horder]
    exact h.only

namespace BOE20

variable [DecidableEq ι]

/-- `b` is where `a` is, which never died, and could start again from its
log. -/
structure Follows (u : Site ι) (K : Finset ℕ) (a b : Link ι) : Prop where
  alike : OrderManager.Alike K a.process.om b.process.om
  state : b.process.state = a.process.state
  inbound : b.process.inboundSeqnum = a.process.inboundSeqnum
  awaiting : b.awaiting = a.awaiting
  rest : a.awaiting = redelivered a.process.inboundSeqnum u.sent
  named : ∀ l ∈ K, l ≤ b.process.om.localID
    ∧ (b.process.om.order l).localID = l
  logged : Mirrors (b.process.om.asDay K)
    (u.fresh.replay u.create b.process.om.orderlog)

variable {u : Site ι} {K : Finset ℕ} {a b : Link ι}

omit [DecidableEq ι] in
theorem placed_of_named {om : OrderManager ℕ ι}
    (h : ∀ l ∈ K, l ≤ om.localID ∧ (om.order l).localID = l) :
    Placed (om.asDay K) := by
  refine ⟨fun l hl => ?_, fun l hl k hk he => ?_⟩
  · show (om.order l).localID ≤ om.localID
    rw [(h l hl).2]
    exact (h l hl).1
  · have he : (om.order l).localID = (om.order k).localID := he
    rw [(h l hl).2, (h k hk).2] at he
    exact he

/-- A report keeps the log a full account. -/
theorem logged_report {om : OrderManager ℕ ι}
    (hnamed : ∀ l ∈ K, l ≤ om.localID ∧ (om.order l).localID = l)
    (hlogged : Mirrors (om.asDay K) (u.fresh.replay u.create om.orderlog))
    {e : Event ℕ} {l : ℕ} (he : e.reportOn = some l) (hl : l ∈ K) :
    Mirrors (((om.update e).logReport e).asDay K)
      (u.fresh.replay u.create ((om.update e).logReport e).orderlog) := by
  have hlog : ((om.update e).logReport e).orderlog
      = om.orderlog ++ (om.update e).record e :=
    congrArg (· ++ _) (om.update_orderlog e)
  have hnext := hlogged.report u.create (placed_of_named hnamed) he hl
    (Finset.notMem_empty l)
  have hom := (om.asDay K).step_report he
  have hom : ((om.asDay K).step e).om = (om.update e).logReport e := hom
  have hsame : ((om.asDay K).step e).sent = K
      ∧ ((om.asDay K).step e).destroyed = ∅ := by
    cases e with
    | send v session a => cases he
    | cancel v newqty a => cases he
    | destroy v onlyIfTerminal sessionDestroys => cases he
    | _ => exact ⟨rfl, rfl⟩
  rw [hlog]
  have happend : u.fresh.replay u.create
      (om.orderlog ++ (om.update e).record e)
      = (u.fresh.replay u.create om.orderlog).replay u.create
        ((om.update e).record e) := Lib.run_append ..
  rw [happend]
  have hom' : (((om.update e).logReport e).asDay K).om
      = ((om.asDay K).step e).om := hom.symm
  exact hnext.congr (by rw [hom']) (by rw [hom']) (by rw [hom'])
    (by rw [hom']) hsame.1.symm hsame.2.symm

/-- An event about a known order leaves ids and names alone. -/
theorem named_report {om : OrderManager ℕ ι}
    (hnamed : ∀ l ∈ K, l ≤ om.localID ∧ (om.order l).localID = l)
    (e : Event ℕ) :
    ∀ l ∈ K, l ≤ (om.update e).localID
      ∧ ((om.update e).order l).localID = l := by
  have hwrite : ∀ (v : ℕ) (o : Order ι), o.localID = (om.order v).localID →
      ∀ l ∈ K, l ≤ om.localID
        ∧ (Function.update om.order v o l).localID = l := by
    intro v o ho l hl
    obtain ⟨hle, hid⟩ := hnamed l hl
    refine ⟨hle, ?_⟩
    by_cases hlv : l = v
    · subst hlv
      rw [Function.update_self, ho]
      exact hid
    · rw [Function.update_of_ne hlv]
      exact hid
  cases e with
  | send v session a => exact hnamed
  | cancel v newqty a => exact hnamed
  | destroy v onlyIfTerminal sessionDestroys => exact hnamed
  | acknowledged v exchangeID size ts exts => exact hwrite v _ rfl
  | rejected v ts exts => exact hwrite v _ rfl
  | fill v size price ts exts feeCode => exact hwrite v _ rfl
  | cancelled v size ts exts =>
      refine hwrite v _ ?_
      rw [orderUpdateOnCancel_eq]
  | cancelRejected v ts exts => exact hwrite v _ rfl

/-- Both processes perform all effects of a message. -/
theorem follows_handle (h : Follows u K a b) {m : SequencedMessage}
    {ms : List SequencedMessage} (hnext : a.awaiting = m :: ms)
    (hsent : Lib.Sequenced (fun m => m.header.matchingUnit)
      (fun m => m.header.sequenceNumber) u.sent)
    (hl : m.clOrdID.localID ∈ K) {es : List (Effect ι)}
    (hes : Handles m.header m.clOrdID.localID es) :
    Follows u K ⟨a.process.performAll es, ms⟩
      ⟨b.process.performAll es, ms⟩ := by
  have hrest : ms = redelivered (Function.update a.process.inboundSeqnum
      m.header.matchingUnit m.header.sequenceNumber) u.sent :=
    (Lib.above_mark hsent (h.rest.symm.trans hnext)).symm
  have hstore : Function.update b.process.inboundSeqnum
        m.header.matchingUnit m.header.sequenceNumber
      = Function.update a.process.inboundSeqnum m.header.matchingUnit
        m.header.sequenceNumber := by rw [h.inbound]
  cases hes with
  | silent =>
      exact ⟨h.alike, h.state, hstore, rfl, hrest, h.named, h.logged⟩
  | report e he =>
      exact ⟨(h.alike.update he hl).logReport e, h.state, hstore, rfl,
        hrest, named_report h.named e, logged_report h.named h.logged he hl⟩
  | drop name =>
      have hle := (h.named _ hl).1
      have hle' : m.clOrdID.localID ≤ a.process.om.localID := by
        rw [← h.alike.localID]
        exact hle
      have hentry : ∀ l ∈ K,
          (a.process.om.applyOrphan name m.clOrdID.localID none).orderAt l
            = some l →
          (b.process.om.applyOrphan name m.clOrdID.localID none).orderAt l
            = some l := by
        intro l hlK hat
        rw [OrderManager.orderAt_applyOrphan hle'] at hat
        rw [OrderManager.orderAt_applyOrphan hle]
        split at hat
        case isTrue => cases hat
        case isFalse hne =>
          rw [if_neg hne]
          exact h.alike.entry l hlK hat
      refine ⟨⟨?_, ?_, ?_, hentry⟩, h.state, hstore, rfl, hrest, ?_, ?_⟩
      · show (b.process.om.applyOrphan name _ none).localID
          = (a.process.om.applyOrphan name _ none).localID
        rw [OrderManager.applyOrphan_none hle,
          OrderManager.applyOrphan_none hle']
        exact h.alike.localID
      · show (b.process.om.applyOrphan name _ none).book
          = (a.process.om.applyOrphan name _ none).book
        rw [OrderManager.applyOrphan_none hle,
          OrderManager.applyOrphan_none hle']
        exact h.alike.book
      · show ∀ l ∈ K, ((b.process.om.applyOrphan name _ none).order l).view
          = ((a.process.om.applyOrphan name _ none).order l).view
        rw [OrderManager.applyOrphan_none hle,
          OrderManager.applyOrphan_none hle']
        exact h.alike.view
      · show ∀ l ∈ K, l ≤ (b.process.om.applyOrphan name _ none).localID
          ∧ ((b.process.om.applyOrphan name _ none).order l).localID = l
        rw [OrderManager.applyOrphan_none hle]
        exact h.named
      · show Mirrors ((b.process.om.applyOrphan name _ none).asDay K)
          (u.fresh.replay u.create
            (b.process.om.applyOrphan name _ none).orderlog)
        rw [OrderManager.applyOrphan_none hle]
        exact h.logged.congr rfl rfl rfl rfl rfl rfl

/-- Where the process dies without tearing the message, what is on disk is
what it would be after the whole message, or before it. -/
theorem follows_interrupted (h : Follows u K a b) {m : SequencedMessage}
    {ms : List SequencedMessage} (hnext : a.awaiting = m :: ms)
    (hsent : Lib.Sequenced (fun m => m.header.matchingUnit)
      (fun m => m.header.sequenceNumber) u.sent)
    (hl : m.clOrdID.localID ∈ K) {es : List (Effect ι)}
    (hes : Handles m.header m.clOrdID.localID es) {k : ℕ} (hk : k ≠ 0)
    (hwhole : ∀ e ∈ es.drop k, e.logs = false) :
    Follows u K ⟨a.process.performAll es, ms⟩
      ⟨b.process.performAll (es.take k), ms⟩ := by
  have hall := follows_handle h hnext hsent hl hes
  obtain ⟨k, rfl⟩ := Nat.exists_eq_succ_of_ne_zero hk
  cases hes with
  | silent =>
      rw [List.take_succ_cons, List.take_nil]
      exact hall
  | report e he =>
      have hlong : 2 ≤ k := by
        by_contra hshort
        have hlog := hwhole (.log e) (by
          have hk : k = 0 ∨ k = 1 := by omega
          rcases hk with rfl | rfl
          · exact List.mem_cons_of_mem _ (List.mem_cons_self ..)
          · exact List.mem_cons_self ..)
        cases hlog
      obtain ⟨k, rfl⟩ := Nat.exists_eq_add_of_le hlong
      rw [List.take_of_length_le (by simp)]
      exact hall
  | drop name =>
      cases k with
      | zero =>
          -- the entry is still there, and the other process has lost it
          have hstored := follows_handle h hnext hsent hl .silent
          have hle : m.clOrdID.localID ≤ a.process.om.localID := by
            rw [← h.alike.localID]
            exact (h.named _ hl).1
          obtain ⟨hid, hbook, hview, hentry⟩ := hstored.alike
          refine ⟨⟨?_, ?_, ?_, fun l hlK hat => ?_⟩, hstored.state,
            hstored.inbound, rfl, hstored.rest, hstored.named,
            hstored.logged⟩
          · show _ = (a.process.om.applyOrphan name _ none).localID
            rw [OrderManager.applyOrphan_none hle]
            exact hid
          · show _ = (a.process.om.applyOrphan name _ none).book
            rw [OrderManager.applyOrphan_none hle]
            exact hbook
          · show ∀ l ∈ K, _
              = ((a.process.om.applyOrphan name _ none).order l).view
            rw [OrderManager.applyOrphan_none hle]
            exact hview
          · have hat : (a.process.om.applyOrphan name m.clOrdID.localID
                none).orderAt l = some l := hat
            rw [OrderManager.orderAt_applyOrphan hle] at hat
            split at hat
            case isTrue => cases hat
            case isFalse => exact hentry l hlK hat
      | succ k =>
          rw [List.take_of_length_le (by simp)]
          exact hall

/-- A new process follows, and it is at the messages still to come. -/
theorem Follows.restart (h : Follows u K a b) {c : OrderManagerConf ℕ ι}
    (hfresh : u.fresh = OrderManager.start c) :
    Follows u K { a with process := a.process.inState .replay }
      ⟨u.restart b.process,
        redelivered (u.restart b.process).inboundSeqnum u.sent⟩ := by
  let r := u.fresh.replay u.create b.process.om.orderlog
  have hlog : u.fresh.replay u.create
      (b.process.om.orderlog ++ u.fresh.orderlog) = r := by
    have hstart := OrderManager.replay_start u.create c r
    rw [← hfresh] at hstart
    exact (Lib.run_append ..).trans hstart
  have hom : (u.restart b.process).om = { r with
      orderlog := b.process.om.orderlog ++ u.fresh.orderlog } := by
    show { u.fresh.replay u.create
        (b.process.om.orderlog ++ u.fresh.orderlog) with
      orderlog := b.process.om.orderlog ++ u.fresh.orderlog } = _
    rw [hlog]
  -- the log has every order, under its id
  have hback : ∀ l ∈ K, r.orderAt l = some l
      ∧ (r.order l).view = (b.process.om.order l).view := by
    intro l hl
    have := h.logged.order l hl (Finset.notMem_empty l)
    have hid : ((b.process.om.asDay K).om.order l).localID = l :=
      (h.named l hl).2
    rw [hid] at this
    exact this
  have hids : ∀ l ∈ K, (r.order l).localID = l := fun l hl =>
    (congrArg OrderView.localID (hback l hl).2).trans (h.named l hl).2
  have hrid : r.localID = b.process.om.localID := h.logged.localID
  refine ⟨⟨?_, ?_, fun l hl => ?_, fun l hl _ => ?_⟩, rfl, h.inbound, ?_,
    ?_, fun l hl => ?_, ?_⟩
  · rw [hom]
    exact hrid.trans h.alike.localID
  · rw [hom]
    exact h.logged.book.trans h.alike.book
  · rw [hom]
    exact (hback l hl).2.trans (h.alike.view l hl)
  · rw [hom]
    exact (hback l hl).1
  · show redelivered b.process.inboundSeqnum u.sent = a.awaiting
    rw [h.inbound]
    exact h.rest.symm
  · exact h.rest
  · rw [hom]
    refine ⟨?_, hids l hl⟩
    show l ≤ r.localID
    rw [hrid]
    exact (h.named l hl).1
  · have hrestored : u.fresh.replay u.create
        (u.restart b.process).om.orderlog = r := hlog
    rw [hrestored, hom]
    refine ⟨rfl, h.logged.aligned, rfl, rfl, fun l hl _ => ?_,
      fun l p hp => ?_⟩
    · show r.orderAt (r.order l).localID = some (r.order l).localID
        ∧ (r.order (r.order l).localID).view = (r.order l).view
      rw [hids l hl]
      exact ⟨(hback l hl).1, rfl⟩
    · obtain ⟨w, hw, hkept, hid⟩ := h.logged.only l p hp
      refine ⟨w, hw, hkept, ?_⟩
      rw [← hid]
      exact (hids w hw).trans (h.named w hw).2.symm

-- ================================================================= one move

/-- A move that tears no message keeps the two together. -/
theorem follows_step (h : Follows u K a b) {c : OrderManagerConf ℕ ι}
    (hfresh : u.fresh = OrderManager.start c)
    (hsent : Lib.Sequenced (fun m => m.header.matchingUnit)
      (fun m => m.header.sequenceNumber) u.sent)
    {e : Move} (hknown : a.Known u K e) (hwhole : b.Whole u e) :
    Follows u K (a.calm u e) (b.step u e) := by
  obtain ⟨p, ms⟩ := a
  obtain ⟨p', ms'⟩ := b
  obtain rfl : ms' = ms := h.awaiting
  cases e with
  | replayComplete =>
      exact ⟨h.alike, rfl, h.inbound, rfl, h.rest, h.named, h.logged⟩
  | handle ts =>
      cases ms' with
      | nil => exact h
      | cons m ms =>
          obtain ⟨hl, hget⟩ := hknown
          have heq : u.session.effects p' ts m = u.session.effects p ts m :=
            u.session.effects_alike h.alike h.state hl hget
          show Follows u K ⟨p.performAll (u.session.effects p ts m), ms⟩
            ⟨p'.performAll (u.session.effects p' ts m), ms⟩
          rw [heq]
          exact follows_handle h rfl hsent hl
            (u.session.effects_handles hget)
  | crash ts k =>
      cases ms' with
      | nil =>
          have hcalm : Link.calm u ⟨p, []⟩ (.crash ts k)
              = ⟨p.inState .replay, []⟩ := by
            unfold Link.calm
            dsimp only
            split <;> rfl
          rw [hcalm]
          exact h.restart hfresh
      | cons m ms =>
          obtain ⟨hl, hget⟩ := hknown
          have heq : u.session.effects p' ts m = u.session.effects p ts m :=
            u.session.effects_alike h.alike h.state hl hget
          have hstep : Link.step u ⟨p', m :: ms⟩ (.crash ts k)
              = ⟨u.restart
                  (p'.performAll ((u.session.effects p ts m).take k)),
                redelivered (u.restart (p'.performAll
                  ((u.session.effects p ts m).take k))).inboundSeqnum
                  u.sent⟩ := by
            rw [← heq]
            rfl
          have hwhole : k = 0 ∨ ∀ e ∈ (u.session.effects p' ts m).drop k,
            e.logs = false := hwhole
          rw [heq] at hwhole
          rw [hstep]
          by_cases hk : k = 0
          · subst hk
            exact h.restart hfresh
          · have hcalm : Link.calm u ⟨p, m :: ms⟩ (.crash ts k)
                = ⟨(p.performAll (u.session.effects p ts m)).inState
                    .replay, ms⟩ := by
              unfold Link.calm
              dsimp only
              rw [if_neg hk]
              rfl
            rw [hcalm]
            exact (follows_interrupted h rfl hsent hl
              (u.session.effects_handles hget) hk
              (hwhole.resolve_left hk)).restart hfresh

-- ================================================================= result

/-- The process that never dies handles each message once, in order. -/
theorem calm_handles (l : Link ι) (moves : List Move) :
    ∃ rs : List Reading,
      rs.map Reading.message ++ (Lib.run (Link.calm u) l moves).awaiting
        = l.awaiting
      ∧ (Lib.run u.session.handle l.process rs).om
        = (Lib.run (Link.calm u) l moves).process.om := by
  let I : Link ι → Prop := fun l' => ∃ rs : List Reading,
    rs.map Reading.message ++ l'.awaiting = l.awaiting
    ∧ (Lib.run u.session.handle l.process rs).inState l'.process.state
      = l'.process
  have hhandle : ∀ l' ts, I l' → I (l'.step u (.handle ts)) := by
    rintro ⟨p, aw⟩ ts ⟨rs, hmap, hrun⟩
    cases aw with
    | nil => exact ⟨rs, hmap, hrun⟩
    | cons m ms =>
        refine ⟨rs ++ [⟨p.state, ts, m⟩], ?_, ?_⟩
        · rw [← hmap, List.map_append, List.append_assoc]
          rfl
        · rw [Lib.run_append]
          have hrun : (Lib.run u.session.handle l.process rs).inState
              p.state = p := hrun
          have hstep : u.session.handle
              (Lib.run u.session.handle l.process rs) ⟨p.state, ts, m⟩
              = p.performAll (u.session.effects p ts m) := by
            show ((Lib.run u.session.handle l.process rs).inState
              p.state).performAll (u.session.effects
                ((Lib.run u.session.handle l.process rs).inState p.state)
                ts m) = _
            rw [hrun]
          show (u.session.handle _ _).inState
            (p.performAll (u.session.effects p ts m)).state = _
          rw [hstep]
          rfl
  have hstep : ∀ l' e, I l' → I (l'.calm u e) := by
    intro l' e hI
    cases e with
    | handle ts => exact hhandle l' ts hI
    | replayComplete =>
        obtain ⟨rs, hmap, hrun⟩ := hI
        refine ⟨rs, hmap, ?_⟩
        show _ = l'.process.inState .active
        rw [← hrun]
        rfl
    | crash ts k =>
        have hI : I (if k = 0 then l' else l'.step u (.handle ts)) := by
          split
          · exact hI
          · exact hhandle l' ts hI
        obtain ⟨rs, hmap, hrun⟩ := hI
        refine ⟨rs, hmap, ?_⟩
        show _ = (if k = 0 then l'
          else l'.step u (.handle ts)).process.inState .replay
        rw [← hrun]
        rfl
  have hend : I (Lib.run (Link.calm u) l moves) :=
    Lib.run_induction hstep (⟨[], rfl, rfl⟩ : I l)
  obtain ⟨rs, hmap, hrun⟩ := hend
  have hom := congrArg Process.om hrun
  exact ⟨rs, hmap, hom⟩

omit [DecidableEq ι] in
/-- The session of a market creates the orders that were sent to it. -/
theorem onCreateReplayOrder_builds (s : BOE20Session ι)
    {a : ReplayOrder ι} (h : a.market = .bats) :
    ∃ o, s.onCreateReplayOrder a = some o ∧ a.Builds s.name o := by
  unfold BOE20Session.onCreateReplayOrder
  rw [if_neg (not_not.mpr h)]
  exact ⟨_, rfl, rfl, rfl, rfl, rfl, rfl, rfl, rfl, rfl, rfl, rfl, rfl,
    rfl⟩

/-- From any day, and over any number of crashes none of which tears a
message: the messages that are not to come any more are those that were
applied, each once and in order, to the orders and the book. -/
theorem applied_once_across_crashes (c c' : OrderManagerConf ℕ ι)
    (hday : c.SameDay c') (create : CreateReplayOrder ι)
    (hcreate : create.Faithful (OrderManager.start c).sessions)
    (es : List (Event ℕ))
    (hes : Lib.Admits Trading.step Trading.Logged (Trading.start c) es)
    (session : BOE20Session ι) (sent : List SequencedMessage)
    (hsent : Lib.Sequenced (fun m : SequencedMessage =>
        m.header.matchingUnit) (fun m => m.header.sequenceNumber) sent)
    (state : State) (inbound : Nat → Nat) (moves : List Move) :
    let t := Lib.run Trading.step (Trading.start c) es
    let K := t.sent \ t.destroyed
    let u : Site ι := ⟨session, create, OrderManager.start c', sent⟩
    let l₀ : Link ι :=
      ⟨⟨t.om, state, inbound⟩, redelivered inbound sent⟩
    let l := Lib.run (Link.step u) l₀ moves
    (∀ w ∈ t.sent, (t.om.order w).localID = w) →
    Lib.Admits (Link.calm u) (Link.Known u K) l₀ moves →
    Lib.Admits (Link.step u) (Link.Whole u) l₀ moves →
    ∃ rs : List Reading,
      rs.map Reading.message ++ l.awaiting = l₀.awaiting
      ∧ let p := Lib.run session.handle l₀.process rs
        (∀ w ∈ K, (l.process.om.order w).view = (p.om.order w).view)
        ∧ l.process.om.book = p.om.book := by
  intro t K u l₀ l hnamed hknown hwhole
  have hmirror := mirrors_replay hday hcreate hes
  have hinv : LoggedInv c t :=
    Lib.run_invariant loggedInv_step (loggedInv_start c) hes
  have hK : ∀ w ∈ K, w ∈ t.sent ∧ w ∉ t.destroyed := fun w hw =>
    Finset.mem_sdiff.mp hw
  have hlogged : Mirrors (t.om.asDay K)
      (u.fresh.replay u.create t.om.orderlog) := by
    refine ⟨hmirror.localID, hmirror.aligned, hmirror.sessions,
      hmirror.book, fun w hw _ => ?_, fun k p hp => ?_⟩
    · exact hmirror.order w (hK w hw).1 (hK w hw).2
    · obtain ⟨w, hw, hkept, hid⟩ := hmirror.only k p hp
      exact ⟨w, Finset.mem_sdiff.mpr ⟨hw, hkept⟩, Finset.notMem_empty w,
        hid⟩
  have hstart : Follows u K l₀ l₀ := by
    refine ⟨.refl K t.om, rfl, rfl, rfl, rfl, fun w hw => ?_, hlogged⟩
    have hid := hnamed w (hK w hw).1
    refine ⟨?_, hid⟩
    have hle := hinv.placed.numbered w (hK w hw).1
    rw [hid] at hle
    exact hle
  have hmove : ∀ (a b : Link ι) (e : Move), Follows u K a b →
      a.Known u K e → b.Whole u e →
      Follows u K (a.calm u e) (b.step u e) :=
    fun a b e h hk hw => follows_step h rfl hsent hk hw
  have hend : Follows u K (Lib.run (Link.calm u) l₀ moves) l :=
    Lib.run_simulation hmove hstart hknown hwhole
  obtain ⟨rs, hmap, hrun⟩ := calm_handles (u := u) l₀ moves
  refine ⟨rs, ?_, ?_⟩
  · rw [hend.awaiting]
    exact hmap
  · intro p
    have hp : p.om = (Lib.run (Link.calm u) l₀ moves).process.om := hrun
    rw [hp]
    exact ⟨hend.alike.view, hend.alike.book⟩

section Demo

/-- A day with one order, sent to the session `B` of BATS. -/
def demoConf : OrderManagerConf ℕ Unit := .plain fun _ =>
  .dayLimit () .buy 10 5

def demoSession : BOE20Session Unit :=
  ⟨[66], .bats, fun _ => none, fun _ => [], ⟨9, 0⟩⟩

/-- Acknowledged, four shares executed, the rest cancelled. -/
def demoMessages : List SequencedMessage :=
  [⟨⟨1, 1⟩, 1, ⟨'A', 1⟩,
      .orderAcknowledgment 77 ⟨'1', 50000, '2', '0', [65], 10, 10⟩⟩,
    ⟨⟨1, 2⟩, 2, ⟨'A', 1⟩, .orderExecution 4 50000⟩,
    ⟨⟨1, 3⟩, 3, ⟨'A', 1⟩, .orderCancelled 0⟩]

def demoSite : Site Unit :=
  ⟨demoSession, fun _ a => demoSession.onCreateReplayOrder a,
    OrderManager.start demoConf, demoMessages⟩

def demoLink : Link Unit :=
  let t := Lib.run Trading.step (Trading.start demoConf)
    [.send 1 [66] .taken]
  ⟨⟨t.om, .active, fun _ => 0⟩, redelivered (fun _ => 0) demoMessages⟩

/-- The process dies after the execution is in the log, and again before
the cancel is touched. -/
theorem applied_once_across_crashes_demo :
    let moves := [.handle ⟨1, 0⟩, .crash ⟨2, 0⟩ 3, .crash ⟨3, 0⟩ 0,
      .replayComplete, .handle ⟨4, 0⟩]
    let l := Lib.run (Link.step demoSite) demoLink moves
    l.awaiting = [] ∧ (l.process.om.order 1).filledSize = 4
      ∧ (l.process.om.order 1).cancelledSize = 6
      ∧ ∃ rs : List Reading,
        rs.map Reading.message ++ l.awaiting = demoMessages
        ∧ l.process.om.book
          = (Lib.run demoSession.handle demoLink.process rs).om.book := by
  intro moves l
  obtain ⟨rs, hmap, -, hbook⟩ := applied_once_across_crashes demoConf
    demoConf ⟨rfl, rfl, rfl, rfl, rfl⟩
    (fun _ a => demoSession.onCreateReplayOrder a)
    (fun s hs a ha => by
      have hs : s = ([66], .bats) := List.mem_singleton.mp hs
      subst hs
      exact onCreateReplayOrder_builds demoSession ha)
    [.send 1 [66] .taken] (by decide +kernel) demoSession demoMessages
    (by decide) .active (fun _ => 0) moves (by decide +kernel)
    (by decide +kernel) (by decide +kernel)
  exact ⟨by decide +kernel, by decide +kernel, by decide +kernel, rs, hmap,
    hbook⟩

/-- The process dies once the execution's number is stored: nothing awaits
in the end, and the four shares are nowhere. -/
theorem torn_execution_lost :
    let moves := [.handle ⟨1, 0⟩, .crash ⟨2, 0⟩ 1, .replayComplete,
      .handle ⟨4, 0⟩]
    let l := Lib.run (Link.step demoSite) demoLink moves
    Lib.Admits (Link.calm demoSite) (Link.Known demoSite {1}) demoLink moves
      ∧ l.awaiting = [] ∧ (l.process.om.order 1).filledSize = 0
      ∧ (l.process.om.order 1).cancelledSize = 10
      ∧ (l.process.om.desk.position ()).tradingQuantity = 0
      ∧ let p := Lib.run demoSession.handle demoLink.process
          [⟨.active, ⟨1, 0⟩, demoMessages[0]⟩,
            ⟨.active, ⟨2, 0⟩, demoMessages[1]⟩,
            ⟨.active, ⟨4, 0⟩, demoMessages[2]⟩]
        (p.om.order 1).filledSize = 4
        ∧ (p.om.desk.position ()).tradingQuantity = 4 := by
  decide +kernel

end Demo

end BOE20

end TradingEngine.OE
