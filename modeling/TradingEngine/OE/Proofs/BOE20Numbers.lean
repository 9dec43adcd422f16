/-
The sequence numbers that an exchange gets from a BOE session, over
reconnects and restarts.

# Invariant

There is at most one login on a connection: on its way to the exchange, as a
response on its way back, or known to the session (`logins`). While a
response is on its way there are no orders, so the number in it is still the
last one the exchange has received when the session takes it over.

# Writes

The numbering goes wrong with the first write that is not `Proper`, and only
then (`numbered_iff_proper`). A thread that has found the session `ACTIVE` may
write so late that the session has reconnected; if none is that late, it is
enough that what is written to an open connection is written whole
(`numbered_of_settled`). `ACTIVE` then says that the login is answered, because
a replay is complete only after that (`Answered`).
-/
import TradingEngine.OE.BOE20Numbers

namespace TradingEngine.OE.BOE20.Wire

-- ================================================================= numbers

/-- One more number at the end. -/
theorem numbersAfter_succ (taken count : Nat) :
    numbersAfter taken (count + 1)
      = numbersAfter taken count ++ [.ofNat (taken + count + 1)] := by
  unfold numbersAfter
  rw [List.range_succ, List.map_append]
  rfl

/-- One more number at the beginning. -/
theorem numbersAfter_succ' (taken count : Nat) :
    numbersAfter taken (count + 1)
      = .ofNat (taken + 1) :: numbersAfter (taken + 1) count := by
  unfold numbersAfter
  rw [List.range_succ_eq_map, List.map_cons, List.map_map]
  refine congrArg _ (List.map_congr_left fun i _ => ?_)
  show UInt32.ofNat (taken + (i + 1) + 1) = UInt32.ofNat (taken + 1 + i + 1)
  rw [Nat.add_right_comm taken 1 i]
  rfl

/-- Counting goes on in 32 bits. -/
theorem ofNat_succ (n : Nat) : (UInt32.ofNat n + 1 : UInt32) = .ofNat (n + 1) :=
  (UInt32.ofNat_add n 1).symm

-- =============================================================== invariant

/-- Logins on the connection, wherever they are. -/
def logins (w : Wire) : Nat :=
  w.toExchange.count .loginRequest
    + w.toSession.countP ToSession.isLoginResponse + w.answered.toNat

/-- A numbered wire, and why it stays so. -/
structure Inv (w : Wire) : Prop extends w.Numbered where
  logins_le : w.logins ≤ 1
  /-- Orders come after the login. -/
  loggedIn : w.inFlight ≠ [] →
    w.loggedIn = true ∧ ToExchange.loginRequest ∉ w.toExchange
  answered : w.connected = true → w.answered = true →
    w.loggedIn = true ∧ ToExchange.loginRequest ∉ w.toExchange
  /-- The number in a response is still that of the last order. -/
  response : ∀ n, ToSession.loginResponse true n ∈ w.toSession →
    n = w.lastReceived ∧ w.inFlight = [] ∧ w.loggedIn = true
      ∧ ToExchange.loginRequest ∉ w.toExchange

/-- Before the first connection there is nothing on the wire. -/
theorem inv_start : start.Inv where
  received := rfl
  inFlight := rfl
  next h := by cases h
  waiting h := by cases h
  logins_le := Nat.zero_le 1
  loggedIn h := absurd rfl h
  answered h := by cases h
  response _ h := by cases h

/-- A turn that takes no order and no login anywhere, and either closes the
session's end or leaves its number alone. -/
theorem Inv.frame {w w' : Wire} (h : w.Inv)
    (hinFlight : w'.inFlight = w.inFlight)
    (hlogin : ToExchange.loginRequest ∈ w'.toExchange →
      ToExchange.loginRequest ∈ w.toExchange)
    (hreceived : w'.received = w.received)
    (hloggedIn : w'.loggedIn = w.loggedIn)
    (hresponse : ∀ n, ToSession.loginResponse true n ∈ w'.toSession →
      ToSession.loginResponse true n ∈ w.toSession)
    (hlogins : w'.logins ≤ w.logins)
    (hopen : w'.connected = true → w.connected = true
      ∧ w'.answered = w.answered
      ∧ w'.session.outboundSeqnum = w.session.outboundSeqnum) : w'.Inv where
  received := by rw [hreceived]; exact h.received
  inFlight := by rw [hinFlight, hreceived]; exact h.inFlight
  next hconn hans := by
    obtain ⟨hconn', hans', hnum⟩ := hopen hconn
    rw [hnum, hinFlight, hreceived]
    exact h.next hconn' (hans' ▸ hans)
  waiting hconn hans := by
    obtain ⟨hconn', hans', -⟩ := hopen hconn
    rw [hinFlight]
    exact h.waiting hconn' (hans' ▸ hans)
  logins_le := hlogins.trans h.logins_le
  loggedIn hne := by
    rw [hinFlight] at hne
    rw [hloggedIn]
    exact ⟨(h.loggedIn hne).1, fun hmem => (h.loggedIn hne).2 (hlogin hmem)⟩
  answered hconn hans := by
    obtain ⟨hconn', hans', -⟩ := hopen hconn
    obtain ⟨hin, hnot⟩ := h.answered hconn' (hans' ▸ hans)
    rw [hloggedIn]
    exact ⟨hin, fun hmem => hnot (hlogin hmem)⟩
  response n hn := by
    obtain ⟨hlast, hnone, hin, hnot⟩ := h.response n (hresponse n hn)
    refine ⟨?_, hinFlight.trans hnone, hloggedIn.trans hin,
      fun hmem => hnot (hlogin hmem)⟩
    unfold lastReceived at hlast ⊢
    rw [hreceived]
    exact hlast

-- =================================================================== turns

variable {w : Wire}

/-- A new connection is empty, and what was under way is lost. -/
theorem inv_connect (h : w.Inv) : (w.step .connect).Inv := by
  have hfresh : ∀ session toExchange,
      (toExchange = [] ∨ toExchange = [ToExchange.loginRequest]) →
      Inv { w with
        session, toExchange
        connected := true
        toSession := []
        loggedIn := false
        answered := false } := by
    intro session toExchange hwire
    have hnone : toExchange.filterMap ToExchange.orderNumber = [] := by
      rcases hwire with rfl | rfl <;> rfl
    refine {
      received := h.received
      inFlight := ?_
      next := fun _ hans => Bool.noConfusion hans
      waiting := fun _ _ => hnone
      logins_le := ?_
      loggedIn := fun hne => absurd hnone hne
      answered := fun _ hans => Bool.noConfusion hans
      response := fun _ hn => absurd hn List.not_mem_nil }
    · unfold inFlight
      rw [hnone]
      rfl
    · rcases hwire with rfl | rfl
      · exact Nat.zero_le 1
      · exact Nat.le_refl 1
  unfold step
  dsimp only
  split
  · exact hfresh _ _ (.inr rfl)
  · exact hfresh _ _ (.inl rfl)

/-- The exchange answers a login: no order has passed it. -/
theorem inv_login {rest : List ToExchange} (h : w.Inv)
    (hw : w.toExchange = .loginRequest :: rest) (accept : Bool) :
    (w.exchangeReads accept).Inv := by
  have hcount := h.logins_le
  unfold logins at hcount
  rw [hw, List.count_cons_self] at hcount
  have hno : ToExchange.loginRequest ∉ rest :=
    List.count_eq_zero.mp (by omega)
  have hans : w.answered = false := by
    cases hb : w.answered with
    | false => rfl
    | true => rw [hb, Bool.toNat_true] at hcount; omega
  have hresp : ∀ m ∈ w.toSession, m.isLoginResponse = false := by
    intro m hm
    have hzero : w.toSession.countP ToSession.isLoginResponse = 0 := by omega
    exact Bool.eq_false_iff.mpr (List.countP_eq_zero.mp hzero m hm)
  have hnone : rest.filterMap ToExchange.orderNumber = [] := by
    by_contra hne
    have hin : w.inFlight ≠ [] := by
      unfold inFlight
      rw [hw]
      exact hne
    exact (h.loggedIn hin).2 (by rw [hw]; exact List.mem_cons_self)
  unfold exchangeReads
  rw [hw]
  dsimp only
  refine ⟨⟨h.received, ?_, fun _ hans' => ?_, fun _ _ => hnone⟩, ?_,
    fun hne => absurd hnone hne, fun _ hans' => ?_, fun n hn => ?_⟩
  · unfold inFlight
    dsimp only
    rw [hnone]
    rfl
  · dsimp only at hans'
    rw [hans] at hans'
    cases hans'
  · have hzero : w.toSession.countP ToSession.isLoginResponse = 0 := by omega
    unfold logins answer
    dsimp only
    rw [hans, List.count_eq_zero.mpr hno]
    split
    · rw [List.countP_append, hzero]
      cases accept <;> exact Nat.le_refl 1
    · rw [hzero]
      exact Nat.zero_le 1
  · dsimp only at hans'
    rw [hans] at hans'
    cases hans'
  · have hlast : ToSession.loginResponse true n
        = .loginResponse accept w.lastReceived := by
      unfold answer at hn
      split at hn
      · rcases List.mem_append.mp hn with hold | hnew
        · cases hresp _ hold
        · rcases List.mem_cons.mp hnew with heq | htail
          · exact heq
          · cases accept
            · cases htail
            · rcases List.mem_singleton.mp htail with heq
              cases heq
      · cases hresp _ hn
    cases hlast
    exact ⟨rfl, hnone, rfl, hno⟩

/-- The exchange takes an order. -/
theorem inv_taken {n : UInt32} {rest : List ToExchange} (h : w.Inv)
    (hw : w.toExchange = .order n :: rest) (accept : Bool) :
    (w.exchangeReads accept).Inv := by
  have hflight : w.inFlight = n :: rest.filterMap ToExchange.orderNumber := by
    unfold inFlight
    rw [hw]
    rfl
  have hne : w.inFlight ≠ [] := by
    rw [hflight]
    exact List.cons_ne_nil _ _
  obtain ⟨hin, hno⟩ := h.loggedIn hne
  have hno' : ToExchange.loginRequest ∉ rest := by
    rw [hw] at hno
    exact fun hmem => hno (List.mem_cons_of_mem _ hmem)
  have hnumbers := h.inFlight
  rw [hflight, List.length_cons, numbersAfter_succ'] at hnumbers
  obtain ⟨hn, hrest⟩ := List.cons.inj hnumbers
  have hreceived : w.received ++ [n]
      = numbersAfter 0 (w.received ++ [n]).length := by
    rw [List.length_append, List.length_singleton, numbersAfter_succ,
      ← h.received, Nat.zero_add, hn]
  unfold exchangeReads
  rw [hw]
  dsimp only
  rw [if_pos hin]
  refine ⟨⟨hreceived, ?_, fun hconn hans => ?_, fun hconn hans => ?_⟩, ?_,
    fun _ => ⟨hin, hno'⟩, fun _ _ => ⟨hin, hno'⟩, fun m hm => ?_⟩
  · dsimp only
    rw [List.length_append, List.length_singleton]
    exact hrest
  · have hnext := h.next hconn hans
    rw [hflight, List.length_cons] at hnext
    unfold inFlight
    dsimp only
    rw [hnext, List.length_append, List.length_singleton]
    congr 1
    omega
  · exact absurd (h.waiting hconn hans) hne
  · have hcount := h.logins_le
    unfold logins at hcount ⊢
    rw [hw, List.count_cons_of_ne (by simp)] at hcount
    exact hcount
  · exact absurd (h.response m hm).2.1 hne

/-- The exchange reads a login, or the next order. -/
theorem inv_exchangeReads (h : w.Inv) (accept : Bool) :
    (w.exchangeReads accept).Inv := by
  cases hw : w.toExchange with
  | nil =>
      unfold exchangeReads
      rw [hw]
      exact h
  | cons m rest =>
      cases m with
      | loginRequest => exact inv_login h hw accept
      | order n => exact inv_taken h hw accept
      | logoutRequest =>
          have hanswer : ∀ m ∈ w.answer [.logout],
              m ∈ w.toSession ∨ m = .logout := by
            intro m hm
            unfold answer at hm
            split at hm
            · exact (List.mem_append.mp hm).imp id List.mem_singleton.mp
            · exact .inl hm
          unfold exchangeReads
          rw [hw]
          refine h.frame ?_ ?_ rfl rfl ?_ ?_ fun hconn => ⟨hconn, rfl, rfl⟩
          · unfold inFlight
            rw [hw]
            rfl
          · intro hmem
            rw [hw]
            exact List.mem_cons_of_mem _ hmem
          · intro n hn
            rcases hanswer _ hn with hold | hnew
            · exact hold
            · cases hnew
          · unfold logins answer
            dsimp only
            rw [hw, List.count_cons_of_ne (by simp)]
            split
            · rw [List.countP_append]
              exact Nat.le_refl _
            · exact Nat.le_refl _

/-- The session takes the exchange's number over. -/
theorem inv_response {n : UInt32} {rest : List ToSession} (h : w.Inv)
    (hw : w.toSession = .loginResponse true n :: rest) :
    w.sessionReads.Inv := by
  obtain ⟨hn, hnone, hin, hno⟩ := h.response n (by rw [hw]; exact .head _)
  have hcount := h.logins_le
  unfold logins at hcount
  rw [hw, List.countP_cons_of_pos rfl] at hcount
  have hans : w.answered = false := by
    cases hb : w.answered with
    | false => rfl
    | true => rw [hb, Bool.toNat_true] at hcount; omega
  have hrest : rest.countP ToSession.isLoginResponse = 0 := by omega
  unfold sessionReads
  rw [hw]
  refine {
    received := h.received
    inFlight := h.inFlight
    next := fun _ _ => ?_
    waiting := fun _ _ => hnone
    logins_le := ?_
    loggedIn := h.loggedIn
    answered := fun _ _ => ⟨hin, hno⟩
    response := fun m hm => ?_ }
  · show n + 1 = UInt32.ofNat (w.received.length + w.inFlight.length + 1)
    rw [hn, hnone]
    exact ofNat_succ _
  · unfold logins
    dsimp only
    rw [Bool.or_true, Bool.toNat_true, hrest]
    rw [hans, Bool.toNat_false, hrest] at hcount
    omega
  · exact absurd rfl (List.countP_eq_zero.mp hrest _ hm)

/-- The session takes a number over only while no order is under way. -/
theorem inv_sessionReads (h : w.Inv) : w.sessionReads.Inv := by
  cases hw : w.toSession with
  | nil =>
      unfold sessionReads
      rw [hw]
      exact h
  | cons m rest =>
      have htail : ∀ n, ToSession.loginResponse true n ∈ rest →
          ToSession.loginResponse true n ∈ w.toSession := by
        intro n hn
        rw [hw]
        exact List.mem_cons_of_mem _ hn
      have hcount : rest.countP ToSession.isLoginResponse
          ≤ w.toSession.countP ToSession.isLoginResponse := by
        rw [hw]
        exact (List.sublist_cons_self m rest).countP_le
      cases m with
      | loginResponse accepted n =>
          cases accepted with
          | true => exact inv_response h hw
          | false =>
              unfold sessionReads
              rw [hw]
              refine h.frame rfl id rfl rfl htail ?_
                fun hconn => ⟨hconn, Bool.or_false _, rfl⟩
              unfold logins
              dsimp only
              rw [Bool.or_false]
              omega
      | replayComplete =>
          unfold sessionReads
          rw [hw]
          refine h.frame rfl id rfl rfl htail ?_ fun hconn => ⟨hconn, rfl, rfl⟩
          unfold logins
          dsimp only
          omega
      | logout =>
          unfold sessionReads
          rw [hw]
          refine h.frame rfl id rfl rfl htail ?_ fun hconn => by cases hconn
          unfold logins
          dsimp only
          omega

/-- A write keeps the numbers in order exactly if it is proper. -/
theorem numbered_write_iff (h : w.Inv) (whole : Bool) :
    (w.step (.write whole)).Numbered ↔ w.Proper (.write whole) := by
  unfold step Proper
  dsimp only
  by_cases hsend : w.sending = 0
  · rw [if_pos hsend]
    exact iff_of_true h.toNumbered fun hne => absurd hsend hne
  · rw [if_neg hsend]
    have hnot : ∀ n : Nat, UInt32.ofNat n + 1 ≠ UInt32.ofNat n := by
      intro n heq
      have hnat := congrArg UInt32.toNat heq
      have hlt := (UInt32.ofNat n).toNat_lt
      have hone : (1 : UInt32).toNat = 1 := rfl
      rw [UInt32.toNat_add, hone] at hnat
      omega
    cases hconn : w.connected with
    | false =>
        exact iff_of_true ⟨h.received, h.inFlight,
          fun hc => Bool.noConfusion hc, fun hc => Bool.noConfusion hc⟩
          fun _ hc => Bool.noConfusion hc
    | true =>
        rw [Bool.true_and]
        cases whole with
        | true =>
            have hflight : (w.toExchange
                ++ [ToExchange.order w.session.outboundSeqnum]).filterMap
                  ToExchange.orderNumber
                = w.inFlight ++ [w.session.outboundSeqnum] := by
              rw [List.filterMap_append]
              rfl
            rw [if_pos rfl]
            constructor
            · intro hnum _ _
              by_contra hans
              have hfalse : w.answered = false := by
                cases hb : w.answered with
                | false => rfl
                | true => exact absurd hb.symm hans
              have hnone := hnum.waiting rfl hfalse
              unfold inFlight at hnone
              dsimp only at hnone
              rw [hflight] at hnone
              cases (List.append_eq_nil_iff.mp hnone).2
            · intro hproper
              have hans : w.answered = true := (hproper hsend rfl).symm
              have hnext := h.next hconn hans
              refine ⟨h.received, ?_, fun _ _ => ?_, fun _ hans' => ?_⟩
              · unfold inFlight
                dsimp only
                rw [hflight, List.length_append, List.length_singleton,
                  numbersAfter_succ, ← h.inFlight, hnext]
              · unfold inFlight
                dsimp only
                rw [hflight, List.length_append, List.length_singleton]
                show w.session.outboundSeqnum + 1 = _
                rw [hnext, ofNat_succ]
                congr 1
              · exact absurd hans (Bool.eq_false_iff.mp hans')
        | false =>
            rw [if_neg Bool.false_ne_true]
            constructor
            · intro hnum _ _
              by_contra hans
              have htrue : w.answered = true := by
                cases hb : w.answered with
                | true => rfl
                | false => exact absurd hb.symm hans
              have hnext := h.next hconn htrue
              have hnext' : w.session.outboundSeqnum + 1 = _ :=
                hnum.next rfl htrue
              rw [hnext] at hnext'
              exact hnot _ hnext'
            · intro hproper
              have hans : w.answered = false := (hproper hsend rfl).symm
              exact ⟨h.received, h.inFlight,
                fun _ hans' => absurd (hans.symm.trans hans')
                  Bool.false_ne_true, fun _ => h.waiting hconn⟩

/-- A proper write takes the number after those that are under way. -/
theorem inv_write (h : w.Inv) {whole : Bool}
    (hproper : w.Proper (.write whole)) : (w.step (.write whole)).Inv := by
  have hnum := (numbered_write_iff h whole).mpr hproper
  unfold Proper at hproper
  unfold step at hnum ⊢
  dsimp only at hnum ⊢
  by_cases hsend : w.sending = 0
  · rw [if_pos hsend]
    exact h
  · rw [if_neg hsend] at hnum ⊢
    by_cases hout : (w.connected && whole) = true
    · obtain ⟨hconn, hwhole⟩ := (Bool.and_eq_true _ _).mp hout
      have hans : w.answered = true := (hproper hsend hconn).symm.trans hwhole
      obtain ⟨hin, hno⟩ := h.answered hconn hans
      have hno' : ToExchange.loginRequest
          ∉ w.toExchange ++ [.order w.session.outboundSeqnum] := by
        rw [List.mem_append, List.mem_singleton]
        rintro (hmem | heq)
        · exact hno hmem
        · cases heq
      rw [if_pos hout] at hnum ⊢
      refine ⟨hnum, ?_, fun _ => ⟨hin, hno'⟩, fun _ _ => ⟨hin, hno'⟩,
        fun n hn => ?_⟩
      · have hcount := h.logins_le
        unfold logins at hcount ⊢
        dsimp only
        rw [List.count_eq_zero.mpr hno']
        omega
      · have hcount := h.logins_le
        unfold logins at hcount
        rw [hans, Bool.toNat_true] at hcount
        have hzero : w.toSession.countP ToSession.isLoginResponse = 0 := by
          omega
        exact absurd rfl (List.countP_eq_zero.mp hzero _ hn)
    · rw [if_neg hout] at hnum ⊢
      exact ⟨hnum, h.logins_le, h.loggedIn, h.answered, h.response⟩

/-- Every other turn keeps the numbers in order. -/
theorem inv_step (h : w.Inv) (e : Turn) (hproper : w.Proper e) :
    (w.step e).Inv := by
  cases e with
  | connect => exact inv_connect h
  | exchange accept => exact inv_exchangeReads h accept
  | session => exact inv_sessionReads h
  | check =>
      unfold step
      dsimp only
      split
      · exact h.frame rfl id rfl rfl (fun _ => id) (Nat.le_refl _)
          fun hconn => ⟨hconn, rfl, rfl⟩
      · exact h
  | write whole => exact inv_write h hproper
  | cut =>
      exact h.frame rfl id rfl rfl (fun _ => id) (Nat.le_refl _)
        fun hconn => by cases hconn
  | noticed =>
      exact h.frame rfl id rfl rfl (fun _ => id) (Nat.le_refl _)
        fun hconn => by cases hconn
  | logout requested =>
      refine h.frame ?_ ?_ rfl rfl (fun _ => id) ?_ fun hconn => by cases hconn
      · unfold inFlight step
        dsimp only
        split
        · rw [List.filterMap_append]
          exact List.append_nil _
        · rfl
      · unfold step
        dsimp only
        split
        · intro hmem
          rcases List.mem_append.mp hmem with hold | hnew
          · exact hold
          · cases List.mem_singleton.mp hnew
        · exact id
      · unfold logins step
        dsimp only
        split
        · rw [List.count_append]
          exact Nat.le_refl _
        · exact Nat.le_refl _
  | requestLogout =>
      exact h.frame rfl id rfl rfl (fun _ => id) (Nat.le_refl _)
        fun hconn => ⟨hconn, rfl, rfl⟩
  | restart override =>
      refine h.frame rfl id rfl rfl (fun _ hn => by cases hn) ?_
        fun hconn => by cases hconn
      unfold logins step
      dsimp only
      rw [List.countP_nil, Bool.toNat_false]
      omega

-- ================================================================= replays

/-- A replay is complete only after a login is accepted: by now, or before
it in the messages. -/
def inOrder : Bool → List ToSession → Bool
  | _, [] => true
  | answered, .loginResponse accepted _ :: ms =>
      inOrder (answered || accepted) ms
  | answered, .replayComplete :: ms => answered && inOrder answered ms
  | answered, .logout :: ms => inOrder answered ms

/-- What comes in behind does not disturb the order. -/
theorem inOrder_append {ms : List ToSession}
    (hms : ∀ answered, inOrder answered ms = true) (xs : List ToSession) :
    ∀ answered, inOrder answered xs = true →
      inOrder answered (xs ++ ms) = true := by
  induction xs with
  | nil => exact fun answered _ => hms answered
  | cons x xs ih =>
      intro answered h
      cases x with
      | loginResponse accepted n => exact ih _ h
      | logout => exact ih _ h
      | replayComplete =>
          obtain ⟨hans, htail⟩ := (Bool.and_eq_true _ _).mp h
          exact (Bool.and_eq_true _ _).mpr ⟨hans, ih _ htail⟩

/-- `ACTIVE` on a connection, and a check made on it, say that its login is
answered. -/
structure Answered (w : Wire) : Prop where
  active : w.session.state = .active → w.connected = true → w.answered = true
  sending : w.sending ≠ 0 → w.connected = true → w.answered = true
  inOrder : inOrder w.answered w.toSession = true

/-- Before the first connection nothing is answered. -/
theorem answered_start : start.Answered where
  active h := by cases h
  sending h := absurd rfl h
  inOrder := rfl

/-- A turn on the same connection that brings in no messages and makes no
session `ACTIVE`. -/
theorem Answered.frame {w w' : Wire} (h : w.Answered)
    (hanswered : w'.answered = w.answered)
    (htoSession : w'.toSession = w.toSession)
    (hsending : w'.sending ≤ w.sending)
    (hopen : w'.connected = true → w.connected = true
      ∧ (w'.session.state = .active → w.session.state = .active)) :
    w'.Answered where
  active hact hconn := by
    obtain ⟨hconn', hstate⟩ := hopen hconn
    rw [hanswered]
    exact h.active (hstate hact) hconn'
  sending hsend hconn := by
    rw [hanswered]
    exact h.sending (by omega) (hopen hconn).1
  inOrder := by rw [hanswered, htoSession]; exact h.inOrder

/-- A response is put behind all that is on its way. -/
theorem answered_exchangeReads (h : w.Answered) (accept : Bool) :
    (w.exchangeReads accept).Answered := by
  have hanswer : ∀ ms, (∀ answered, inOrder answered ms = true) →
      inOrder w.answered (w.answer ms) = true := by
    intro ms hms
    unfold answer
    split
    · exact inOrder_append hms _ _ h.inOrder
    · exact h.inOrder
  unfold exchangeReads
  split
  · exact h
  · refine ⟨h.active, h.sending, hanswer _ fun answered => ?_⟩
    cases accept with
    | true =>
        show ((answered || true) && true) = true
        rw [Bool.or_true, Bool.and_true]
    | false => rfl
  · exact ⟨h.active, h.sending, hanswer _ fun _ => rfl⟩
  · exact ⟨h.active, h.sending, h.inOrder⟩

/-- `ACTIVE` comes from a message that stands behind the response. -/
theorem answered_sessionReads (h : w.Answered) : w.sessionReads.Answered := by
  have horder := h.inOrder
  unfold sessionReads
  split
  · exact h
  · next accepted n rest hw =>
      rw [hw] at horder
      refine ⟨fun hact _ => ?_, fun hsend hconn => ?_, horder⟩
      · cases accepted <;> cases hact
      · exact Bool.or_eq_true_iff.mpr (.inl (h.sending hsend hconn))
  · next rest hw =>
      rw [hw] at horder
      obtain ⟨hans, htail⟩ := (Bool.and_eq_true _ _).mp horder
      exact ⟨fun _ _ => hans, fun _ _ => hans, htail⟩
  · next rest hw =>
      rw [hw] at horder
      exact ⟨fun _ hconn => Bool.noConfusion hconn,
        fun _ hconn => Bool.noConfusion hconn, horder⟩

/-- The step lemma, for a turn in which no thread is late. -/
theorem answered_step (h : w.Answered) (e : Turn) (hsettled : w.Settled e) :
    (w.step e).Answered := by
  cases e with
  | connect =>
      obtain ⟨hstate, hsend⟩ := hsettled
      unfold step Line.onConnected
      dsimp only
      split
      · next session hsession =>
          split at hsession
          · cases hsession
            exact ⟨(fun hact _ => by cases hact),
              fun hne => absurd hsend hne, rfl⟩
          · cases hsession
      · exact ⟨fun hact => absurd hact hstate, fun hne => absurd hsend hne,
          rfl⟩
  | exchange accept => exact answered_exchangeReads h accept
  | session => exact answered_sessionReads h
  | check =>
      unfold step
      dsimp only
      split
      · next hact => exact ⟨h.active, fun _ => h.active hact, h.inOrder⟩
      · exact h
  | write whole =>
      unfold step
      dsimp only
      split
      · exact h
      · exact h.frame rfl rfl (Nat.sub_le _ _) fun hconn => ⟨hconn, id⟩
  | cut =>
      exact h.frame rfl rfl (Nat.le_refl _) fun hconn => by cases hconn
  | noticed =>
      exact h.frame rfl rfl (Nat.le_refl _) fun hconn => by cases hconn
  | logout requested =>
      exact h.frame rfl rfl (Nat.le_refl _) fun hconn => by cases hconn
  | requestLogout =>
      exact h.frame rfl rfl (Nat.le_refl _)
        fun hconn => ⟨hconn, fun hact => by cases hact⟩
  | restart override =>
      exact ⟨(fun hact => by cases hact), fun hne => absurd rfl hne, rfl⟩

/-- So no write of such a turn comes before the login is answered. -/
theorem proper_of_settled (h : w.Answered) (e : Turn)
    (hsettled : w.Settled e) : w.Proper e := by
  cases e with
  | write whole =>
      intro hsend hconn
      rw [hsettled hconn, h.sending hsend hconn]
  | _ => trivial

-- ==================================================================== runs

/-- The run lemma: the numbering goes wrong with the first improper write. -/
theorem Inv.numbered_iff (h : w.Inv) (es : List Turn) :
    Lib.Admits step (fun w e => (w.step e).Numbered) w es
      ↔ Lib.Admits step Proper w es := by
  refine Lib.admits_iff_of_step (I := Inv) (p := fun _ _ => True)
    (fun w e hw _ => ?_) (fun w e hw _ hproper => inv_step hw e hproper)
    h (Lib.Admits.trivial _ _)
  cases e with
  | write whole => exact numbered_write_iff hw whole
  | connect =>
      exact iff_of_true (inv_step hw .connect trivial).toNumbered trivial
  | exchange accept =>
      exact iff_of_true (inv_step hw (.exchange accept) trivial).toNumbered
        trivial
  | session =>
      exact iff_of_true (inv_step hw .session trivial).toNumbered trivial
  | check => exact iff_of_true (inv_step hw .check trivial).toNumbered trivial
  | cut => exact iff_of_true (inv_step hw .cut trivial).toNumbered trivial
  | noticed =>
      exact iff_of_true (inv_step hw .noticed trivial).toNumbered trivial
  | logout requested =>
      exact iff_of_true (inv_step hw (.logout requested) trivial).toNumbered
        trivial
  | requestLogout =>
      exact iff_of_true (inv_step hw .requestLogout trivial).toNumbered
        trivial
  | restart override =>
      exact iff_of_true (inv_step hw (.restart override) trivial).toNumbered
        trivial

end TradingEngine.OE.BOE20.Wire
