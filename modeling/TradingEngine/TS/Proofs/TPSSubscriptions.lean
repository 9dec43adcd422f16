/-
Subscriptions of clients that are gone.

A call is a run of steps (`call_eq_run`): a new client, one event of a
client, a disconnect, an update. `Sound` is asked after each of them, so
inside `handle_raw_bytes` too. A step that is not `Tidy` breaks it there and
then, in one of three ways:

- a client that is disconnected asks for an instrument, as the loop over its
  buffer goes on and its socket stays in the poller;
- a client that has instrument 0 is disconnected: the index 0 stands for an
  unknown instrument, and the client does not note it down;
- a write of market data fails: the disconnect needs the mutex for writing
  that the update holds for reading.

Along tidy steps a client has noted down all it is subscribed to (`Linked`),
and a disconnect removes what is noted down. So a run is sound throughout
exactly if it is tidy throughout (`sound_throughout_iff`).
-/
import TradingEngine.TS.Proofs.TPSCalls
import Mathlib.Data.List.Nodup
import Mathlib.Data.List.Perm.Basic

namespace TradingEngine.TS.TPS

open Lib (Admits run)

namespace TPSServer

-- =================================================================== removal

/-- Swapping with the last one and dropping it removes one entry of the
client. -/
theorem perm_removeFirst (v : List ClientID) (cid : ClientID) :
    (removeFirst v cid).Perm (v.erase cid) := by
  unfold removeFirst
  by_cases hmem : cid ∈ v
  · rw [if_pos hmem]
    obtain ⟨front, back, hfront, rfl, herase⟩ := List.exists_erase_eq hmem
    have hidx : (front ++ cid :: back).idxOf cid = front.length := by
      rw [List.idxOf_append, if_neg hfront]
      simp
    rw [herase, hidx]
    rcases back.eq_nil_or_concat' with rfl | ⟨mid, last, rfl⟩
    · simp
    · have happ : front ++ cid :: (mid ++ [last])
          = (front ++ cid :: mid) ++ [last] := by simp
      have hlast : (front ++ cid :: (mid ++ [last])).getLastD cid = last := by
        rw [happ, List.getLastD_concat]
      have hset : (front ++ cid :: (mid ++ [last])).set front.length last
          = (front ++ last :: mid) ++ [last] := by
        simp
      rw [hlast, hset, List.dropLast_concat]
      apply List.Perm.append_left
      exact (List.perm_append_singleton last mid).symm
  · rw [if_neg hmem, List.erase_of_not_mem hmem]

/-- A vector without duplicates stays without. -/
theorem nodup_removeFirst {v : List ClientID} (h : v.Nodup)
    (cid : ClientID) : (removeFirst v cid).Nodup :=
  (perm_removeFirst v cid).nodup_iff.mpr (h.erase cid)

/-- Without duplicates, only the client itself is gone. -/
theorem mem_removeFirst {v : List ClientID} (h : v.Nodup)
    {cid x : ClientID} : x ∈ removeFirst v cid ↔ x ≠ cid ∧ x ∈ v := by
  rw [(perm_removeFirst v cid).mem_iff, h.mem_erase_iff]

-- ================================================================= soundness

/-- Each client at most once for each instrument, and none that is
disconnected. -/
structure Sound (s : TPSServer) : Prop where
  nodup : ∀ esi, (s.instrumentClients esi).Nodup
  alive : ∀ esi, ∀ cid ∈ s.instrumentClients esi, ∀ c,
    s.clients[cid]? = some c → c.state ≠ .disconnected

/-- The steps that leave a sound server sound. -/
def Tidy (s : TPSServer) : Step → Prop
  | .event cid (.subscription flags fdoId) _ =>
      ∀ c, s.clients[cid]? = some c → c.state = .disconnected →
        flags &&& SubscriptionEventBuf.request = 0
          ∨ s.fdoidEsiMap fdoId = none
  | .event cid (.handshake _) wrote =>
      (∀ c, s.clients[cid]? = some c → c.fd ≠ none ∧ wrote = true)
        ∨ cid ∉ s.instrumentClients 0
  | .disconnect cid => cid ∉ s.instrumentClients 0
  | .update esi wrote => ∀ cid ∈ s.instrumentClients esi, wrote cid = true
  | _ => True

/-- What a client is subscribed to it has noted down, instrument 0 apart. -/
structure Linked (s : TPSServer) : Prop where
  members : ∀ esi, ∀ cid ∈ s.instrumentClients esi,
    ∃ c, s.clients[cid]? = some c ∧ (esi ≠ 0 → esi ∈ c.subscribedEsi)
  noZero : ∀ (cid : ClientID) (c : Client), s.clients[cid]? = some c →
    0 ∉ c.subscribedEsi
  closed : ∀ (cid : ClientID) (c : Client), s.clients[cid]? = some c →
    c.fd = none → c.state = .disconnected
  free : s.readLocked = false
  running : s.stuck = false

/-- With no clients there is nothing to be wrong. -/
theorem sound_init (fdoidEsiMap : UInt32 → Option EphemeralSymbolIndex) :
    Sound (init fdoidEsiMap) := by
  constructor <;> simp [init]

/-- With no clients nobody is subscribed. -/
theorem linked_init (fdoidEsiMap : UInt32 → Option EphemeralSymbolIndex) :
    Linked (init fdoidEsiMap) := by
  constructor <;> simp [init]

-- =================================================================== clients

/-- Only the client that is meant changes. -/
theorem getElem?_updateClient (s : TPSServer) (cid x : ClientID)
    (f : Client → Client) :
    (s.updateClient cid f).clients[x]?
      = if cid = x then s.clients[x]?.map f else s.clients[x]? := by
  unfold updateClient
  rw [List.getElem?_modify]
  by_cases h : cid = x
  · simp [h]
  · simp [h]

/-- The client itself. -/
theorem getElem?_updateClient_self {s : TPSServer} {cid : ClientID}
    {c : Client} (hc : s.clients[cid]? = some c) (f : Client → Client) :
    (s.updateClient cid f).clients[cid]? = some (f c) := by
  rw [getElem?_updateClient, if_pos rfl, hc]
  rfl

/-- A change that disconnects nobody and forgets no subscription. -/
structure Keeps (f : Client → Client) : Prop where
  state : ∀ c, c.state ≠ .disconnected → (f c).state ≠ .disconnected
  subscribed : ∀ c, (f c).subscribedEsi = c.subscribedEsi

/-- A change that keeps a client's state and subscriptions keeps the server
sound. -/
theorem sound_updateClient {s : TPSServer} (h : Sound s) (cid : ClientID)
    {f : Client → Client} (hf : Keeps f) : Sound (s.updateClient cid f) := by
  refine ⟨h.nodup, ?_⟩
  intro esi x hx c hc
  rw [getElem?_updateClient] at hc
  by_cases hcid : cid = x
  · rw [if_pos hcid, Option.map_eq_some_iff] at hc
    obtain ⟨d, hd, rfl⟩ := hc
    exact hf.state d (h.alive esi x hx d hd)
  · rw [if_neg hcid] at hc
    exact h.alive esi x hx c hc

/-- The same for what is noted down; a socket is only taken away along with
the connection. -/
theorem linked_updateClient {s : TPSServer} (h : Linked s) (cid : ClientID)
    {f : Client → Client} (hf : Keeps f)
    (hclosed : ∀ c, s.clients[cid]? = some c → (f c).fd = none →
      (f c).state = .disconnected) : Linked (s.updateClient cid f) := by
  refine ⟨?_, ?_, ?_, h.free, h.running⟩
  · intro esi x hx
    obtain ⟨c, hc, hesi⟩ := h.members esi x hx
    rw [getElem?_updateClient, hc]
    by_cases hcid : cid = x
    · exact ⟨f c, by simp [hcid], by rw [hf.subscribed]; exact hesi⟩
    · exact ⟨c, by simp [hcid], hesi⟩
  · intro x c hc
    rw [getElem?_updateClient] at hc
    split at hc
    · obtain ⟨d, hd, rfl⟩ := Option.map_eq_some_iff.mp hc
      rw [hf.subscribed]
      exact h.noZero x d hd
    · exact h.noZero x c hc
  · intro x c hc hfd
    rw [getElem?_updateClient] at hc
    by_cases hcid : cid = x
    · subst hcid
      rw [if_pos rfl, Option.map_eq_some_iff] at hc
      obtain ⟨d, hd, rfl⟩ := hc
      exact hclosed d hd hfd
    · rw [if_neg hcid] at hc
      exact h.closed x c hc hfd

-- ================================================================ disconnect

/-- What `disconnect` makes of a client. -/
def gone (c : Client) : Client :=
  { c with state := .disconnected, fd := none }

/-- The loop of `disconnect` removes the client from what is noted down,
and touches nothing else. -/
structure Removes (cid : ClientID) (es : List EphemeralSymbolIndex)
    (s s' : TPSServer) : Prop where
  clients : s'.clients = s.clients
  free : s'.readLocked = false
  running : s'.stuck = s.stuck
  nodup : ∀ esi, (s'.instrumentClients esi).Nodup
  mem : ∀ esi x, x ∈ s'.instrumentClients esi
    ↔ x ∈ s.instrumentClients esi ∧ ¬(x = cid ∧ esi ∈ es)

/-- The loop of `disconnect`, one instrument after the other. -/
theorem removes_foldl {s : TPSServer} (cid : ClientID)
    (es : List EphemeralSymbolIndex) (hfree : s.readLocked = false)
    (hnodup : ∀ esi, (s.instrumentClients esi).Nodup) :
    Removes cid es s
      (es.foldl (fun s e => s.removeSubscription cid e) s) := by
  induction es generalizing s with
  | nil => exact ⟨rfl, hfree, rfl, hnodup, by simp⟩
  | cons e es ih =>
      have hremove : s.removeSubscription cid e
          = s.updateInstrument e
            (removeFirst (s.instrumentClients e) cid) := by
        unfold removeSubscription
        rw [hfree]
        rfl
      have hat (esi : EphemeralSymbolIndex) :
          (s.removeSubscription cid e).instrumentClients esi
            = if esi = e then removeFirst (s.instrumentClients e) cid
              else s.instrumentClients esi := by
        rw [hremove]
        rfl
      have hnext : ∀ esi,
          ((s.removeSubscription cid e).instrumentClients esi).Nodup := by
        intro esi
        rw [hat]
        split
        · exact nodup_removeFirst (hnodup e) cid
        · exact hnodup esi
      have hrest := ih (s := s.removeSubscription cid e)
        (by rw [hremove]; exact hfree) hnext
      rw [List.foldl_cons]
      refine ⟨?_, hrest.free, ?_, hrest.nodup, ?_⟩
      · rw [hrest.clients, hremove]
        rfl
      · rw [hrest.running, hremove]
        rfl
      · intro esi x
        rw [hrest.mem, hat]
        by_cases hesi : esi = e
        · subst hesi
          rw [if_pos rfl, mem_removeFirst (hnodup esi)]
          simp
          tauto
        · rw [if_neg hesi]
          simp [hesi]

/-- A disconnect as a whole: the client is gone, and is taken out of what it
has noted down. -/
theorem removes_disconnect {s : TPSServer} (hs : Sound s)
    (hfree : s.readLocked = false) {cid : ClientID} {c : Client}
    (hc : s.clients[cid]? = some c) :
    Removes cid c.subscribedEsi (s.updateClient cid gone)
      (s.disconnect cid) := by
  unfold disconnect
  rw [hc]
  exact removes_foldl cid c.subscribedEsi hfree hs.nodup

/-- Without the client a disconnect does nothing. -/
theorem disconnect_none {s : TPSServer} {cid : ClientID}
    (h : s.clients[cid]? = none) : s.disconnect cid = s := by
  unfold disconnect
  rw [h]

section Disconnect

variable {s : TPSServer} (hl : Linked s) (hs : Sound s) (cid : ClientID)

include hl hs

/-- What is left behind by a disconnect is instrument 0, which is never noted
down. -/
theorem sound_disconnect_iff :
    Sound (s.disconnect cid) ↔ cid ∉ s.instrumentClients 0 := by
  cases hc : s.clients[cid]? with
  | none =>
      rw [disconnect_none hc]
      constructor
      · intro _ hzero
        obtain ⟨c, hc', -⟩ := hl.members 0 cid hzero
        rw [hc] at hc'
        cases hc'
      · exact fun _ => hs
  | some c =>
      have hr := removes_disconnect hs hl.free hc
      have hgone : (s.disconnect cid).clients[cid]? = some (gone c) := by
        rw [hr.clients]
        exact getElem?_updateClient_self hc gone
      constructor
      · intro h hzero
        have hstay : cid ∈ (s.disconnect cid).instrumentClients 0 :=
          (hr.mem 0 cid).mpr ⟨hzero, fun hx => hl.noZero cid c hc hx.2⟩
        exact h.alive 0 cid hstay (gone c) hgone rfl
      · intro hzero
        refine ⟨hr.nodup, ?_⟩
        intro esi x hx d hd
        obtain ⟨hmem, hnot⟩ := (hr.mem esi x).mp hx
        by_cases hcid : cid = x
        · subst hcid
          obtain ⟨c', hc', hesi⟩ := hl.members esi cid hmem
          rw [hc, Option.some.injEq] at hc'
          subst hc'
          have hpos : esi ≠ 0 := by
            rintro rfl
            exact hzero hmem
          exact absurd ⟨rfl, hesi hpos⟩ hnot
        · rw [hr.clients, getElem?_updateClient, if_neg hcid] at hd
          exact hs.alive esi x hmem d hd

/-- Who remains subscribed has it noted down as before. -/
theorem linked_disconnect : Linked (s.disconnect cid) := by
  cases hc : s.clients[cid]? with
  | none =>
      rw [disconnect_none hc]
      exact hl
  | some c =>
      have hr := removes_disconnect hs hl.free hc
      have hat (x : ClientID) : (s.disconnect cid).clients[x]?
          = if cid = x then s.clients[x]?.map gone else s.clients[x]? := by
        rw [hr.clients, getElem?_updateClient]
      refine ⟨?_, ?_, ?_, hr.free, hr.running.trans hl.running⟩
      · intro esi x hx
        obtain ⟨d, hd, hesi⟩ := hl.members esi x ((hr.mem esi x).mp hx).1
        rw [hat, hd]
        by_cases hcid : cid = x
        · exact ⟨gone d, by simp [hcid], hesi⟩
        · exact ⟨d, by simp [hcid], hesi⟩
      · intro x d hd
        rw [hat] at hd
        split at hd
        · obtain ⟨d', hd', rfl⟩ := Option.map_eq_some_iff.mp hd
          exact hl.noZero x d' hd'
        · exact hl.noZero x d hd
      · intro x d hd hfd
        rw [hat] at hd
        split at hd
        · obtain ⟨d', hd', rfl⟩ := Option.map_eq_some_iff.mp hd
          rfl
        · exact hl.closed x d hd hfd

end Disconnect

-- ================================================================= handshake

/-- What a handshake makes of a client. -/
def answered (version : DataBuffer) (c : Client) : Client :=
  if version = expectedVersionString then { c with state := .handshakeOk }
  else { c with state := .handshakeDenied }

/-- An answered handshake disconnects nobody, also when it is denied. -/
theorem answered_state (version : DataBuffer) (c : Client) :
    (answered version c).state ≠ .disconnected := by
  unfold answered
  split <;> simp

/-- The socket stays. -/
theorem answered_fd (version : DataBuffer) (c : Client) :
    (answered version c).fd = c.fd := by
  unfold answered
  split <;> rfl

/-- So it is a change that keeps the server sound. -/
theorem keeps_answered (version : DataBuffer) : Keeps (answered version) := by
  refine ⟨fun c _ => answered_state version c, ?_⟩
  intro c
  unfold answered
  split <;> rfl

/-- The answer is lost on a client that is disconnected then. -/
theorem disconnect_answered {s : TPSServer} {cid : ClientID} {c : Client}
    (hc : s.clients[cid]? = some c) (version : DataBuffer) :
    (s.updateClient cid (answered version)).disconnect cid
      = s.disconnect cid := by
  have hsame : gone ∘ answered version = gone := by
    funext c
    unfold Function.comp gone answered
    split <;> rfl
  have htwice : (s.updateClient cid (answered version)).updateClient cid gone
      = s.updateClient cid gone := by
    unfold updateClient
    dsimp only
    rw [List.modify_modify_eq, hsame]
  have hans := getElem?_updateClient_self hc (answered version)
  unfold disconnect
  rw [hans, hc]
  dsimp only
  rw [(keeps_answered version).subscribed c]
  exact congrArg
    (fun t => c.subscribedEsi.foldl (fun s e => s.removeSubscription cid e) t)
    htwice

/-- A handshake is answered, or the client disconnected if the answer cannot
be written. -/
theorem handleHandshakeEvent_eq {s : TPSServer} {cid : ClientID} {c : Client}
    (hc : s.clients[cid]? = some c) (version : DataBuffer) (wrote : Bool) :
    s.handleHandshakeEvent cid version wrote
      = if c.fd ≠ none ∧ wrote = true then
          s.updateClient cid (answered version)
        else s.disconnect cid := by
  have hans := getElem?_updateClient_self hc (answered version)
  have hrw : s.handleHandshakeEvent cid version wrote
      = (s.updateClient cid (answered version)).sendOrDisconnect cid wrote :=
    rfl
  rw [hrw]
  unfold sendOrDisconnect
  rw [hans, ← disconnect_answered hc version]
  dsimp only
  rw [answered_fd]
  cases c.fd <;> simp

-- ============================================================== subscription

/-- A subscription is recorded: what is added where. -/
def subscribed (s : TPSServer) (cid : ClientID) (esi : EphemeralSymbolIndex) :
    TPSServer :=
  let t := s.updateInstrument esi (s.instrumentClients esi ++ [cid])
  if esi ≠ 0 then
    t.updateClient cid fun c =>
      { c with subscribedEsi := c.subscribedEsi ++ [esi] }
  else t

/-- A request is recorded if it is one, for an instrument that is known and
that the client does not have. -/
theorem handleSubscriptionEvent_cases (s : TPSServer) (cid : ClientID)
    (flags fdoId : UInt32) :
    (flags &&& SubscriptionEventBuf.request = 0
        ∨ s.fdoidEsiMap fdoId = none
        ∨ ∃ esi, s.fdoidEsiMap fdoId = some esi
          ∧ cid ∈ s.instrumentClients esi)
      ∧ s.handleSubscriptionEvent cid flags fdoId = s
    ∨ ∃ esi, flags &&& SubscriptionEventBuf.request ≠ 0
      ∧ s.fdoidEsiMap fdoId = some esi ∧ cid ∉ s.instrumentClients esi
      ∧ s.handleSubscriptionEvent cid flags fdoId = s.subscribed cid esi := by
  unfold handleSubscriptionEvent isSubscribed addSubscription
  by_cases hflags : flags &&& SubscriptionEventBuf.request = 0
  · exact .inl ⟨.inl hflags, if_pos hflags⟩
  · rw [if_neg hflags]
    cases hmap : s.fdoidEsiMap fdoId with
    | none => exact .inl ⟨.inr (.inl rfl), rfl⟩
    | some esi =>
        by_cases hmem : cid ∈ s.instrumentClients esi
        · refine .inl ⟨.inr (.inr ⟨esi, rfl, hmem⟩), ?_⟩
          simp [hmem]
        · refine .inr ⟨esi, hflags, rfl, hmem, ?_⟩
          simp [hmem, subscribed]

/-- A subscription puts the client at the end of one vector. -/
theorem instrumentClients_subscribed (s : TPSServer) (cid : ClientID)
    (esi e : EphemeralSymbolIndex) :
    (s.subscribed cid esi).instrumentClients e
      = if e = esi then s.instrumentClients esi ++ [cid]
        else s.instrumentClients e := by
  unfold subscribed
  dsimp only
  split <;> rfl

/-- And notes it down with the client, but for instrument 0. -/
theorem getElem?_subscribed (s : TPSServer) (cid x : ClientID)
    (esi : EphemeralSymbolIndex) :
    (s.subscribed cid esi).clients[x]?
      = if cid = x ∧ esi ≠ 0 then
          s.clients[x]?.map fun c =>
            { c with subscribedEsi := c.subscribedEsi ++ [esi] }
        else s.clients[x]? := by
  unfold subscribed
  dsimp only
  by_cases hesi : esi ≠ 0
  · rw [if_pos hesi, getElem?_updateClient]
    simp [hesi, updateInstrument]
  · rw [if_neg hesi, if_neg fun h => hesi h.2]
    rfl

/-- Only what is noted down changes. -/
theorem exists_of_subscribed {s : TPSServer} {cid x : ClientID}
    {esi : EphemeralSymbolIndex} {d : Client}
    (hd : (s.subscribed cid esi).clients[x]? = some d) :
    ∃ c, s.clients[x]? = some c ∧ d.state = c.state ∧ d.fd = c.fd
      ∧ (0 ∉ c.subscribedEsi → 0 ∉ d.subscribedEsi) := by
  rw [getElem?_subscribed] at hd
  split at hd
  case isTrue h =>
    obtain ⟨c, hc, rfl⟩ := Option.map_eq_some_iff.mp hd
    refine ⟨c, hc, rfl, rfl, ?_⟩
    intro hzero
    simp [hzero, h.2.symm]
  case isFalse => exact ⟨d, hd, rfl, rfl, id⟩

/-- The first slip: a client that is gone already can still subscribe, and is
then told of updates. -/
theorem sound_subscribed_iff {s : TPSServer} (hs : Sound s) {cid : ClientID}
    {c : Client} (hc : s.clients[cid]? = some c)
    {esi : EphemeralSymbolIndex} (hmem : cid ∉ s.instrumentClients esi) :
    Sound (s.subscribed cid esi) ↔ c.state ≠ .disconnected := by
  constructor
  · intro h hgone
    obtain ⟨d, hd⟩ : ∃ d, (s.subscribed cid esi).clients[cid]? = some d := by
      rw [getElem?_subscribed, hc]
      split
      · exact ⟨_, rfl⟩
      · exact ⟨c, rfl⟩
    obtain ⟨c', hc', hstate, -⟩ := exists_of_subscribed hd
    rw [hc, Option.some.injEq] at hc'
    subst hc'
    refine h.alive esi cid ?_ d hd (hstate.trans hgone)
    rw [instrumentClients_subscribed, if_pos rfl]
    simp
  · intro halive
    constructor
    · intro e
      rw [instrumentClients_subscribed]
      split
      · rw [List.nodup_append]
        refine ⟨hs.nodup esi, List.nodup_singleton cid, ?_⟩
        rintro x hx y hy rfl
        rw [List.mem_singleton] at hy
        subst hy
        exact hmem hx
      · exact hs.nodup e
    · intro e x hx d hd
      obtain ⟨c', hc', hstate, -⟩ := exists_of_subscribed hd
      rw [hstate]
      rw [instrumentClients_subscribed] at hx
      by_cases hcid : x = cid
      · subst hcid
        rw [hc, Option.some.injEq] at hc'
        subst hc'
        exact halive
      · split at hx
        · have hold : x ∈ s.instrumentClients esi := by simpa [hcid] using hx
          exact hs.alive esi x hold c' hc'
        · exact hs.alive e x hx c' hc'

/-- A subscription and its note are made together. -/
theorem linked_subscribed {s : TPSServer} (hl : Linked s) {cid : ClientID}
    {c : Client} (hc : s.clients[cid]? = some c)
    (esi : EphemeralSymbolIndex) : Linked (s.subscribed cid esi) := by
  refine ⟨?_, ?_, ?_, ?_, ?_⟩
  · intro e x hx
    rw [instrumentClients_subscribed] at hx
    have hold : e = esi ∧ x = cid ∨ x ∈ s.instrumentClients e := by
      split at hx
      case isTrue h =>
        subst h
        rcases List.mem_append.mp hx with hx | hx
        · exact .inr hx
        · exact .inl ⟨rfl, List.mem_singleton.mp hx⟩
      case isFalse => exact .inr hx
    rw [getElem?_subscribed]
    rcases hold with ⟨rfl, rfl⟩ | hold
    · by_cases hesi : e ≠ 0
      · rw [if_pos ⟨rfl, hesi⟩, hc]
        exact ⟨_, rfl, fun _ => by simp⟩
      · rw [if_neg fun h => hesi h.2]
        exact ⟨c, hc, fun h => absurd h hesi⟩
    · obtain ⟨d, hd, he⟩ := hl.members e x hold
      split
      · rw [hd]
        exact ⟨_, rfl, fun h => List.mem_append_left _ (he h)⟩
      · exact ⟨d, hd, he⟩
  · intro x d hd
    obtain ⟨c', hc', -, -, hzero⟩ := exists_of_subscribed hd
    exact hzero (hl.noZero x c' hc')
  · intro x d hd hfd
    obtain ⟨c', hc', hstate, hfd', -⟩ := exists_of_subscribed hd
    rw [hstate]
    exact hl.closed x c' hc' (hfd'.symm.trans hfd)
  · have hfree := hl.free
    unfold subscribed updateClient updateInstrument
    dsimp only
    split <;> exact hfree
  · have hrunning := hl.running
    unfold subscribed updateClient updateInstrument
    dsimp only
    split <;> exact hrunning

-- =================================================================== updates

/-- A client that is there, and disconnected. -/
def Dead (s : TPSServer) (cid : ClientID) : Prop :=
  ∃ c, s.clients[cid]? = some c ∧ c.state = .disconnected

/-- While the mutex is held for reading: nobody is removed, and nobody comes
back. -/
structure Frozen (s s' : TPSServer) : Prop where
  instruments : s'.instrumentClients = s.instrumentClients
  locked : s'.readLocked = true
  dead : ∀ cid, Dead s cid → Dead s' cid

/-- Over several steps. -/
theorem Frozen.trans {s t u : TPSServer} (h : Frozen s t) (h' : Frozen t u) :
    Frozen s u :=
  ⟨h'.instruments.trans h.instruments, h'.locked,
    fun cid hdead => h'.dead cid (h.dead cid hdead)⟩

/-- A disconnect with the mutex held: only the client is changed, and the
server may be stuck. -/
theorem foldl_locked {s : TPSServer} (cid : ClientID)
    (es : List EphemeralSymbolIndex) (h : s.readLocked = true) :
    ∃ stuck, es.foldl (fun s e => s.removeSubscription cid e) s
      = { s with stuck := stuck } := by
  induction es generalizing s with
  | nil => exact ⟨s.stuck, rfl⟩
  | cons e es ih =>
      have hremove : s.removeSubscription cid e
          = { s with stuck := true } := by
        unfold removeSubscription
        rw [h]
        rfl
      rw [List.foldl_cons, hremove]
      exact ih h

/-- A disconnect under the read lock closes the socket and gets stuck before
it removes a subscription. -/
theorem disconnect_locked {s : TPSServer} (h : s.readLocked = true)
    {cid : ClientID} {c : Client} (hc : s.clients[cid]? = some c) :
    Frozen s (s.disconnect cid) ∧ Dead (s.disconnect cid) cid := by
  obtain ⟨stuck, hfold⟩ :=
    foldl_locked (s := s.updateClient cid gone) cid c.subscribedEsi h
  have heq : s.disconnect cid
      = { s.updateClient cid gone with stuck := stuck } := by
    unfold disconnect
    rw [hc]
    exact hfold
  have hat (x : ClientID) : (s.disconnect cid).clients[x]?
      = if cid = x then s.clients[x]?.map gone else s.clients[x]? := by
    rw [heq]
    exact getElem?_updateClient s cid x gone
  constructor
  · refine ⟨by rw [heq]; rfl, by rw [heq]; exact h, ?_⟩
    rintro x ⟨d, hd, hstate⟩
    unfold Dead
    rw [hat, hd]
    by_cases hcid : cid = x
    · exact ⟨gone d, by simp [hcid], rfl⟩
    · exact ⟨d, by simp [hcid], hstate⟩
  · unfold Dead
    rw [hat, hc]
    exact ⟨gone c, by simp, rfl⟩

/-- Nothing happens. -/
theorem frozen_refl {s : TPSServer} (h : s.readLocked = true) : Frozen s s :=
  ⟨rfl, h, fun _ hdead => hdead⟩

/-- One write of an update, whether or not it goes through. -/
theorem frozen_sendOrDisconnect {s : TPSServer} (h : s.readLocked = true)
    (cid : ClientID) (wrote : Bool) :
    Frozen s (s.sendOrDisconnect cid wrote) := by
  unfold sendOrDisconnect
  cases hc : s.clients[cid]? with
  | none => exact frozen_refl h
  | some c =>
      dsimp only
      split
      · exact frozen_refl h
      · exact (disconnect_locked h hc).1

/-- The loop over the subscribed clients. -/
theorem frozen_writeToClients (wrote : ClientID → Bool)
    (cids : List ClientID) {s : TPSServer} (h : s.readLocked = true) :
    Frozen s (writeToClients wrote cids s) := by
  induction cids generalizing s with
  | nil => exact frozen_refl h
  | cons cid cids ih =>
      have hsend := frozen_sendOrDisconnect h cid (wrote cid)
      unfold writeToClients
      dsimp only
      split
      · exact hsend
      · exact hsend.trans (ih hsend.locked)

/-- Every write to an open client succeeds. -/
theorem writeToClients_of_wrote {wrote : ClientID → Bool}
    {cids : List ClientID} {s : TPSServer} (hrunning : s.stuck = false)
    (h : ∀ cid ∈ cids, wrote cid = true ∧ ∃ c, s.clients[cid]? = some c
      ∧ c.fd ≠ none) : writeToClients wrote cids s = s := by
  induction cids with
  | nil => rfl
  | cons cid cids ih =>
      obtain ⟨hwrote, c, hc, hfd⟩ := h cid List.mem_cons_self
      have hsend : s.sendOrDisconnect cid (wrote cid) = s := by
        unfold sendOrDisconnect
        rw [hc]
        dsimp only
        rw [if_pos ⟨Option.isSome_iff_ne_none.mpr hfd, hwrote⟩]
      unfold writeToClients
      dsimp only
      rw [hsend, hrunning]
      exact ih fun x hx => h x (List.mem_cons_of_mem cid hx)

/-- The first write that fails disconnects somebody. -/
theorem exists_dead_writeToClients {wrote : ClientID → Bool}
    {cids : List ClientID} {s : TPSServer} (hlocked : s.readLocked = true)
    (hrunning : s.stuck = false)
    (hclients : ∀ cid ∈ cids, ∃ c, s.clients[cid]? = some c)
    (h : ∃ cid ∈ cids, wrote cid = false) :
    ∃ cid ∈ cids, Dead (writeToClients wrote cids s) cid := by
  induction cids with
  | nil =>
      obtain ⟨cid, hcid, -⟩ := h
      cases hcid
  | cons cid cids ih =>
      obtain ⟨c, hc⟩ := hclients cid List.mem_cons_self
      have hsend : s.sendOrDisconnect cid (wrote cid)
          = if c.fd.isSome = true ∧ wrote cid = true then s
            else s.disconnect cid := by
        unfold sendOrDisconnect
        rw [hc]
      unfold writeToClients
      dsimp only
      rw [hsend]
      by_cases hok : c.fd.isSome = true ∧ wrote cid = true
      · rw [if_pos hok, hrunning]
        have hrest : ∃ x ∈ cids, wrote x = false := by
          obtain ⟨x, hx, hfailed⟩ := h
          rcases List.mem_cons.mp hx with rfl | hx
          · rw [hok.2] at hfailed
            cases hfailed
          · exact ⟨x, hx, hfailed⟩
        obtain ⟨x, hx, hdead⟩ := ih
          (fun x hx => hclients x (List.mem_cons_of_mem cid hx)) hrest
        exact ⟨x, List.mem_cons_of_mem cid hx, hdead⟩
      · obtain ⟨hfrozen, hdead⟩ := disconnect_locked hlocked hc
        rw [if_neg hok]
        refine ⟨cid, List.mem_cons_self, ?_⟩
        split
        · exact hdead
        · exact (frozen_writeToClients wrote cids hfrozen.locked).dead
            cid hdead

/-- The mutex is free again. -/
theorem unlock_eq {s : TPSServer} (h : s.readLocked = false) :
    { s with readLocked := false } = s := by
  cases s with
  | mk clients instrumentClients fdoidEsiMap readLocked stuck =>
      dsimp only at h
      rw [h]

section Update

variable {s : TPSServer} (hl : Linked s) (hs : Sound s)
  (esi : EphemeralSymbolIndex) (wrote : ClientID → Bool)

include hl hs

/-- An update that reaches everybody changes nothing. -/
theorem onUpdate_of_wrote
    (h : ∀ cid ∈ s.instrumentClients esi, wrote cid = true) :
    s.onUpdate esi wrote = s := by
  have hwrite : writeToClients wrote (s.instrumentClients esi)
      { s with readLocked := true } = { s with readLocked := true } := by
    have hrunning : TPSServer.stuck { s with readLocked := true } = false :=
      hl.running
    apply writeToClients_of_wrote hrunning
    intro cid hcid
    obtain ⟨c, hc, -⟩ := hl.members esi cid hcid
    refine ⟨h cid hcid, c, hc, ?_⟩
    intro hfd
    exact hs.alive esi cid hcid c hc (hl.closed cid c hc hfd)
  unfold onUpdate
  dsimp only
  rw [hwrite]
  dsimp only
  rw [if_neg (Bool.eq_false_iff.mp hl.running)]
  exact unlock_eq hl.free

/-- The third slip: a client that cannot be written to stays subscribed. -/
theorem sound_onUpdate_iff :
    Sound (s.onUpdate esi wrote)
      ↔ ∀ cid ∈ s.instrumentClients esi, wrote cid = true := by
  constructor
  · intro h cid hcid
    cases hwrote : wrote cid with
    | true => rfl
    | false =>
        exfalso
        have hlocked : TPSServer.readLocked { s with readLocked := true }
            = true := rfl
        obtain ⟨x, hx, c, hc, hstate⟩ := exists_dead_writeToClients hlocked
          hl.running
          (fun x hx => (hl.members esi x hx).imp fun c hc => hc.1)
          ⟨cid, hcid, hwrote⟩
        have hfrozen := frozen_writeToClients wrote (s.instrumentClients esi)
          hlocked
        have hsame : (s.onUpdate esi wrote).instrumentClients
            = s.instrumentClients := by
          unfold onUpdate
          dsimp only
          split <;> exact hfrozen.instruments
        have hat : (s.onUpdate esi wrote).clients[x]? = some c := by
          unfold onUpdate
          dsimp only
          split <;> exact hc
        rw [← hsame] at hx
        exact h.alive esi x hx c hat hstate
  · intro h
    rw [onUpdate_of_wrote hl hs esi wrote h]
    exact hs

end Update

-- ====================================================================== runs

/-- Bytes that are kept for later change no subscription. -/
theorem keeps_danglyBytes (bytes : DataBuffer) :
    Keeps fun c => { c with danglyBytes := bytes } :=
  ⟨fun _ h => h, fun _ => rfl⟩

/-- A new client has the next id. -/
theorem getElem?_onNewClient (s : TPSServer) (fd : Nat) (x : ClientID) :
    (s.onNewClient fd).clients[x]?
      = if x = s.clients.length then some (Client.init fd)
        else s.clients[x]? := by
  unfold onNewClient
  dsimp only
  split
  case isTrue h => simp [h]
  case isFalse h =>
    rcases Nat.lt_or_gt_of_ne h with hlt | hgt
    · rw [List.getElem?_append_left hlt]
    · have hlen : (s.clients ++ [Client.init fd]).length ≤ x := by
        rw [List.length_append]
        exact hgt
      rw [List.getElem?_eq_none hlen,
        List.getElem?_eq_none (Nat.le_of_lt hgt)]

section Step

variable {s : TPSServer} (hl : Linked s) (hs : Sound s)

include hs in
/-- It is subscribed to nothing, so the server stays sound. -/
theorem sound_onNewClient (fd : Nat) : Sound (s.onNewClient fd) := by
  refine ⟨hs.nodup, ?_⟩
  intro esi cid hcid c hc
  rw [getElem?_onNewClient] at hc
  split at hc
  · cases hc
    simp [Client.init]
  · exact hs.alive esi cid hcid c hc

include hl in
/-- And nobody was subscribed under its id. -/
theorem linked_onNewClient (fd : Nat) : Linked (s.onNewClient fd) := by
  refine ⟨?_, ?_, ?_, hl.free, hl.running⟩
  · intro esi cid hcid
    obtain ⟨c, hc, hesi⟩ := hl.members esi cid hcid
    have hlt := (List.getElem?_eq_some_iff.mp hc).1
    refine ⟨c, ?_, hesi⟩
    rw [getElem?_onNewClient, if_neg (Nat.ne_of_lt hlt)]
    exact hc
  · intro cid c hc
    rw [getElem?_onNewClient] at hc
    split at hc
    · cases hc
      simp [Client.init]
    · exact hl.noZero cid c hc
  · intro cid c hc hfd
    rw [getElem?_onNewClient] at hc
    split at hc
    · cases hc
      cases hfd
    · exact hl.closed cid c hc hfd

include hl hs

/-- The step lemma for events: sound again exactly if the event is tidy. -/
theorem sound_event_iff (cid : ClientID) (e : ClientEvent) (wrote : Bool) :
    Sound (s.handleEvent cid e wrote) ↔ Tidy s (.event cid e wrote) := by
  unfold handleEvent
  by_cases hcid : cid < s.clients.length
  · obtain ⟨c, hc⟩ : ∃ c, s.clients[cid]? = some c :=
      ⟨_, List.getElem?_eq_getElem hcid⟩
    rw [if_pos hcid]
    cases e with
    | handshake version =>
        dsimp only [Tidy]
        rw [handleHandshakeEvent_eq hc, hc]
        by_cases hok : c.fd ≠ none ∧ wrote = true
        · rw [if_pos hok]
          have hsound := sound_updateClient hs cid (keeps_answered version)
          simp [hsound, hok]
        · rw [if_neg hok, sound_disconnect_iff hl hs]
          simp [hok]
    | subscription flags fdoId =>
        dsimp only [Tidy]
        rcases handleSubscriptionEvent_cases s cid flags fdoId with
          ⟨hold, heq⟩ | ⟨esi, hflags, hmap, hmem, heq⟩
        · rw [heq]
          refine iff_of_true hs ?_
          intro d hd hgone
          rcases hold with hflags | hmap | ⟨esi, -, hmem⟩
          · exact .inl hflags
          · exact .inr hmap
          · exact absurd hgone (hs.alive esi cid hmem d hd)
        · rw [heq, sound_subscribed_iff hs hc hmem, hc]
          simp [hflags, hmap]
    | snapshotRequest => exact iff_of_true hs True.intro
  · have hnone : s.clients[cid]? = none :=
      List.getElem?_eq_none (Nat.le_of_not_lt hcid)
    rw [if_neg hcid]
    refine iff_of_true hs ?_
    cases e with
    | handshake version =>
        left
        rw [hnone]
        simp
    | subscription flags fdoId =>
        intro c hc
        rw [hnone] at hc
        cases hc
    | snapshotRequest => exact True.intro

/-- An event keeps subscriptions and notes together, tidy or not. -/
theorem linked_event (cid : ClientID) (e : ClientEvent) (wrote : Bool) :
    Linked (s.handleEvent cid e wrote) := by
  unfold handleEvent
  by_cases hcid : cid < s.clients.length
  · obtain ⟨c, hc⟩ : ∃ c, s.clients[cid]? = some c :=
      ⟨_, List.getElem?_eq_getElem hcid⟩
    rw [if_pos hcid]
    cases e with
    | handshake version =>
        dsimp only
        rw [handleHandshakeEvent_eq hc]
        split
        case isTrue hok =>
          apply linked_updateClient hl cid (keeps_answered version)
          intro d hd hfd
          rw [hc, Option.some.injEq] at hd
          subst hd
          rw [answered_fd] at hfd
          exact absurd hfd hok.1
        case isFalse => exact linked_disconnect hl hs cid
    | subscription flags fdoId =>
        dsimp only
        rcases handleSubscriptionEvent_cases s cid flags fdoId with
          ⟨-, heq⟩ | ⟨esi, -, -, -, heq⟩
        · rw [heq]
          exact hl
        · rw [heq]
          exact linked_subscribed hl hc esi
    | snapshotRequest => exact hl
  · rw [if_neg hcid]
    exact hl

/-- A step leaves a sound server sound exactly if it is tidy. -/
theorem sound_step_iff (m : Step) : Sound (s.step m) ↔ Tidy s m := by
  cases m with
  | newClient fd => exact iff_of_true (sound_onNewClient hs fd) True.intro
  | keep cid bytes =>
      exact iff_of_true
        (sound_updateClient hs cid (keeps_danglyBytes bytes)) True.intro
  | event cid e wrote => exact sound_event_iff hl hs cid e wrote
  | disconnect cid => exact sound_disconnect_iff hl hs cid
  | update esi wrote => exact sound_onUpdate_iff hl hs esi wrote

/-- Over any tidy step. -/
theorem linked_step {m : Step} (h : Tidy s m) : Linked (s.step m) := by
  cases m with
  | newClient fd => exact linked_onNewClient hl fd
  | keep cid bytes =>
      exact linked_updateClient hl cid (keeps_danglyBytes bytes)
        fun c hc hfd => hl.closed cid c hc hfd
  | event cid e wrote => exact linked_event hl hs cid e wrote
  | disconnect cid => exact linked_disconnect hl hs cid
  | update esi wrote =>
      have heq := onUpdate_of_wrote hl hs esi wrote h
      show Linked (s.onUpdate esi wrote)
      rw [heq]
      exact hl

end Step

/-- What every tidy step keeps. -/
def Good (s : TPSServer) : Prop := Linked s ∧ Sound s

/-- The invariant: tidy steps keep both halves. -/
theorem good_step {s : TPSServer} {m : Step} (h : Good s) (hm : Tidy s m) :
    Good (s.step m) :=
  ⟨linked_step h.1 h.2 hm, (sound_step_iff h.1 h.2 m).mpr hm⟩

/-- The server is sound after every step of a call. -/
def SoundCall (s : TPSServer) (c : Call) : Prop :=
  Admits step (fun s m => Sound (s.step m)) s (s.stepsOf c)

/-- Every step of a call is tidy. -/
def TidyCall (s : TPSServer) (c : Call) : Prop :=
  Admits step Tidy s (s.stepsOf c)

/-- Within one call, sound after every step is tidy at every step. -/
theorem soundCall_iff {s : TPSServer} (h : Good s) (c : Call) :
    SoundCall s c ↔ TidyCall s c := by
  unfold SoundCall TidyCall
  exact Lib.admits_iff_of_step (p := fun _ _ => True)
    (fun s m hs _ => sound_step_iff hs.1 hs.2 m)
    (fun s m hs _ hm => good_step hs hm) h (Admits.trivial s _)

/-- So a tidy call leaves the server as good as it was. -/
theorem good_call {s : TPSServer} {c : Call} (h : Good s)
    (hc : TidyCall s c) : Good (s.call c) := by
  rw [call_eq_run]
  exact Lib.run_invariant (fun s m hs hm => good_step hs hm) h hc

/-- The calls from the first on leave the server sound after every step
exactly if every step is tidy, and then the server is sound. -/
theorem sound_throughout_iff
    (fdoidEsiMap : UInt32 → Option EphemeralSymbolIndex) (cs : List Call) :
    (Admits call SoundCall (init fdoidEsiMap) cs
        ↔ Admits call TidyCall (init fdoidEsiMap) cs)
      ∧ (Admits call TidyCall (init fdoidEsiMap) cs →
        Sound (run call (init fdoidEsiMap) cs)) := by
  have hgood : Good (init fdoidEsiMap) :=
    ⟨linked_init fdoidEsiMap, sound_init fdoidEsiMap⟩
  constructor
  · exact Lib.admits_iff_of_step (I := Good) (p := fun _ _ => True)
      (fun s c hs _ => soundCall_iff hs c)
      (fun s c hs _ hc => good_call hs hc) hgood (Admits.trivial _ cs)
  · intro h
    exact (Lib.run_invariant (I := Good) (fun s c hs hc => good_call hs hc)
      hgood h).2

/-- A request for the instrument 42. -/
def requestBuf : DataBuffer :=
  [0, 1, 7, 0, 0, 0, 0, 0, 42, 0, 0, 0] ++ List.replicate 20 0 ++ [0, 1]
    ++ List.replicate 16 0 ++ [0, 1, 1, 0, 0, 0]

/-- A client sends a handshake and a request at once, and the answer to the
handshake cannot be written. -/
def lateRequest : List Call :=
  [.onNewClient 5,
    .onRecv 0 (handshakeEvent expectedVersionString (List.replicate 36 65)
      ++ requestBuf) fun _ => false]

/-- It is disconnected, and subscribed after that. -/
theorem not_sound_lateRequest :
    ¬∀ (fdoidEsiMap : UInt32 → Option EphemeralSymbolIndex)
      (cs : List Call), Sound (run call (init fdoidEsiMap) cs) := by
  intro h
  have hsound := h (fun fdoId => if fdoId = 42 then some 7 else none)
    lateRequest
  have hmem : 0 ∈ (run call (init fun fdoId =>
      if fdoId = 42 then some 7 else none) lateRequest).instrumentClients 7 :=
    by decide +kernel
  have hclient : (run call (init fun fdoId =>
      if fdoId = 42 then some 7 else none) lateRequest).clients[0]?
        = some ⟨none, .disconnected, [], [7]⟩ := by decide +kernel
  exact hsound.alive 7 0 hmem _ hclient rfl

end TPSServer

end TradingEngine.TS.TPS
