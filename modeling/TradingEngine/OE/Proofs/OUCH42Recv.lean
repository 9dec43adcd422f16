/-
SoupBinTCP framing in `OUCH42Session::on_recv`, and what it depends on.

The loop that dispatches from the front of a buffer is `Lib.split`. What is
left of a buffer goes to `m_dangly_bytes`, and nothing ever comes back from
there: the packet completed in it is dispatched with length zero, and
`m_dangly_length` is not reset. So every byte that `on_recv` gets is either
in a handled packet or dangling for good, and a stream is handled packet by
packet exactly if no call ends inside a packet
(`packets_handled_iff_cuts_between`).

# Accounts

`Received` says of a call that the bytes it got are those it handled and
those it left dangling, in this order, and it composes over calls. Nothing is
ever taken out of the dangling bytes, so as soon as a call leaves some
behind, the packet they belong to is not among the handled ones whatever
comes later. The other direction is `split` on whole packets: a buffer that
ends between two packets is handled to its end.
-/
import TradingEngine.OE.OUCH42Recv

namespace TradingEngine.OE

open Lib (byteAt split IsFrame Stuck)

-- ================================================================== packets

namespace SoupBinTCP30

/-- The length of the packet at the front, its length field included. -/
def packetSize (bs : Bytes) : Option Nat :=
  if bs.length < packetHeaderSize then none else some (2 + packetLength bs)

/-- So packets frame a stream. -/
theorem framing_packetSize : Lib.Framing packetSize := by
  refine ⟨fun bs n h => ?_, fun bs n h cs => ?_⟩
  · unfold packetSize at h
    split at h
    · cases h
    · cases h
      omega
  · unfold packetSize packetHeaderSize at h ⊢
    split at h
    case isTrue => cases h
    case isFalse hlen =>
      have hlen' : ¬(bs ++ cs).length < 3 := by
        rw [List.length_append]
        omega
      rw [if_neg hlen', packetLength, Lib.be16_append (by omega)]
      exact h

/-- A well-formed packet: a header, a length of at least one that is the
length of the rest, and a size that `m_dangly_bytes` could hold. -/
structure WellFormed (p : Bytes) : Prop where
  header : packetHeaderSize ≤ p.length
  length : packetLength p + 2 = p.length
  bounded : p.length ≤ OUCH42Recv.danglyCapacity

instance (p : Bytes) : Decidable (WellFormed p) :=
  decidable_of_iff (packetHeaderSize ≤ p.length
      ∧ packetLength p + 2 = p.length
      ∧ p.length ≤ OUCH42Recv.danglyCapacity)
    ⟨fun ⟨a, b, c⟩ => ⟨a, b, c⟩, fun ⟨a, b, c⟩ => ⟨a, b, c⟩⟩

/-- A whole packet is one frame. -/
theorem WellFormed.isFrame {p : Bytes} (h : WellFormed p) :
    IsFrame packetSize p := by
  have hheader := h.header
  unfold IsFrame packetSize
  rw [if_neg (by omega), Nat.add_comm, h.length]

end SoupBinTCP30

open SoupBinTCP30

namespace OUCH42Recv

-- ================================================================= the loop

/-- Without a whole packet nothing is dispatched. -/
theorem dispatchLength_stuck {buf : Bytes} (h : Stuck packetSize buf) :
    dispatchLength buf = 0 := by
  unfold dispatchLength
  split
  · rfl
  case isFalse hlen =>
    have hlt := h (2 + packetLength buf) (if_neg hlen)
    exact if_pos hlt

/-- With one at the front, that is. -/
theorem dispatchLength_take {buf : Bytes} {n : Nat}
    (hs : packetSize buf = some n) (hn : n ≤ buf.length) :
    dispatchLength buf = n := by
  unfold packetSize at hs
  unfold dispatchLength
  split at hs
  case isTrue => cases hs
  case isFalse hlen =>
    cases hs
    rw [if_neg hlen]
    exact if_neg (by omega)

/-- The arm of the switch reads the type, which is in the packet. -/
theorem handlerOf_take {buf : Bytes} {n : Nat}
    (hheader : packetHeaderSize ≤ (buf.take n).length) :
    handlerOf buf = handlerOf (buf.take n) := by
  unfold packetHeaderSize at hheader
  have hbyte : byteAt (buf.take n) 2 = byteAt buf 2 := by
    conv_rhs => rw [← List.take_append_drop n buf]
    exact (Lib.byteAt_append (by omega) _).symm
  unfold handlerOf
  rw [hbyte]

/-- The loop is `split`: it handles the complete packets at the front and
defers the rest. -/
theorem dispatchAll_spec (cur : Bytes) :
    ∀ (turns : Nat) (s : OUCH42Recv), cur.length ≤ turns →
      ∃ trace : List HandledPacket,
        dispatchAll turns s cur
          = { s with handled := s.handled ++ trace }.deferBytes
              (split packetSize cur).2
        ∧ trace.map Prod.snd = (split packetSize cur).1
        ∧ ∀ h ∈ trace, packetHeaderSize ≤ h.2.length →
            h.1 = handlerOf h.2 := by
  have hpos := framing_packetSize.pos
  induction cur using Lib.split_induction hpos with
  | stuck cur hstuck =>
      intro turns s _
      rw [Lib.split_stuck hstuck]
      refine ⟨[], ?_, rfl, fun h hh => absurd hh List.not_mem_nil⟩
      rw [List.append_nil]
      cases turns with
      | zero => rfl
      | succ turns =>
          have hret : s.dispatchPacket cur cur.length = (0, s) := by
            unfold dispatchPacket
            dsimp only
            rw [List.take_length, dispatchLength_stuck hstuck, if_pos rfl]
          unfold dispatchAll
          dsimp only
          rw [hret]
          rfl
  | take cur n hs hn ih =>
      intro turns s hturns
      have hn0 := hpos cur n hs
      obtain ⟨turns, rfl⟩ : ∃ k, turns = k + 1 := ⟨turns - 1, by omega⟩
      have hret : s.dispatchPacket cur cur.length
          = (n, { s with
              handled := s.handled ++ [(handlerOf cur, cur.take n)] }) := by
        unfold dispatchPacket
        dsimp only
        rw [List.take_length, dispatchLength_take hs hn,
          if_neg (by omega)]
      obtain ⟨trace, hall, hwire, harm⟩ := ih turns
        { s with handled := s.handled ++ [(handlerOf cur, cur.take n)] }
        (by rw [List.length_drop]; omega)
      rw [Lib.split_take hpos hs hn]
      refine ⟨(handlerOf cur, cur.take n) :: trace, ?_, ?_, ?_⟩
      · unfold dispatchAll
        dsimp only
        rw [hret]
        dsimp only
        rw [if_pos hn0, hall, List.append_assoc]
        rfl
      · rw [List.map_cons, hwire]
      · intro h hh hheader
        rcases List.mem_cons.mp hh with rfl | hh
        · exact handlerOf_take hheader
        · exact harm h hh hheader

-- =================================================================== a call

/-- The packets handled so far, as bytes. -/
def packets (s : OUCH42Recv) : List Bytes := s.handled.map Prod.snd

/-- What a call adds: handled packets and dangling bytes, which together
are the bytes it got. -/
structure Received (s : OUCH42Recv) (buf : Bytes) (s' : OUCH42Recv) :
    Prop where
  handled : ∃ trace, s'.handled = s.handled ++ trace
    ∧ ∀ h ∈ trace, packetHeaderSize ≤ h.2.length → h.1 = handlerOf h.2
  dangly : s.danglyLength ≤ s'.danglyLength
  total : s'.packets.flatten.length + s'.danglyLength
    = s.packets.flatten.length + s.danglyLength + buf.length
  whole : s'.danglyLength = 0 →
    s'.packets.flatten = s.packets.flatten ++ buf

/-- Deferred bytes are kept behind those kept before. -/
theorem danglyBytes_deferBytes (s : OUCH42Recv) (buf : Bytes) :
    (s.deferBytes buf).danglyBytes = s.danglyBytes ++ buf := by
  unfold deferBytes
  split
  case isTrue h =>
    rw [List.length_eq_zero_iff.mp h, List.append_nil]
  case isFalse => rfl

/-- Nothing is handled meanwhile. -/
theorem handled_deferBytes (s : OUCH42Recv) (buf : Bytes) :
    (s.deferBytes buf).handled = s.handled := by
  unfold deferBytes
  split <;> rfl

/-- So all of them are accounted for. -/
theorem received_deferBytes (s : OUCH42Recv) (buf : Bytes) :
    Received s buf (s.deferBytes buf) := by
  have hlen : (s.deferBytes buf).danglyLength
      = s.danglyLength + buf.length := by
    unfold danglyLength
    rw [danglyBytes_deferBytes, List.length_append]
  have hpackets : (s.deferBytes buf).packets = s.packets := by
    unfold packets
    rw [handled_deferBytes]
  refine ⟨⟨[], ?_, fun h hh => absurd hh List.not_mem_nil⟩, by omega, ?_,
    fun hzero => ?_⟩
  · rw [handled_deferBytes, List.append_nil]
  · rw [hpackets, hlen]
    omega
  · have hnil : buf = [] := List.length_eq_zero_iff.mp (by omega)
    rw [hpackets, hnil, List.append_nil]

/-- Over two pieces. -/
theorem Received.trans {s s' s'' : OUCH42Recv} {buf buf' : Bytes}
    (h : Received s buf s') (h' : Received s' buf' s'') :
    Received s (buf ++ buf') s'' := by
  obtain ⟨⟨trace, htrace, harm⟩, hdangly, htotal, hwhole⟩ := h
  obtain ⟨⟨trace', htrace', harm'⟩, hdangly', htotal', hwhole'⟩ := h'
  refine ⟨⟨trace ++ trace', ?_, fun h hh => ?_⟩, by omega, ?_,
    fun hzero => ?_⟩
  · rw [htrace', htrace, List.append_assoc]
  · rcases List.mem_append.mp hh with hh | hh
    · exact harm h hh
    · exact harm' h hh
  · rw [htotal', htotal, List.length_append]
    omega
  · rw [hwhole' hzero, hwhole (by omega), List.append_assoc]

/-- Over all packets of a buffer. -/
theorem received_dispatchAll (s : OUCH42Recv) (cur : Bytes) :
    Received s cur (dispatchAll cur.length s cur) := by
  obtain ⟨trace, hall, hwire, harm⟩ := dispatchAll_spec cur cur.length s
    (Nat.le_refl _)
  have hjoin := Lib.split_join framing_packetSize.pos cur
  have hlen := congrArg List.length hjoin
  rw [List.length_append] at hlen
  have hdefer := received_deferBytes
    { s with handled := s.handled ++ trace } (split packetSize cur).2
  rw [hall]
  obtain ⟨⟨trace', htrace', harm'⟩, hdangly, htotal, hwhole⟩ := hdefer
  have hpackets : { s with handled := s.handled ++ trace }.packets.flatten
      = s.packets.flatten ++ (split packetSize cur).1.flatten := by
    unfold packets
    rw [List.map_append, hwire, List.flatten_append]
  refine ⟨⟨trace ++ trace', ?_, fun h hh => ?_⟩, hdangly, ?_,
    fun hzero => ?_⟩
  · rw [htrace']
    exact List.append_assoc ..
  · rcases List.mem_append.mp hh with hh | hh
    · exact harm h hh
    · exact harm' h hh
  · rw [htotal, hpackets, List.length_append]
    show _ + s.danglyLength + _ = _
    omega
  · rw [hwhole hzero, hpackets, List.append_assoc, hjoin]

/-- Every byte of a call is in a handled packet or dangling. -/
theorem received_onRecv (s : OUCH42Recv) (buf : Bytes) :
    Received s buf (s.onRecv buf) := by
  unfold onRecv
  split
  · exact received_deferBytes s buf
  · split
    · dsimp only
      generalize (if s.danglyLength < packetHeaderSize then
        packetHeaderSize - s.danglyLength else 0) = bufOff
      -- the header's remainder, then the body's, or all there is
      have hheader := received_deferBytes s (buf.take bufOff)
      generalize s.deferBytes (buf.take bufOff) = s₁ at hheader ⊢
      generalize hcur : buf.drop bufOff = cur
      have hbuf : buf.take bufOff ++ cur = buf := by
        rw [← hcur]
        exact List.take_append_drop ..
      split
      · have h := hheader.trans (received_deferBytes s₁ cur)
        rwa [hbuf] at h
      · generalize premlen s₁.danglyBytes = n
        have hbody := hheader.trans (received_deferBytes s₁ (cur.take n))
        have hnothing : ∀ s : OUCH42Recv,
            (s.dispatchPacket s.danglyBytes 0).2 = s := by
          intro s
          unfold dispatchPacket
          rfl
        rw [hnothing]
        have h := hbody.trans (received_dispatchAll _ (cur.drop n))
        rwa [List.append_assoc, List.take_append_drop, hbuf] at h
    · exact received_dispatchAll s buf

/-- A call that finds nothing dangling is one pass of the loop. -/
theorem onRecv_fresh {s : OUCH42Recv} (hs : s.danglyBytes = [])
    (buf : Bytes) :
    ∃ trace : List HandledPacket,
      s.onRecv buf
        = { s with handled := s.handled ++ trace }.deferBytes
            (split packetSize buf).2
      ∧ trace.map Prod.snd = (split packetSize buf).1
      ∧ ∀ h ∈ trace, packetHeaderSize ≤ h.2.length →
          h.1 = handlerOf h.2 := by
  have hzero : s.danglyLength = 0 := List.length_eq_zero_iff.mpr hs
  unfold onRecv
  rw [hzero, Nat.zero_add]
  split
  case isTrue hshort =>
    -- too short for a header: the loop would not take anything either
    have hstuck : Stuck packetSize buf := by
      intro n hn
      unfold packetSize at hn
      rw [if_pos hshort] at hn
      cases hn
    rw [Lib.split_stuck hstuck]
    refine ⟨[], ?_, rfl, fun h hh => absurd hh List.not_mem_nil⟩
    rw [List.append_nil]
  case isFalse =>
    rw [if_neg (Nat.lt_irrefl 0)]
    exact dispatchAll_spec buf buf.length s (Nat.le_refl _)

-- ==================================================================== a run

/-- The run lemma over calls of `on_recv`. -/
theorem received_run (s : OUCH42Recv) (chunks : List Bytes) :
    Received s chunks.flatten (Lib.run onRecv s chunks) := by
  induction chunks generalizing s with
  | nil => exact received_deferBytes s []
  | cons c chunks ih => exact (received_onRecv s c).trans (ih (s.onRecv c))

/-- A packet as it should be handled. -/
def handledAs (p : Bytes) : HandledPacket := (handlerOf p, p)

/-- A trace is what its packets should be handled as, where the types are
in the packets. -/
theorem eq_map_handledAs {trace : List HandledPacket}
    (harm : ∀ h ∈ trace, packetHeaderSize ≤ h.2.length →
      h.1 = handlerOf h.2)
    (hheader : ∀ p ∈ trace.map Prod.snd, packetHeaderSize ≤ p.length) :
    trace = (trace.map Prod.snd).map handledAs := by
  have hid : ∀ h ∈ trace, id h = handledAs h.2 := by
    intro h hh
    have hty := harm h hh (hheader h.2 (List.mem_map_of_mem hh))
    exact Prod.ext hty rfl
  calc trace = trace.map id := (List.map_id trace).symm
    _ = trace.map fun h => handledAs h.2 := List.map_congr_left hid
    _ = (trace.map Prod.snd).map handledAs := by
        rw [List.map_map]
        rfl

/-- If every call ends where a packet does, every packet is handled. -/
theorem run_onRecv_whole {chunks : List Bytes}
    (hcuts : ∀ pre, pre <+: chunks → (split packetSize pre.flatten).2 = [])
    (hheader : ∀ p ∈ (split packetSize chunks.flatten).1,
      packetHeaderSize ≤ p.length) (handled : List HandledPacket) :
    Lib.run onRecv ⟨[], handled, false⟩ chunks
      = ⟨[], handled ++ (split packetSize chunks.flatten).1.map handledAs,
        false⟩ := by
  induction chunks generalizing handled with
  | nil =>
      rw [List.flatten_nil]
      show _ = (⟨[], handled ++ [], false⟩ : OUCH42Recv)
      rw [List.append_nil]
      rfl
  | cons c chunks ih =>
      -- the first call handles the packets in it and leaves nothing
      have hc := hcuts [c] ⟨chunks, rfl⟩
      rw [List.flatten_cons, List.flatten_nil, List.append_nil] at hc
      have hsplit : ∀ bs, split packetSize (c ++ bs)
          = ((split packetSize c).1 ++ (split packetSize bs).1,
            (split packetSize bs).2) := by
        intro bs
        rw [framing_packetSize.split_append, hc, List.nil_append]
      rw [List.flatten_cons, hsplit] at hheader
      obtain ⟨trace, hcall, hwire, harm⟩ := onRecv_fresh
        (s := ⟨[], handled, false⟩) rfl c
      have htrace := eq_map_handledAs harm (by
        rw [hwire]
        exact fun p hp => hheader p (List.mem_append_left _ hp))
      rw [hwire] at htrace
      rw [hc, htrace] at hcall
      have hrest : ∀ pre, pre <+: chunks →
          (split packetSize pre.flatten).2 = [] := by
        intro pre hpre
        have h := hcuts (c :: pre) ((List.prefix_cons_inj c).mpr hpre)
        rwa [List.flatten_cons, hsplit] at h
      rw [Lib.run_cons, hcall, List.flatten_cons, hsplit, List.map_append,
        ← List.append_assoc]
      exact ih hrest (fun p hp => hheader p (List.mem_append_right _ hp)) _

/-- The packets of a stream are handled, each once and in order, exactly
if no call ends inside of one. Nothing is written past the end of
`m_dangly_bytes` then. -/
theorem packets_handled_iff_cuts_between {ps chunks : List Bytes}
    (hps : ∀ p ∈ ps, WellFormed p) (hcut : chunks.flatten = ps.flatten) :
    ((Lib.run onRecv init chunks).handled
        = ps.map (fun p => (handlerOf p, p))
      ∧ (Lib.run onRecv init chunks).overrun = false)
    ↔ ∀ pre, pre <+: chunks → ∃ qs, qs <+: ps ∧ pre.flatten = qs.flatten := by
  have hframes : ∀ p ∈ ps, IsFrame packetSize p :=
    fun p hp => (hps p hp).isFrame
  constructor
  · rintro ⟨hhandled, -⟩ pre hpre
    obtain ⟨post, rfl⟩ := hpre
    have hpackets : (Lib.run onRecv init (pre ++ post)).packets = ps := by
      unfold packets
      rw [hhandled, List.map_map]
      exact List.map_id'' (fun _ => rfl) ps
    -- all bytes are in packets, so none ever dangled
    have hall := (received_run init (pre ++ post)).total
    rw [hpackets, hcut] at hall
    have hinit : init.packets.flatten.length + init.danglyLength = 0 := rfl
    rw [Lib.run_append] at hall hpackets
    have hpost := received_run (Lib.run onRecv init pre) post
    have hdangly := hpost.dangly
    have hpre := (received_run init pre).whole (by omega)
    refine ⟨(Lib.run onRecv init pre).packets, ?_, hpre.symm⟩
    obtain ⟨trace, htrace, -⟩ := hpost.handled
    refine ⟨trace.map Prod.snd, ?_⟩
    rw [← hpackets]
    unfold packets
    rw [htrace, List.map_append]
  · intro hcuts
    have hwhole : ∀ pre, pre <+: chunks →
        (split packetSize pre.flatten).2 = [] := by
      intro pre hpre
      obtain ⟨qs, hqs, hflat⟩ := hcuts pre hpre
      rw [hflat, framing_packetSize.split_flatten
        fun q hq => hframes q (hqs.subset hq)]
    have hsplit := framing_packetSize.split_flatten hframes
    have hheader : ∀ p ∈ (split packetSize chunks.flatten).1,
        packetHeaderSize ≤ p.length := by
      rw [hcut, hsplit]
      exact fun p hp => (hps p hp).header
    have hrun := run_onRecv_whole hwhole hheader []
    rw [hcut, hsplit] at hrun
    unfold init
    rw [hrun]
    exact ⟨rfl, rfl⟩

/-- A heartbeat and a sequenced data packet in one call, then another
heartbeat. -/
theorem packets_handled_iff_cuts_between_demo :
    let ps : List Bytes := [[0, 1, 72], [0, 3, 83, 7, 9], [0, 1, 72]]
    let chunks : List Bytes := [[0, 1, 72, 0, 3, 83, 7, 9], [0, 1, 72]]
    ((Lib.run onRecv init chunks).handled
        = ps.map (fun p => (handlerOf p, p))
      ∧ (Lib.run onRecv init chunks).overrun = false)
    ↔ ∀ pre, pre <+: chunks → ∃ qs, qs <+: ps ∧ pre.flatten = qs.flatten :=
  packets_handled_iff_cuts_between (by decide) (by decide)

/-- A heartbeat in two calls, cut after its first byte, is not handled. -/
theorem cut_packet_not_handled :
    ¬ ∀ ps chunks : List Bytes, (∀ p ∈ ps, WellFormed p) →
      chunks.flatten = ps.flatten → (∀ c ∈ chunks, 1 ≤ c.length) →
      (Lib.run onRecv init chunks).handled
          = ps.map (fun p => (handlerOf p, p))
        ∧ (Lib.run onRecv init chunks).overrun = false := by
  intro h
  have hlost := (h [[0, 1, 72]] [[0], [1, 72]] (by decide) (by decide)
    (by decide)).1
  revert hlost
  decide

end OUCH42Recv

end TradingEngine.OE
