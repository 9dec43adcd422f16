/-
What an exchange reads of the orders of a BOE session.

An order message has the bits of its own fields in it, and the session lays
its buffers out once for all orders. So the bits have to choose the fields of
the struct (`fields_eq`), and they do, but for one: a `ModifyOrder` has
a `max_floor` at its end that no bit announces.

Whatever was sent before, and whatever the buffers were used for, an exchange
that goes by the bits reads of every message just what `BOE20Send.lean` says
is written (`orders_read_back`).

# Widths

That the bytes can be cut apart again needs every field to be as wide as its
struct has it. Numbers are, by the way they are written. Ids and symbols come
from outside of the message: from the maker of ids, from the map of ids, and
from the universe. `Wide` says that all of these have the right width, and is
kept by every call, as an id that is stored is one that was made.
-/
import TradingEngine.OE.BOE20Exchange
import TradingEngine.OE.Proofs.BOE20Buffers

namespace TradingEngine.OE

open Lib (leBytes leNat byteAt bytesAt)
open Lib.Record (offset size pack chosen Fits)

variable {ι : Type}

namespace BOE20

-- ================================================================= formats

/-- A message with bits: fixed fields, the number of bitfields, these, what
they choose, and more. -/
def OrderFormat.pack (t : OrderFormat) (v : Field → Bytes) (bits : Bytes)
    (rest : Bytes) : Bytes :=
  Lib.Record.pack v t.fixedFields ++ .ofNat bits.length :: bits
    ++ Lib.Record.pack v (chosen t.bitfields bits) ++ rest

namespace OrderFormat

section Reading

variable {t : OrderFormat} {v : Field → Bytes} {bits : Bytes}
  (hfixed : Fits Field.width v t.fixedFields)

include hfixed

/-- The bits are found where the format says. -/
theorem bits_pack (hbits : bits.length < 256) (rest : Bytes) :
    t.bits (t.pack v bits rest) = bits := by
  have hlen : (Lib.Record.pack v t.fixedFields).length = t.fixedSize :=
    Lib.Record.length_pack hfixed
  have hsplit : t.pack v bits rest
      = Lib.Record.pack v t.fixedFields ++ (.ofNat bits.length :: (bits
        ++ (Lib.Record.pack v (chosen t.bitfields bits) ++ rest))) := by
    unfold pack
    simp only [List.append_assoc, List.cons_append]
  have hdrop : (t.pack v bits rest).drop t.fixedSize
      = .ofNat bits.length :: (bits
        ++ (Lib.Record.pack v (chosen t.bitfields bits) ++ rest)) := by
    rw [hsplit]
    exact List.drop_left' hlen
  have hbyte : byteAt (t.pack v bits rest) t.fixedSize = .ofNat bits.length := by
    have hget : (t.pack v bits rest).drop t.fixedSize
        = byteAt (t.pack v bits rest) t.fixedSize
          :: (t.pack v bits rest).drop (t.fixedSize + 1) := by
      have hlt : t.fixedSize < (t.pack v bits rest).length := by
        rw [hsplit, List.length_append, hlen, List.length_cons]
        omega
      unfold byteAt
      rw [List.drop_eq_getElem_cons hlt, List.getD_eq_getElem _ _ hlt]
    rw [hdrop] at hget
    exact (List.head_eq_of_cons_eq hget).symm
  have hn : (UInt8.ofNat bits.length).toNat = bits.length := by
    rw [UInt8.toNat_ofNat']
    omega
  unfold OrderFormat.bits bytesAt
  rw [hbyte, hn, ← List.drop_drop, hdrop]
  exact List.take_left

/-- A fixed field is read as it was packed. -/
theorem read_fixed (rest : Bytes) {f : Field} (hf : f ∈ t.fixedFields) :
    t.read (t.pack v bits rest) f = some (v f) := by
  unfold read pack
  rw [if_pos hf, List.append_assoc, List.append_assoc,
    Lib.Record.bytesAt_pack hfixed hf]

/-- So is a field that the bits choose. -/
theorem read_optional (hbits : bits.length < 256)
    (hopt : Fits Field.width v (chosen t.bitfields bits)) (rest : Bytes)
    {f : Field} (hfix : f ∉ t.fixedFields)
    (hf : f ∈ chosen t.bitfields bits) :
    t.read (t.pack v bits rest) f = some (v f) := by
  have hlen : (Lib.Record.pack v t.fixedFields
      ++ .ofNat bits.length :: bits).length
      = t.fixedSize + 1 + bits.length := by
    rw [List.length_append, Lib.Record.length_pack hfixed, List.length_cons]
    unfold fixedSize
    omega
  unfold read optional
  rw [if_neg hfix, bits_pack hfixed hbits, if_pos hf,
    ← Lib.Record.bytesAt_pack hopt hf rest]
  unfold pack bytesAt
  rw [← List.drop_drop, List.append_assoc, List.drop_left' hlen]

/-- There is no other field. -/
theorem read_none (hbits : bits.length < 256) (rest : Bytes) {f : Field}
    (hfix : f ∉ t.fixedFields) (hf : f ∉ chosen t.bitfields bits) :
    t.read (t.pack v bits rest) f = none := by
  unfold read optional
  rw [if_neg hfix, bits_pack hfixed hbits, if_neg hf]

/-- A message is as long as its fixed part, its bits and the fields they
choose. -/
theorem length_pack (hopt : Fits Field.width v (chosen t.bitfields bits))
    (rest : Bytes) :
    (t.pack v bits rest).length = t.fixedSize + 1 + bits.length
      + size Field.width (chosen t.bitfields bits) + rest.length := by
  unfold pack fixedSize
  rw [List.length_append, List.length_append, List.length_append,
    List.length_cons, Lib.Record.length_pack hfixed,
    Lib.Record.length_pack hopt]
  omega

/-- Behind it is what follows it. -/
theorem drop_pack (hopt : Fits Field.width v (chosen t.bitfields bits))
    (rest : Bytes) :
    (t.pack v bits rest).drop (t.fixedSize + 1 + bits.length
      + size Field.width (chosen t.bitfields bits)) = rest := by
  have hlen := length_pack hfixed hopt []
  unfold pack at hlen ⊢
  rw [List.append_nil] at hlen
  exact List.drop_left' hlen

end Reading

end OrderFormat

-- ================================================================ messages

namespace OutboundMessage

/-- The bits of the message. -/
def bits : OutboundMessage → Bytes
  | .newOrder _ => [255, 193, 31, 0, 10, 0]
  | .cancelOrder _ => [1]
  | .modifyOrder _ => [253, 0]

/-- The fields of a struct are the fixed ones and those that its bits choose. -/
theorem fields_eq (m : OutboundMessage) :
    m.fields = m.format.fixedFields ++ chosen m.format.bitfields m.bits := by
  cases m <;> rfl

/-- A number that does not fit its bytes loses what does not fit. -/
theorem leBytes_mod (width n : Nat) :
    leBytes width (n % 256 ^ width) = leBytes width n := by
  induction width generalizing n with
  | zero => rfl
  | succ width ih =>
      have hlow : UInt8.ofNat (n % 256 ^ (width + 1)) = UInt8.ofNat n := by
        apply UInt8.toNat_inj.mp
        rw [UInt8.toNat_ofNat', UInt8.toNat_ofNat']
        exact Nat.mod_mod_of_dvd n (Dvd.intro_left (256 ^ width) rfl)
      have hhigh : n % 256 ^ (width + 1) / 256 = n / 256 % 256 ^ width := by
        rw [Nat.pow_succ', Nat.mod_mul_right_div_self]
      rw [leBytes, leBytes, hlow, hhigh, ih]

/-- A field of 32 bits holds what fits in four bytes. -/
theorem leBytes_ofNat32 (n : Nat) :
    leBytes 4 (UInt32.ofNat n).toNat = leBytes 4 n := by
  rw [UInt32.toNat_ofNat']
  exact leBytes_mod 4 n

/-- One of 64 bits, what fits in eight. -/
theorem leBytes_ofNat64 (n : Nat) :
    leBytes 8 (UInt64.ofNat n).toNat = leBytes 8 n := by
  rw [UInt64.toNat_ofNat']
  exact leBytes_mod 8 n

/-- The bytes of a message are its fields. -/
theorem wire_eq (conf : SenderConf ι) (m : OutboundMessage) :
    m.wire conf = m.format.pack (m.value conf) m.bits m.unannounced := by
  unfold OrderFormat.pack
  cases m with
  | newOrder m =>
      have hopt : chosen OrderFormat.newOrder.bitfields
          [255, 193, 31, 0, 10, 0]
          = [.clearingFirm, .clearingAccount, .price, .execInst, .ordType,
            .timeInForce, .minQty, .maxFloor, .symbol, .capacity,
            .routingInst, .account, .displayIndicator, .maxRemovePct,
            .discretionAmount, .pegDifference, .attributedQuote,
            .extExecInst] := rfl
      unfold wire NewOrderBuffer.bytes NewOrder.fill prepareNewOrderBuffer
      dsimp only
      rw [leBytes_ofNat32, leBytes_ofNat64]
      unfold format bits unannounced
      dsimp only
      rw [hopt]
      simp only [OrderFormat.newOrder, headerFields, Lib.Record.pack_cons,
        List.cons_append, List.nil_append, List.append_assoc]
      rfl
  | cancelOrder m =>
      have hopt : chosen OrderFormat.cancelOrder.bitfields [1]
          = [.clearingFirm] := rfl
      unfold wire CancelOrderBuffer.bytes CancelOrder.fill
        prepareCancelOrderBuffer format bits unannounced
      dsimp only
      rw [hopt]
      simp only [OrderFormat.cancelOrder, headerFields,
        Lib.Record.pack_cons, Lib.Record.pack_nil, List.cons_append,
        List.nil_append, List.append_assoc, List.append_nil]
      rfl
  | modifyOrder m =>
      have hopt : chosen OrderFormat.modifyOrder.bitfields [253, 0]
          = [.clearingFirm, .orderQty, .price, .ordType, .cancelOrigOnReject,
            .execInst, .side] := rfl
      unfold wire ModifyOrderBuffer.bytes ModifyOrder.fill
        prepareModifyOrderBuffer
      dsimp only
      rw [leBytes_ofNat32, leBytes_ofNat64]
      unfold format bits unannounced
      dsimp only
      rw [hopt]
      simp only [OrderFormat.modifyOrder, headerFields, Lib.Record.pack_cons,
        List.cons_append, List.nil_append, List.append_assoc]
      rfl

/-- Its values have the widths of the fields. -/
theorem fits_value (conf : SenderConf ι) {m : OutboundMessage}
    (h : m.Sized) : Fits Field.width (m.value conf) m.fields := by
  unfold Fits
  cases m with
  | newOrder m =>
      simp only [fields, OrderFormat.newOrder, headerFields,
        List.cons_append, List.nil_append, List.forall_mem_cons, value,
        Field.width, Lib.length_leBytes, length_copyToArray, h.1, h.2,
        List.length_cons, List.length_nil, RoutingInst.text,
        List.not_mem_nil, false_implies, implies_true, and_true]
  | cancelOrder m =>
      have hid : m.origClOrdID.length = 20 := h
      simp only [fields, OrderFormat.cancelOrder, headerFields,
        List.cons_append, List.nil_append, List.forall_mem_cons, value,
        Field.width, Lib.length_leBytes, length_copyToArray, hid,
        List.length_cons, List.length_nil, List.not_mem_nil, false_implies,
        implies_true, and_true]
  | modifyOrder m =>
      simp only [fields, OrderFormat.modifyOrder, headerFields,
        List.cons_append, List.nil_append, List.forall_mem_cons, value,
        Field.width, Lib.length_leBytes, length_copyToArray, h.1, h.2,
        List.length_cons, List.length_nil, List.not_mem_nil, false_implies,
        implies_true, and_true]

/-- The header of the message. -/
theorem header_wire (conf : SenderConf ι) {m : OutboundMessage}
    (h : m.Sized) {f : Field} (hf : f ∈ headerFields) :
    bytesAt (m.wire conf) (offset Field.width headerFields f) f.width
      = m.value conf f := by
  obtain ⟨fs, hfs⟩ : ∃ fs, m.format.fixedFields = headerFields ++ fs := by
    cases m <;> exact ⟨_, rfl⟩
  have hfits := m.fields_eq ▸ fits_value conf h
  rw [hfs, List.append_assoc] at hfits
  rw [wire_eq]
  unfold OrderFormat.pack
  rw [hfs, Lib.Record.pack_append, List.append_assoc, List.append_assoc,
    List.append_assoc]
  exact Lib.Record.bytesAt_pack
    (fun g hg => hfits g (List.mem_append_left _ hg)) hf _

/-- An exchange that goes by the bits reads the message as it was meant. -/
theorem readOrder_wire (conf : SenderConf ι) {m : OutboundMessage}
    (h : m.Sized) :
    readOrder (m.wire conf) = some (m.meaning conf, m.unannounced) := by
  have hfits := m.fields_eq ▸ fits_value conf h
  have hfixed : Fits Field.width (m.value conf) m.format.fixedFields :=
    fun f hf => hfits f (List.mem_append_left _ hf)
  have hopt : Fits Field.width (m.value conf)
      (chosen m.format.bitfields m.bits) :=
    fun f hf => hfits f (List.mem_append_right _ hf)
  have hbits : m.bits.length < 256 := by
    cases m <;> simp only [bits, List.length_cons, List.length_nil] <;> omega
  have hlen := m.length_wire conf h
  have hwire := wire_eq conf m
  have htype : byteAt (m.wire conf) 4 = m.format.messageType :=
    Lib.byteAt_of_bytesAt (header_wire conf h (f := .messageType) (by decide))
  have hlength : leNat (bytesAt (m.wire conf) 2 2) + 2 = m.msglen := by
    have hread : bytesAt (m.wire conf) 2 2 = leBytes 2 (m.msglen - 2) :=
      header_wire conf h (f := .messageLength) (by decide)
    have hlen : 2 ≤ m.msglen ∧ m.msglen < 65536 := by
      cases m <;> simp [msglen]
    rw [hread, Lib.leNat_leBytes_of_lt (by omega)]
    omega
  have hfind : OrderFormat.all.find? (fun t =>
      t.messageType = m.format.messageType) = some m.format := by
    cases m <;> rfl
  have hread : m.format.read (m.wire conf) = m.meaning conf := by
    funext f
    unfold meaning
    rw [hwire, fields_eq]
    by_cases hfix : f ∈ m.format.fixedFields
    · rw [OrderFormat.read_fixed hfixed _ hfix,
        if_pos (List.mem_append_left _ hfix)]
    · by_cases hchosen : f ∈ chosen m.format.bitfields m.bits
      · rw [OrderFormat.read_optional hfixed hbits hopt _ hfix hchosen,
          if_pos (List.mem_append_right _ hchosen)]
      · rw [OrderFormat.read_none hfixed hbits _ hfix hchosen, if_neg]
        exact fun hmem => (List.mem_append.mp hmem).elim hfix hchosen
  have hannounced : m.format.fixedSize + 1
      + (m.format.bits (m.wire conf)).length
      + size Field.width (m.format.optional (m.wire conf))
      = m.format.fixedSize + 1 + m.bits.length
        + size Field.width (chosen m.format.bitfields m.bits) := by
    unfold OrderFormat.optional
    rw [hwire, OrderFormat.bits_pack hfixed hbits]
  have hrest := OrderFormat.drop_pack hfixed hopt
    m.unannounced
  have hshort := OrderFormat.length_pack hfixed hopt
    m.unannounced
  rw [← hwire] at hrest hshort
  unfold readOrder
  rw [htype, hfind]
  dsimp only
  rw [hannounced, if_pos ⟨by rw [hlength, hlen], by omega⟩, hread, hrest]

end OutboundMessage

end BOE20

open BOE20

-- ================================================================== widths

namespace BOE20Sender

/-- Ids and symbols are as wide as on the wire: those that are made, those
that are stored, those of the universe. -/
structure Wide (s : BOE20Sender ι) : Prop where
  created : ∀ op, (s.createClOrdID op).length = 20
  stored : ∀ localID id, s.idMap localID = some id → id.length = 20
  symbols : ∀ i, (s.symbolArray i).length = 8

/-- A call of a session with such ids writes such ids and keeps such ids. -/
structure WritesWide (r : BOE20Call ι) : Prop where
  session : r.session.Wide
  written : ∀ m, r.written = some m → m.Sized

/-- A refusal writes nothing. -/
theorem Wide.refused {s : BOE20Sender ι} (h : s.Wide) (op : Order ι)
    (terms : OrderTerms) : WritesWide ⟨s, op, terms, none, false⟩ :=
  ⟨h, fun _ hm => by cases hm⟩

/-- An id of 20 characters may be noted down. -/
theorem Wide.insertId {s : BOE20Sender ι} (h : s.Wide) (localID : Nat)
    {id : Bytes} (hid : id.length = 20) : (s.insertId localID id).Wide := by
  unfold BOE20Sender.insertId
  split
  case h_1 => exact h
  case h_2 =>
    refine ⟨h.created, fun l id' hl => ?_, h.symbols⟩
    rcases eq_or_ne l localID with rfl | hne
    · dsimp only at hl
      rw [Function.update_self] at hl
      rw [← Option.some.inj hl]
      exact hid
    · dsimp only at hl
      rw [Function.update_of_ne hne] at hl
      exact h.stored l id' hl

/-- The connection does not change widths. -/
theorem Wide.write {s : BOE20Sender ι} (h : s.Wide) (io : Io) :
    (s.write io).Wide := by
  unfold BOE20Sender.write sendHelperNolock
  split <;> exact ⟨h.created, h.stored, h.symbols⟩

/-- A new order writes the id it makes. -/
theorem Wide.sendNewOrder {s : BOE20Sender ι} (h : s.Wide) (op : Order ι)
    (terms : OrderTerms) (io : Io) :
    WritesWide (s.sendNewOrder op terms io) := by
  unfold BOE20Sender.sendNewOrder
  cases s.noBufs with
  | nil => exact h.refused op terms
  | cons buf noBufs =>
      have htake : Wide { s with noBufs := noBufs } :=
        ⟨h.created, h.stored, h.symbols⟩
      have hid := htake.insertId op.localID (h.created op)
      have hback {s' : BOE20Sender ι} (h' : s'.Wide) :
          Wide { s' with noBufs := buf :: s'.noBufs } :=
        ⟨h'.created, h'.stored, h'.symbols⟩
      dsimp only
      cases sideFromOrder op.side with
      | none => exact (hback hid).refused _ terms
      | some side =>
          dsimp only
          split
          · exact (hback hid).refused _ terms
          · cases execInstFromOrder _ op.type terms.execInst with
            | none => exact (hback hid).refused _ terms
            | some execInst =>
                dsimp only
                cases ordTypeFromOrder op.type with
                | none => exact (hback hid).refused _ _
                | some ordType =>
                    dsimp only
                    cases tifFromOrder op.tif with
                    | none => exact (hback hid).refused _ _
                    | some tif =>
                        refine ⟨hback (hid.write io), fun m hm => ?_⟩
                        cases hm
                        exact ⟨h.created op, hid.symbols op.instrument⟩

/-- A cancel writes the id that is stored, or the one it makes. -/
theorem Wide.sendCancel {s : BOE20Sender ι} (h : s.Wide) (op : Order ι)
    (terms : OrderTerms) (io : Io) :
    WritesWide (s.sendCancel op terms io) := by
  have hlen : ((s.idMap op.localID).getD (s.createClOrdID op)).length = 20 := by
    cases hid : s.idMap op.localID with
    | none => exact h.created op
    | some id => exact h.stored _ id hid
  have hsession := h.insertId op.localID hlen
  unfold BOE20Sender.sendCancel
  dsimp only
  generalize s.insertId op.localID _ = s' at hsession
  cases s'.cxlBufs with
  | nil => exact hsession.refused op terms
  | cons buf cxlBufs =>
      have htake : Wide { s' with cxlBufs := cxlBufs } :=
        ⟨hsession.created, hsession.stored, hsession.symbols⟩
      have hwrite := htake.write io
      refine ⟨⟨hwrite.created, hwrite.stored, hwrite.symbols⟩,
        fun m hm => ?_⟩
      cases hm
      exact hlen

/-- A modify writes the id that is stored. -/
theorem Wide.sendModify {s : BOE20Sender ι} (h : s.Wide) (op : Order ι)
    (newqty : Nat) (terms : OrderTerms) (io : Io) :
    WritesWide (s.sendModify op newqty terms io) := by
  unfold BOE20Sender.sendModify
  cases hid : s.idMap op.localID with
  | none => exact h.refused op terms
  | some id =>
      have hlen := h.stored _ id hid
      cases s.modBufs with
      | nil => exact h.refused op terms
      | cons buf modBufs =>
          have hback : Wide { s with modBufs := buf :: modBufs } :=
            ⟨h.created, h.stored, h.symbols⟩
          dsimp only
          cases ordTypeFromOrder op.type with
          | none => exact hback.refused op terms
          | some ordType =>
              dsimp only
              cases execInstFromOrder s.market op.type terms.execInst with
              | none => exact hback.refused op terms
              | some execInst =>
                  dsimp only
                  cases sideFromOrder op.side with
                  | none => exact hback.refused op _
                  | some side =>
                      have htake : Wide { s with modBufs := modBufs } :=
                        ⟨h.created, h.stored, h.symbols⟩
                      have hwrite := htake.write io
                      refine ⟨⟨hwrite.created, hwrite.stored,
                        hwrite.symbols⟩, fun m hm => ?_⟩
                      cases hm
                      exact ⟨hlen, hlen⟩

/-- Over any call. -/
theorem Wide.onSender {s : BOE20Sender ι} (h : s.Wide)
    (c : BOE20Buffers.Call ι) (io : Io) : WritesWide (c.onSender s io) := by
  cases c with
  | newOrder op terms => exact h.sendNewOrder op terms io
  | cancel op terms => exact h.sendCancel op terms io
  | modify op newqty terms => exact h.sendModify op newqty terms io

end BOE20Sender

-- ===================================================================== runs

namespace BOE20Buffers

/-- In the beginning no id is stored. -/
theorem wide_create (conf : SenderConf ι)
    (hsym : ∀ i, (conf.symbolArray i).length = 8) (noMem cxlMem modMem)
    (outboundSeqnum : UInt32) :
    (create conf noMem cxlMem modMem outboundSeqnum).toBOE20Sender.Wide where
  created op := by
    have hset (n : Nat) : (ourClOrdID.set n).2.length = 13 := by
      have hloop (w : Nat) (first : Bool) (n : Nat) :
          (ourClOrdID.setLoop w first n).1.length = w := by
        induction w generalizing first n with
        | zero => rfl
        | succ w ih =>
            unfold Alphanumeric.setLoop
            split
            · exact congrArg (· + 1) (ih false n)
            · exact congrArg (· + 1) (ih false _)
      show (ourClOrdID.setLoop 13 true n).1.reverse.length = 13
      rw [List.length_reverse, hloop]
    have hsymbol : (hprSymbol (conf.symbolArray op.instrument)).length = 6 := by
      unfold hprSymbol
      rw [List.length_map, List.length_range]
    show (_ :: hprSymbol _ ++ (ourClOrdID.set _).2).length = 20
    rw [List.length_append, List.length_cons, hsymbol, hset]
  stored _ _ h := by cases h
  symbols := hsym

/-- Buffers of `conf` that are in order, and ids as wide as on the wire. -/
structure Sound (conf : SenderConf ι) (s : BOE20Buffers ι) : Prop where
  clean : s.Clean conf
  wide : s.toBOE20Sender.Wide

/-- The invariant over a day of calls. -/
theorem Sound.step {conf : SenderConf ι} {s : BOE20Buffers ι}
    (h : s.Sound conf) (e : Call ι × Io) : (s.step e).Sound conf := by
  obtain ⟨hclean, hrefines⟩ := call_refines h.clean e.1 e.2
  refine ⟨hclean, ?_⟩
  show (s.call e.1 e.2).session.toBOE20Sender.Wide
  rw [hrefines.session]
  exact (h.wide.onSender e.1 e.2).session

/-- Whatever was sent or refused before, in buffers used again and again: an
exchange that goes by the bits of a message reads all of its fields, and no
other, as `BOE20Send.lean` has them written. Of a `ModifyOrder` it leaves the
four bytes of a `max_floor` over, which no bit announces; of any other order
nothing. -/
theorem orders_read_back (conf : SenderConf ι)
    (hsym : ∀ i, (conf.symbolArray i).length = 8)
    (noMem : Nat → NewOrderBuffer) (cxlMem : Nat → CancelOrderBuffer)
    (modMem : Nat → ModifyOrderBuffer) (outboundSeqnum : UInt32)
    (h : List (Call ι × Io)) (c : Call ι) (io : Io) :
    let s := Lib.run step (create conf noMem cxlMem modMem outboundSeqnum) h
    ((s.call c io).bytes.bind readOrder)
      = (c.onSender s.toBOE20Sender io).written.map fun m =>
        (m.meaning conf, m.unannounced) := by
  intro s
  have hsound : s.Sound conf :=
    Lib.run_induction (fun _ e h => h.step e)
      ⟨(ready_create conf noMem cxlMem modMem outboundSeqnum).clean,
        wide_create conf hsym noMem cxlMem modMem outboundSeqnum⟩
  have hsized := (hsound.wide.onSender c io).written
  rw [(call_refines hsound.clean c io).2.bytes]
  cases hm : (c.onSender s.toBOE20Sender io).written with
  | none => rfl
  | some m =>
      rw [Option.map_some, Option.bind_some, Option.map_some,
        OutboundMessage.readOrder_wire conf (hsized m hm)]

/-- A session of one symbol. -/
def oneSymbol : SenderConf Unit where
  name := [66]
  market := .bats
  findInstrument _ := none
  now := ⟨0, 0⟩
  hprBrokerLoc := 65
  symbolArray _ := [90, 0, 0, 0, 0, 0, 0, 0]
  clearingFirm := [70]
  clearingAccount := [71]
  cancelOrigOnReject := true

/-- A hundred to be bought at 5. -/
def hundredBought : Order Unit :=
  { Order.create (.dayLimit () .buy 100 5) with localID := 1, openSize := 100 }

/-- A new order, and then its reduction, in one session. -/
theorem orders_read_back_demo :
    let io : Io := ⟨112, ⟨1, 0⟩, ⟨2, 0⟩⟩
    let s := Lib.run step (create oneSymbol default default default 1)
      [(.newOrder hundredBought .init, io)]
    ((s.call (.modify hundredBought 40 .init) io).bytes.bind readOrder)
      = (Call.onSender (.modify hundredBought 40 .init) s.toBOE20Sender
          io).written.map fun m => (m.meaning oneSymbol, m.unannounced) :=
  orders_read_back oneSymbol (fun _ => rfl) default default default 1 _ _ _

end BOE20Buffers

end TradingEngine.OE
