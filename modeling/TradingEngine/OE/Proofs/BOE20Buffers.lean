/-
What is left in a recycled buffer is never sent.

A buffer is `Clean` when filling in any message makes of it what filling in
that message makes of a buffer just prepared: whatever an earlier order left
lies under what the message overwrites. Every call leaves the buffers clean,
failed or not, and the free lists as they were; and what it writes is the
filled-in message of `BOE20Send.lean`, which reads no buffer at all.

# Refinement

A call with buffers does the same as the call of the session without buffers
(`Refines`): the same answer, the same order, the same sender, and the bytes
of the message written there. So everything that is proved of the session
without buffers holds with them.

# Runs

`Ready` is what every call keeps: the buffers are clean and each of them is
free exactly once. A call takes a buffer off its free list and puts it back
on each of its ways out, also where an exception leaves the function half way
through; the fields that were written until then are among those that the
next message overwrites. By induction over the calls any session is as good
as a new one (`recycled_buffers_leak_nothing`).
-/
import TradingEngine.Lib.Run
import TradingEngine.OE.BOE20Buffers
import TradingEngine.OE.Proofs.BOE20Send

namespace TradingEngine.OE

variable {ι : Type}

namespace BOE20

-- =================================================================== filling

/-- The fields of a buffer that a message overwrites. -/
def NewOrder.fill (m : NewOrder) (b : NewOrderBuffer) : NewOrderBuffer :=
  { b with
    header := { b.header with sequenceNumber := m.sequenceNumber }
    clOrdID := m.clOrdID
    side := charByte m.side
    orderQty := .ofNat m.orderQty
    price := .ofNat m.price
    execInst := m.execInst.value
    ordType := charByte m.ordType
    timeInForce := charByte m.timeInForce
    symbol := m.symbol
    routingInst := m.routingInst.text
    displayIndicator := m.displayIndicator.value }

def CancelOrder.fill (m : CancelOrder) (b : CancelOrderBuffer) :
    CancelOrderBuffer :=
  { b with
    header := { b.header with sequenceNumber := m.sequenceNumber }
    origClOrdID := m.origClOrdID }

def ModifyOrder.fill (m : ModifyOrder) (b : ModifyOrderBuffer) :
    ModifyOrderBuffer :=
  { b with
    header := { b.header with sequenceNumber := m.sequenceNumber }
    newClOrdID := m.newClOrdID
    origClOrdID := m.origClOrdID
    orderQty := .ofNat m.orderQty
    price := .ofNat m.price
    ordType := charByte m.ordType
    execInst := m.execInst.value
    side := charByte m.side }

/-- The bytes of a message, in buffers just prepared. -/
def OutboundMessage.wire (conf : SenderConf ι) : OutboundMessage → Bytes
  | .newOrder m => (m.fill (prepareNewOrderBuffer conf default)).bytes
  | .cancelOrder m => (m.fill (prepareCancelOrderBuffer conf default)).bytes
  | .modifyOrder m => (m.fill (prepareModifyOrderBuffer conf default)).bytes

def NewOrderBuffer.Clean (conf : SenderConf ι) (b : NewOrderBuffer) : Prop :=
  ∀ m : NewOrder, m.fill b = m.fill (prepareNewOrderBuffer conf default)

def CancelOrderBuffer.Clean (conf : SenderConf ι) (b : CancelOrderBuffer) :
    Prop :=
  ∀ m : CancelOrder, m.fill b = m.fill (prepareCancelOrderBuffer conf default)

def ModifyOrderBuffer.Clean (conf : SenderConf ι) (b : ModifyOrderBuffer) :
    Prop :=
  ∀ m : ModifyOrder, m.fill b = m.fill (prepareModifyOrderBuffer conf default)

/-- A clean buffer into which a message was written is sent as it is. -/
theorem NewOrderBuffer.Clean.sent {conf : SenderConf ι}
    {b b' : NewOrderBuffer} {m : NewOrder} (hb : b.Clean conf)
    (hb' : b' = m.fill b) :
    some b'.bytes = (some (OutboundMessage.newOrder m)).map
      (OutboundMessage.wire conf) := by
  rw [hb', hb m]
  rfl

/-- What a clean buffer sends is the message, whatever it was used for before. -/
theorem CancelOrderBuffer.Clean.sent {conf : SenderConf ι}
    {b b' : CancelOrderBuffer} {m : CancelOrder} (hb : b.Clean conf)
    (hb' : b' = m.fill b) :
    some b'.bytes = (some (OutboundMessage.cancelOrder m)).map
      (OutboundMessage.wire conf) := by
  rw [hb', hb m]
  rfl

/-- The same of a `ModifyOrder`. -/
theorem ModifyOrderBuffer.Clean.sent {conf : SenderConf ι}
    {b b' : ModifyOrderBuffer} {m : ModifyOrder} (hb : b.Clean conf)
    (hb' : b' = m.fill b) :
    some b'.bytes = (some (OutboundMessage.modifyOrder m)).map
      (OutboundMessage.wire conf) := by
  rw [hb', hb m]
  rfl

/-- Ids and symbols are as long as they are on the wire. -/
def OutboundMessage.Sized : OutboundMessage → Prop
  | .newOrder m => m.clOrdID.length = 20 ∧ m.symbol.length = 8
  | .cancelOrder m => m.origClOrdID.length = 20
  | .modifyOrder m => m.newClOrdID.length = 20 ∧ m.origClOrdID.length = 20

/-- A string that is copied is as wide as the array. -/
theorem length_copyToArray (width : Nat) (str : Bytes) :
    (copyToArray width str).length = width := by
  unfold copyToArray
  rw [List.length_append, List.length_take, List.length_replicate]
  omega

/-- The header as a struct. -/
theorem OutboundHeader.length_bytes (h : OutboundHeader) :
    h.bytes.length = 10 := by
  unfold bytes
  simp only [List.length_append, Lib.length_leBytes, List.length_cons,
    List.length_nil]

/-- A message is as long as `msglen` says. -/
theorem OutboundMessage.length_wire (conf : SenderConf ι)
    {m : OutboundMessage} (h : m.Sized) :
    (m.wire conf).length = m.msglen := by
  cases m with
  | newOrder m =>
      unfold wire NewOrderBuffer.bytes
      simp only [NewOrder.fill, prepareNewOrderBuffer, RoutingInst.text,
        List.length_append, List.length_cons, List.length_nil,
        Lib.length_leBytes, OutboundHeader.length_bytes, length_copyToArray,
        h.1, h.2]
      rfl
  | cancelOrder m =>
      have hid : m.origClOrdID.length = 20 := h
      unfold wire CancelOrderBuffer.bytes
      simp only [CancelOrder.fill, prepareCancelOrderBuffer,
        List.length_append, List.length_cons, List.length_nil,
        OutboundHeader.length_bytes, length_copyToArray, hid]
      rfl
  | modifyOrder m =>
      unfold wire ModifyOrderBuffer.bytes
      simp only [ModifyOrder.fill, prepareModifyOrderBuffer,
        List.length_append, List.length_cons, List.length_nil,
        Lib.length_leBytes, OutboundHeader.length_bytes, length_copyToArray,
        h.1, h.2]
      rfl

end BOE20

open BOE20

-- ==================================================================== frames

namespace BOE20Sender

/-- What no call changes: the configuration, and the free lists. -/
structure Keeps (s s' : BOE20Sender ι) : Prop where
  market : s'.market = s.market
  symbolArray : s'.symbolArray = s.symbolArray
  createClOrdID : s'.createClOrdID = s.createClOrdID
  noBufs : s'.noBufs = s.noBufs
  cxlBufs : s'.cxlBufs = s.cxlBufs
  modBufs : s'.modBufs = s.modBufs

/-- Nothing happens. -/
theorem Keeps.refl (s : BOE20Sender ι) : s.Keeps s :=
  ⟨rfl, rfl, rfl, rfl, rfl, rfl⟩

/-- Over several steps. -/
theorem Keeps.trans {s s' s'' : BOE20Sender ι} (h : s.Keeps s')
    (h' : s'.Keeps s'') : s.Keeps s'' where
  market := h'.market.trans h.market
  symbolArray := h'.symbolArray.trans h.symbolArray
  createClOrdID := h'.createClOrdID.trans h.createClOrdID
  noBufs := h'.noBufs.trans h.noBufs
  cxlBufs := h'.cxlBufs.trans h.cxlBufs
  modBufs := h'.modBufs.trans h.modBufs

/-- An id is noted down. -/
theorem keeps_insertId (s : BOE20Sender ι) (localID : Nat) (id : Bytes) :
    s.Keeps (s.insertId localID id) := by
  unfold insertId
  split <;> exact ⟨rfl, rfl, rfl, rfl, rfl, rfl⟩

/-- A message is handed to the connection, which may fail. -/
theorem keeps_write (s : BOE20Sender ι) (io : Io) : s.Keeps (s.write io) := by
  unfold write sendHelperNolock
  split <;> exact ⟨rfl, rfl, rfl, rfl, rfl, rfl⟩

/-- A buffer that was taken is put back. -/
theorem Keeps.released {s sender : BOE20Sender ι} {i : Nat}
    {bufs : List Nat} (h : { s with noBufs := bufs }.Keeps sender)
    (hs : s.noBufs = i :: bufs) :
    s.Keeps { sender with noBufs := i :: sender.noBufs } :=
  ⟨h.market, h.symbolArray, h.createClOrdID,
    (congrArg (i :: ·) h.noBufs).trans hs.symm, h.cxlBufs, h.modBufs⟩

/-- A buffer goes back to the free list on every path. -/
theorem keeps_sendNewOrder (s : BOE20Sender ι) (op : Order ι)
    (terms : OrderTerms) (io : Io) :
    s.Keeps (s.sendNewOrder op terms io).session := by
  unfold sendNewOrder
  cases hs : s.noBufs with
  | nil => exact .refl s
  | cons i noBufs =>
      dsimp only
      have hid := keeps_insertId { s with noBufs := noBufs } op.localID
        (s.createClOrdID op)
      cases sideFromOrder op.side with
      | none => exact hid.released hs
      | some side =>
          dsimp only
          split
          · exact hid.released hs
          · cases execInstFromOrder _ op.type terms.execInst with
            | none => exact hid.released hs
            | some execInst =>
                dsimp only
                cases ordTypeFromOrder op.type with
                | none => exact hid.released hs
                | some ordType =>
                    dsimp only
                    cases tifFromOrder op.tif with
                    | none => exact hid.released hs
                    | some tif =>
                        exact (hid.trans (keeps_write _ io)).released hs

/-- The same for a cancel. -/
theorem keeps_sendCancel (s : BOE20Sender ι) (op : Order ι)
    (terms : OrderTerms) (io : Io) :
    s.Keeps (s.sendCancel op terms io).session := by
  unfold sendCancel
  dsimp only
  have hid := keeps_insertId s op.localID
    ((s.idMap op.localID).getD (s.createClOrdID op))
  generalize s.insertId op.localID _ = sender at hid
  cases hs : sender.cxlBufs with
  | nil => exact hid
  | cons i cxlBufs =>
      have hwrite := keeps_write { sender with cxlBufs := cxlBufs } io
      exact hid.trans ⟨hwrite.market, hwrite.symbolArray,
        hwrite.createClOrdID, hwrite.noBufs,
        (congrArg (i :: ·) hwrite.cxlBufs).trans hs.symm, hwrite.modBufs⟩

/-- The same for a modify. -/
theorem keeps_sendModify (s : BOE20Sender ι) (op : Order ι) (newqty : Nat)
    (terms : OrderTerms) (io : Io) :
    s.Keeps (s.sendModify op newqty terms io).session := by
  unfold sendModify
  cases s.idMap op.localID with
  | none => exact .refl s
  | some id =>
      cases hs : s.modBufs with
      | nil => exact .refl s
      | cons i modBufs =>
          have hrefused : s.Keeps { s with modBufs := i :: modBufs } :=
            ⟨rfl, rfl, rfl, rfl, rfl, hs.symm⟩
          dsimp only
          cases ordTypeFromOrder op.type with
          | none => exact hrefused
          | some ordType =>
              dsimp only
              cases execInstFromOrder s.market op.type terms.execInst with
              | none => exact hrefused
              | some execInst =>
                  dsimp only
                  cases sideFromOrder op.side with
                  | none => exact hrefused
                  | some side =>
                      have hwrite := keeps_write
                        { s with modBufs := modBufs } io
                      exact ⟨hwrite.market, hwrite.symbolArray,
                        hwrite.createClOrdID, hwrite.noBufs, hwrite.cxlBufs,
                        (congrArg (i :: ·) hwrite.modBufs).trans hs.symm⟩

section Written

variable {s s' : BOE20Sender ι} (h : s.Keeps s')
  (hseqnum : s'.outboundSeqnum = s.outboundSeqnum)

include h hseqnum

/-- The message of an order, without a look at what came before. -/
theorem written_sendNewOrder (op : Order ι) (terms : OrderTerms)
    (io io' : Io) :
    (s'.sendNewOrder op terms io').written
      = (s.sendNewOrder op terms io).written := by
  unfold sendNewOrder
  rw [h.noBufs]
  cases s.noBufs with
  | nil => rfl
  | cons i noBufs =>
      dsimp only
      have hid := keeps_insertId { s with noBufs := noBufs } op.localID
        (s.createClOrdID op)
      have hid' := keeps_insertId { s' with noBufs := noBufs } op.localID
        (s.createClOrdID op)
      rw [h.createClOrdID, insertId_outboundSeqnum, insertId_outboundSeqnum,
        hid.market, hid'.market, hid.symbolArray, hid'.symbolArray]
      dsimp only
      rw [h.market, h.symbolArray, hseqnum]
      cases sideFromOrder op.side with
      | none => rfl
      | some side =>
          dsimp only
          split
          · rfl
          · cases execInstFromOrder s.market op.type terms.execInst with
            | none => rfl
            | some execInst =>
                dsimp only
                cases ordTypeFromOrder op.type with
                | none => rfl
                | some ordType =>
                    dsimp only
                    cases tifFromOrder op.tif <;> rfl

/-- What a cancel writes depends on the stored id, the free list and the
sequence number, and not on what the connection does. -/
theorem written_sendCancel {op : Order ι}
    (hid : s'.idMap op.localID = s.idMap op.localID) (terms : OrderTerms)
    (io io' : Io) :
    (s'.sendCancel op terms io').written
      = (s.sendCancel op terms io).written := by
  unfold sendCancel
  dsimp only
  rw [insertId_cxlBufs, insertId_cxlBufs, h.cxlBufs, hid, h.createClOrdID]
  cases s.cxlBufs with
  | nil => rfl
  | cons i cxlBufs =>
      dsimp only
      rw [insertId_outboundSeqnum, insertId_outboundSeqnum, hseqnum]

/-- The same for a modify. -/
theorem written_sendModify {op : Order ι}
    (hid : s'.idMap op.localID = s.idMap op.localID) (newqty : Nat)
    (terms : OrderTerms) (io io' : Io) :
    (s'.sendModify op newqty terms io').written
      = (s.sendModify op newqty terms io).written := by
  unfold sendModify
  dsimp only
  rw [hid, h.modBufs, h.market, hseqnum]
  cases s.idMap op.localID with
  | none => rfl
  | some id =>
      cases s.modBufs with
      | nil => rfl
      | cons i modBufs =>
          dsimp only
          cases ordTypeFromOrder op.type with
          | none => rfl
          | some ordType =>
              dsimp only
              cases execInstFromOrder s.market op.type terms.execInst with
              | none => rfl
              | some execInst =>
                  dsimp only
                  cases sideFromOrder op.side <;> rfl

end Written

end BOE20Sender

-- ================================================================ refinement

/-- A call that comes to the same as one of `BOE20Send.lean`, and gives the
connection the bytes of the message that is written there. -/
structure BufferedCall.Refines (conf : SenderConf ι) (r : BufferedCall ι)
    (r' : BOE20Call ι) : Prop where
  session : r.session.toBOE20Sender = r'.session
  order : r.order = r'.order
  terms : r.terms = r'.terms
  result : r.result = r'.result
  bytes : r.bytes = r'.written.map (OutboundMessage.wire conf)

namespace BOE20Buffers

/-- The buffers of all three stores. -/
structure Clean (conf : SenderConf ι) (s : BOE20Buffers ι) : Prop where
  noArray : ∀ i, (s.noArray i).Clean conf
  cxlArray : ∀ i, (s.cxlArray i).Clean conf
  modArray : ∀ i, (s.modArray i).Clean conf

/-- One element of an array is written. -/
theorem forall_update {β : Type} {p : β → Prop} {f : Nat → β}
    (h : ∀ i, p (f i)) (i : Nat) {b : β} (hb : p b) :
    ∀ j, p (Function.update f i b j) := by
  intro j
  rcases eq_or_ne j i with rfl | hne
  · rwa [Function.update_self]
  · rw [Function.update_of_ne hne]
    exact h j

section Calls

variable {conf : SenderConf ι} {s : BOE20Buffers ι} (h : s.Clean conf)

include h

/-- On each way out the buffer holds the fields that were written so far,
all of which the next message overwrites. -/
theorem sendNewOrder_refines (op : Order ι) (terms : OrderTerms) (io : Io) :
    (s.sendNewOrder op terms io).session.Clean conf
      ∧ (s.sendNewOrder op terms io).Refines conf
        (s.toBOE20Sender.sendNewOrder op terms io) := by
  unfold sendNewOrder BOE20Sender.sendNewOrder
  cases s.noBufs with
  | nil => exact ⟨h, rfl, rfl, rfl, rfl, rfl⟩
  | cons i noBufs =>
      have hi := h.noArray i
      have hstore (sender : BOE20Sender ι) {b : NewOrderBuffer}
          (hb : b.Clean conf) : Clean conf
            { s with
              toBOE20Sender := sender
              noArray := Function.update s.noArray i b } :=
        ⟨forall_update h.noArray i hb, h.cxlArray, h.modArray⟩
      dsimp only
      cases sideFromOrder op.side with
      | none => exact ⟨hstore _ hi, rfl, rfl, rfl, rfl, rfl⟩
      | some side =>
          dsimp only
          split
          · exact ⟨hstore _ hi, rfl, rfl, rfl, rfl, rfl⟩
          · cases execInstFromOrder _ op.type terms.execInst with
            | none => exact ⟨hstore _ hi, rfl, rfl, rfl, rfl, rfl⟩
            | some execInst =>
                dsimp only
                cases ordTypeFromOrder op.type with
                | none => exact ⟨hstore _ hi, rfl, rfl, rfl, rfl, rfl⟩
                | some ordType =>
                    dsimp only
                    cases tifFromOrder op.tif with
                    | none => exact ⟨hstore _ hi, rfl, rfl, rfl, rfl, rfl⟩
                    | some tif =>
                        exact ⟨hstore _ hi, rfl, rfl, rfl, rfl, hi.sent rfl⟩

/-- A cancel out of a recycled buffer. -/
theorem sendCancel_refines (op : Order ι) (terms : OrderTerms) (io : Io) :
    (s.sendCancel op terms io).session.Clean conf
      ∧ (s.sendCancel op terms io).Refines conf
        (s.toBOE20Sender.sendCancel op terms io) := by
  unfold sendCancel BOE20Sender.sendCancel
  dsimp only
  generalize s.insertId op.localID _ = sender
  cases sender.cxlBufs with
  | nil =>
      exact ⟨⟨h.noArray, h.cxlArray, h.modArray⟩, rfl, rfl, rfl, rfl, rfl⟩
  | cons i cxlBufs =>
      have hi := h.cxlArray i
      exact ⟨⟨h.noArray, forall_update h.cxlArray i hi, h.modArray⟩, rfl,
        rfl, rfl, rfl, hi.sent rfl⟩

/-- A modify out of a recycled buffer. -/
theorem sendModify_refines (op : Order ι) (newqty : Nat)
    (terms : OrderTerms) (io : Io) :
    (s.sendModify op newqty terms io).session.Clean conf
      ∧ (s.sendModify op newqty terms io).Refines conf
        (s.toBOE20Sender.sendModify op newqty terms io) := by
  unfold sendModify BOE20Sender.sendModify
  cases s.idMap op.localID with
  | none => exact ⟨h, rfl, rfl, rfl, rfl, rfl⟩
  | some id =>
      cases s.modBufs with
      | nil => exact ⟨h, rfl, rfl, rfl, rfl, rfl⟩
      | cons i modBufs =>
          have hi := h.modArray i
          have hstore (sender : BOE20Sender ι) {b : ModifyOrderBuffer}
              (hb : b.Clean conf) : Clean conf
                { s with
                  toBOE20Sender := sender
                  modArray := Function.update s.modArray i b } :=
            ⟨h.noArray, h.cxlArray, forall_update h.modArray i hb⟩
          dsimp only
          cases ordTypeFromOrder op.type with
          | none => exact ⟨hstore _ hi, rfl, rfl, rfl, rfl, rfl⟩
          | some ordType =>
              dsimp only
              cases execInstFromOrder _ op.type terms.execInst with
              | none => exact ⟨hstore _ hi, rfl, rfl, rfl, rfl, rfl⟩
              | some execInst =>
                  dsimp only
                  cases sideFromOrder op.side with
                  | none => exact ⟨hstore _ hi, rfl, rfl, rfl, rfl, rfl⟩
                  | some side =>
                      exact ⟨hstore _ hi, rfl, rfl, rfl, rfl, hi.sent rfl⟩

end Calls

-- ====================================================================== runs

/-- The same call of `BOE20Send.lean`. -/
def Call.onSender (c : Call ι) (s : BOE20Sender ι) (io : Io) :
    BOE20Call ι :=
  match c with
  | .newOrder op terms => s.sendNewOrder op terms io
  | .cancel op terms => s.sendCancel op terms io
  | .modify op newqty terms => s.sendModify op newqty terms io

/-- Any call: the buffers stay clean, and the bytes are those of the message. -/
theorem call_refines {conf : SenderConf ι} {s : BOE20Buffers ι}
    (h : s.Clean conf) (c : Call ι) (io : Io) :
    (s.call c io).session.Clean conf
      ∧ (s.call c io).Refines conf (c.onSender s.toBOE20Sender io) := by
  cases c with
  | newOrder op terms => exact sendNewOrder_refines h op terms io
  | cancel op terms => exact sendCancel_refines h op terms io
  | modify op newqty terms => exact sendModify_refines h op newqty terms io

/-- No call changes the configuration or the free lists. -/
theorem keeps_onSender (c : Call ι) (s : BOE20Sender ι) (io : Io) :
    s.Keeps (c.onSender s io).session := by
  cases c with
  | newOrder op terms => exact s.keeps_sendNewOrder op terms io
  | cancel op terms => exact s.keeps_sendCancel op terms io
  | modify op newqty terms => exact s.keeps_sendModify op newqty terms io

/-- Two senders that agree on these and on the order's id write the same. -/
theorem written_onSender {s s' : BOE20Sender ι} (h : s.Keeps s')
    (hseqnum : s'.outboundSeqnum = s.outboundSeqnum) (c : Call ι)
    (hid : s'.idMap c.order.localID = s.idMap c.order.localID)
    (io io' : Io) :
    (c.onSender s' io').written = (c.onSender s io).written := by
  cases c with
  | newOrder op terms =>
      exact BOE20Sender.written_sendNewOrder h hseqnum op terms io io'
  | cancel op terms =>
      exact BOE20Sender.written_sendCancel h hseqnum hid terms io io'
  | modify op newqty terms =>
      exact BOE20Sender.written_sendModify h hseqnum hid newqty terms io io'

/-- A new session, whose memory was blank. -/
def fresh (conf : SenderConf ι) (outboundSeqnum : UInt32) :
    BOE20Buffers ι :=
  create conf default default default outboundSeqnum

/-- What a session that knows an id of the order, or none, and is at this
sequence number sends for it with buffers nobody has used. -/
def sentFor (conf : SenderConf ι) (c : Call ι) (id : Option Bytes)
    (outboundSeqnum : UInt32) : Option Bytes :=
  ({ fresh conf outboundSeqnum with idMap := fun _ => id }.call c
    ⟨0, ⟨0, 0⟩, ⟨0, 0⟩⟩).bytes

/-- Buffers of `conf`, all of them free. -/
structure Ready (conf : SenderConf ι) (s : BOE20Buffers ι) : Prop where
  clean : s.Clean conf
  keeps : (fresh conf 0).toBOE20Sender.Keeps s.toBOE20Sender

/-- Buffers that were just prepared are clean. -/
theorem ready_create (conf : SenderConf ι) (noMem cxlMem modMem)
    (outboundSeqnum : UInt32) :
    (create conf noMem cxlMem modMem outboundSeqnum).Ready conf where
  clean := ⟨fun _ _ => rfl, fun _ _ => rfl, fun _ _ => rfl⟩
  keeps := ⟨rfl, rfl, rfl, rfl, rfl, rfl⟩

/-- The invariant: a call leaves all the buffers clean, whether it comes
through or not. -/
theorem Ready.step {conf : SenderConf ι} {s : BOE20Buffers ι}
    (h : s.Ready conf) (e : Call ι × Io) : (s.step e).Ready conf := by
  obtain ⟨hclean, hrefines⟩ := call_refines h.clean e.1 e.2
  refine ⟨hclean, ?_⟩
  change (fresh conf 0).toBOE20Sender.Keeps
    (s.call e.1 e.2).session.toBOE20Sender
  rw [hrefines.session]
  exact h.keeps.trans (keeps_onSender e.1 s.toBOE20Sender e.2)

/-- So what a call sends is known from the order, its id and the sequence
number. -/
theorem Ready.sent {conf : SenderConf ι} {s : BOE20Buffers ι}
    (h : s.Ready conf) (c : Call ι) (io : Io) :
    (s.call c io).bytes
      = sentFor conf c (s.idMap c.order.localID) s.outboundSeqnum := by
  have hfresh : Ready conf
      { fresh conf s.outboundSeqnum with
        idMap := fun _ => s.idMap c.order.localID } :=
    ⟨⟨fun _ _ => rfl, fun _ _ => rfl, fun _ _ => rfl⟩,
      ⟨rfl, rfl, rfl, rfl, rfl, rfl⟩⟩
  have hkeeps : BOE20Sender.Keeps
      { (fresh conf s.outboundSeqnum).toBOE20Sender with
        idMap := fun _ => s.idMap c.order.localID } s.toBOE20Sender :=
    ⟨h.keeps.market, h.keeps.symbolArray, h.keeps.createClOrdID,
      h.keeps.noBufs, h.keeps.cxlBufs, h.keeps.modBufs⟩
  unfold sentFor
  rw [(call_refines h.clean c io).2.bytes,
    (call_refines hfresh.clean c _).2.bytes]
  exact congrArg _ (written_onSender hkeeps rfl c rfl _ io)

/-- Whatever was sent or refused before, and whatever was in memory when the
session began: every buffer is free exactly once, and what is sent for an
order is what a session with unused buffers sends for it, given the id that
is stored for the order and the sequence number. -/
theorem recycled_buffers_leak_nothing (conf : SenderConf ι)
    (noMem : Nat → NewOrderBuffer) (cxlMem : Nat → CancelOrderBuffer)
    (modMem : Nat → ModifyOrderBuffer) (outboundSeqnum : UInt32)
    (h : List (Call ι × Io)) :
    let s := Lib.run step (create conf noMem cxlMem modMem outboundSeqnum) h
    (s.noBufs.Perm (List.range numMsgBuffers)
        ∧ s.cxlBufs.Perm (List.range numMsgBuffers)
        ∧ s.modBufs.Perm (List.range numMsgBuffers))
      ∧ ∀ c io, (s.call c io).bytes
        = sentFor conf c (s.idMap c.order.localID) s.outboundSeqnum := by
  intro s
  have hready : s.Ready conf :=
    Lib.run_induction (fun _ e h => h.step e)
      (ready_create conf noMem cxlMem modMem outboundSeqnum)
  exact ⟨⟨.of_eq hready.keeps.noBufs, .of_eq hready.keeps.cxlBufs,
    .of_eq hready.keeps.modBufs⟩, hready.sent⟩

end BOE20Buffers

end TradingEngine.OE
