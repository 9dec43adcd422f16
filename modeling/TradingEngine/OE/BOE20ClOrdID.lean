/-
`oe/BATS/BOE20/Types.hpp`: the client order id in HPR's format, as it is on
the wire, and `create_cl_ord_id`, which makes it.

`BOE20.ClOrdID` is the same id as the handlers of messages read it.
-/
import TradingEngine.Core.Alphanumeric
import TradingEngine.OE.BOE20Session
import TradingEngine.Lib.Bytes

namespace TradingEngine.OE

variable {ι : Type}

namespace BOE20

/-- `LocalClOrdID::create`: account and local id in 64 bits. -/
def LocalClOrdID.create (acct : UInt16) (id : UInt32) : UInt64 :=
  acct.toUInt64 <<< 32 ||| id.toUInt64

/-- `OurClOrdID`. -/
def ourClOrdID : Alphanumeric := ⟨13, true, true, 48⟩

/-- `ClOrdID::HPRFields`. -/
structure HPRFields where
  brokerLoc : UInt8
  symbol : Bytes
  orderID : Bytes
  deriving DecidableEq

namespace HPRFields

/-- `ClOrdID::set`. -/
def set (loc : UInt8) (acct : UInt16) (id : UInt32) (sym : Bytes) :
    HPRFields where
  brokerLoc := loc
  symbol := sym
  orderID := (ourClOrdID.set (LocalClOrdID.create acct id).toNat).2

/-- `get_local_id`, in a type of so many bits. -/
def getLocalID (bits : Nat) (f : HPRFields) : Nat :=
  ourClOrdID.get bits f.orderID

/-- `ClOrdID::arr`. -/
def arr (f : HPRFields) : Bytes := f.brokerLoc :: f.symbol ++ f.orderID

/-- The id as it is read from a message. -/
def read (f : HPRFields) : ClOrdID :=
  ⟨.ofNat f.brokerLoc.toNat, f.getLocalID 64⟩

end HPRFields

/-- The symbol of `create_cl_ord_id`: six characters, with `'0'` for those
that are null. -/
def hprSymbol (batsSymbol : Bytes) : Bytes :=
  (List.range 6).map fun i =>
    if Lib.byteAt batsSymbol i ≠ 0 then Lib.byteAt batsSymbol i else 48

/-- `create_cl_ord_id`, with the broker locate code and the symbols of the
session. -/
def createClOrdID (hprBrokerLoc : UInt8) (batsSymbolArray : ι → Bytes)
    (op : Order ι) : HPRFields :=
  .set hprBrokerLoc (.ofNat op.localAccount) (.ofNat op.localID)
    (hprSymbol (batsSymbolArray op.instrument))

-- ================================================================ round trip

theorem LocalClOrdID.toNat_create (acct : UInt16) (id : UInt32) :
    (create acct id).toNat = 4294967296 * acct.toNat + id.toNat := by
  have hacct : acct.toNat < 65536 := acct.toNat_lt
  have hid : id.toNat < 2 ^ 32 := id.toNat_lt
  have hshift : (acct.toUInt64 <<< 32).toNat = 2 ^ 32 * acct.toNat := by
    rw [UInt64.toNat_shiftLeft, UInt16.toNat_toUInt64]
    show acct.toNat <<< 32 % 2 ^ 64 = _
    rw [Nat.shiftLeft_eq]
    omega
  unfold create
  rw [UInt64.toNat_or, hshift, UInt32.toNat_toUInt64,
    ← Nat.two_pow_add_eq_or_of_lt hid]

/-- Thirteen places are enough for account and local id. -/
theorem HPRFields.getLocalID_set (loc : UInt8) (acct : UInt16)
    (id : UInt32) (sym : Bytes) :
    (set loc acct id sym).getLocalID 64
      = 4294967296 * acct.toNat + id.toNat := by
  have hacct : acct.toNat < 65536 := acct.toNat_lt
  have hid : id.toNat < 4294967296 := id.toNat_lt
  have hvalue := LocalClOrdID.toNat_create acct id
  unfold getLocalID set
  dsimp only
  rw [Alphanumeric.get_set (.inl rfl) (LocalClOrdID.create acct id).toNat_lt]
  · exact hvalue
  · rw [hvalue]
    show _ < 62 ^ 13
    omega

/-- The local id is what the cast to 32 bits leaves of it. -/
theorem HPRFields.localID_read_set (loc : UInt8) (acct : UInt16)
    (id : UInt32) (sym : Bytes) :
    (set loc acct id sym).read.localID = id.toNat := by
  have hid : id.toNat < 4294967296 := id.toNat_lt
  show u32 ((set loc acct id sym).getLocalID 64 : Int) = _
  rw [getLocalID_set]
  unfold u32
  omega

/-- An order id stands for one account and one local id. -/
theorem HPRFields.set_inj {loc loc' : UInt8} {acct acct' : UInt16}
    {id id' : UInt32} {sym sym' : Bytes}
    (h : (set loc acct id sym).orderID = (set loc' acct' id' sym').orderID) :
    acct = acct' ∧ id = id' := by
  have hid : id.toNat < 4294967296 := id.toNat_lt
  have hid' : id'.toNat < 4294967296 := id'.toNat_lt
  have hget := congrArg (ourClOrdID.get 64) h
  change getLocalID 64 _ = getLocalID 64 _ at hget
  rw [getLocalID_set, getLocalID_set] at hget
  exact ⟨UInt16.toNat_inj.mp (by omega), UInt32.toNat_inj.mp (by omega)⟩

end BOE20

end TradingEngine.OE
