/-
Order tokens round-trip: what is set from a number is read back as that
number, and so the ids that go out in BOE and OUCH messages come back as
the local ids they were made of.

# Where it is used

The loop of `set` puts the lowest digit first, and the loop of `get` takes
the places in the same order with a growing multiplier. So the round trip is
one induction over the places (`Alphanumeric.get_set`), for any base and
width, either side of the padding, and any unsigned type that the number
fits. The ids of both protocols are instances of it: a BOE id has a field for
the account and one for the local id, an OUCH token has one for the local id.
-/
import TradingEngine.OE.BOE20ClOrdID
import TradingEngine.OE.OUCH42Send

namespace TradingEngine.OE

open BOE20 OUCH42

variable {ι : Type}

/-- The id of a token is the order's local id. -/
theorem get_createOrderTokenHpr {brokerLocate : Fin 4}
    {symbolCache : ι → Bytes} {o : Order ι} {t : HPRData}
    (ht : createOrderTokenHpr brokerLocate symbolCache o = some t)
    (hid : o.localID < 4294967296) : hprID.get 32 t.id = o.localID := by
  unfold createOrderTokenHpr at ht
  obtain ⟨m, -, rfl⟩ := Option.map_eq_some_iff.mp ht
  refine Alphanumeric.get_set (.inl rfl) hid ?_
  show _ < 62 ^ 8
  omega

/-- A number is set exactly if it fits the width, and then it is what is
read back, in any unsigned type that has it. So the BOE id of an order gives
back its local id, and names one account and local id only, and the id of an
OUCH token is the local id. -/
theorem tokens_round_trip {a : Alphanumeric} (hpad : a.PadSound)
    {bits n : Nat} (hn : n < 2 ^ bits) (loc : UInt8) (acct : UInt16)
    (id : UInt32) (sym : Bytes) {brokerLocate : Fin 4}
    {symbolCache : ι → Bytes} {o : Order ι} {t : HPRData}
    (ht : createOrderTokenHpr brokerLocate symbolCache o = some t)
    (hid : o.localID < 4294967296) :
    ((a.set n).1 = true ↔ n < a.base ^ a.outWidth)
      ∧ ((a.set n).1 = true → a.get bits (a.set n).2 = n)
      ∧ (HPRFields.set loc acct id sym).read.localID = id.toNat
      ∧ (∀ loc' acct' id' sym', (acct, id) ≠ (acct', id') →
          (HPRFields.set loc acct id sym).orderID
            ≠ (HPRFields.set loc' acct' id' sym').orderID)
      ∧ hprID.get 32 t.id = o.localID := by
  have hset := a.set_fits_iff n
  refine ⟨hset, fun h => Alphanumeric.get_set hpad hn (hset.mp h),
    HPRFields.localID_read_set loc acct id sym, ?_,
    get_createOrderTokenHpr ht hid⟩
  intro loc' acct' id' sym' hne h
  obtain ⟨rfl, rfl⟩ := HPRFields.set_inj h
  exact hne rfl

/-- Two bytes in a field of two, and a BOE and an OUCH id. -/
theorem tokens_round_trip_demo :
    let a : Alphanumeric := ⟨2, false, false, 32⟩
    let o := Order.create (OrderParams.dayLimit 0 .buy 10 5)
    ((a.set 35).1 = true ↔ 35 < a.base ^ a.outWidth)
      ∧ ((a.set 35).1 = true → a.get 8 (a.set 35).2 = 35)
      ∧ (HPRFields.set 65 3 7 []).read.localID = (7 : UInt32).toNat
      ∧ (∀ loc' acct' id' sym', ((3 : UInt16), (7 : UInt32)) ≠ (acct', id') →
          (HPRFields.set 65 3 7 []).orderID
            ≠ (HPRFields.set loc' acct' id' sym').orderID)
      ∧ hprID.get 32 (hprID.set o.localID).2 = o.localID :=
  tokens_round_trip (a := ⟨2, false, false, 32⟩) (by decide) (by decide) 65 3 7
    []
    (show createOrderTokenHpr 0 (fun _ : Nat => [])
      (.create (.dayLimit 0 .buy 10 5)) = some _ from rfl) (by decide)

end TradingEngine.OE
