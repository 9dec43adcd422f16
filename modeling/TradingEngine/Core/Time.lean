/-
`core/Time.hpp`: the time of the day of a `Timestamp`.
-/
import TradingEngine.OE.Types

namespace TradingEngine.OE.Timestamp

/-- `86400ULL * 1000ULL`. -/
def dayMillis : Nat := 86400000

/-- `milliseconds_since_midnight`, in unsigned arithmetic. -/
def millisecondsSinceMidnight (t : Timestamp) : UInt64 :=
  (.ofInt t.sec * 1000 + .ofInt t.nsec / 1000000) % 86400000

/-- Milliseconds since the epoch. -/
def millis (t : Timestamp) : Nat := (t.sec * 1000 + t.nsec / 1000000).toNat

/-- What a clock shows: not before the epoch, with nanoseconds of a second,
and with milliseconds that fit 64 bits. -/
structure OfClock (t : Timestamp) : Prop where
  sec_nonneg : 0 ≤ t.sec
  nsec_nonneg : 0 ≤ t.nsec
  nsec_lt : t.nsec < 1000000000
  fits : t.sec * 1000 + 999 < 18446744073709551616

instance (t : Timestamp) : Decidable t.OfClock :=
  decidable_of_iff (0 ≤ t.sec ∧ 0 ≤ t.nsec ∧ t.nsec < 1000000000
      ∧ t.sec * 1000 + 999 < 18446744073709551616)
    ⟨fun h => ⟨h.1, h.2.1, h.2.2.1, h.2.2.2⟩,
      fun h => ⟨h.sec_nonneg, h.nsec_nonneg, h.nsec_lt, h.fits⟩⟩

theorem toNat_ofInt {z : Int} (h0 : 0 ≤ z) (h1 : z < 18446744073709551616) :
    (UInt64.ofInt z).toNat = z.toNat := by
  unfold UInt64.ofInt
  rw [UInt64.toNat_ofNat']
  omega

/-- Nothing wraps in the milliseconds of a clock's time. -/
theorem toNat_millisecondsSinceMidnight {t : Timestamp} (h : t.OfClock) :
    t.millisecondsSinceMidnight.toNat = t.millis % dayMillis := by
  obtain ⟨hs, hn, hlt, hfits⟩ := h
  have hsec : (UInt64.ofInt t.sec).toNat = t.sec.toNat :=
    toNat_ofInt hs (by omega)
  have hnsec : (UInt64.ofInt t.nsec).toNat = t.nsec.toNat :=
    toNat_ofInt hn (by omega)
  have hmul : (UInt64.ofInt t.sec * 1000).toNat = t.sec.toNat * 1000 := by
    rw [UInt64.toNat_mul, hsec]
    exact Nat.mod_eq_of_lt (by show t.sec.toNat * 1000 < _; omega)
  have hdiv : (UInt64.ofInt t.nsec / 1000000).toNat
      = t.nsec.toNat / 1000000 := by
    rw [UInt64.toNat_div, hnsec]
    rfl
  have hmillis : t.millis = t.sec.toNat * 1000 + t.nsec.toNat / 1000000 := by
    unfold millis
    omega
  unfold millisecondsSinceMidnight dayMillis
  rw [UInt64.toNat_mod, UInt64.toNat_add, hmul, hdiv, hmillis,
    Nat.mod_eq_of_lt (by omega : _ < 2 ^ 64)]
  rfl

end TradingEngine.OE.Timestamp
