/-
`core/Time.hpp`: the arithmetic and the order of `Timestamp`.

`operator+` carries through the constructor, which takes whole seconds out
of the nanoseconds; its own test afterwards finds nothing. `operator+=`
carries by itself: at a sum of just a second it leaves the nanoseconds as
they are, and above it takes a second off instead of adding one.

Seconds and nanoseconds are 64 bits wide. Sums and differences wrap here,
which in the source a signed overflow need not do.
-/
import TradingEngine.OE.Types

namespace TradingEngine.OE.Timestamp

-- ================================================================ arithmetic

/-- The value of 64 bits as `time_t` or `long`. -/
def signed (z : Int) : Int :=
  (z + 9223372036854775808) % 18446744073709551616 - 9223372036854775808

/-- The value of 64 bits as `unsigned long long`. -/
def unsigned (z : Int) : Int := z % 18446744073709551616

/-- `Timestamp(const time_t s, const long n)`. -/
def make (s n : Int) : Timestamp :=
  let m := signed (unsigned n % 1000000000)
  { sec := signed (unsigned s + unsigned (n - m) / 1000000000), nsec := m }

/-- `operator+`. -/
def add (a t : Timestamp) : Timestamp :=
  let sum := make (signed (a.sec + t.sec)) (signed (a.nsec + t.nsec))
  if sum.nsec > 1000000000 then
    { sec := signed (sum.sec + 1), nsec := sum.nsec - 1000000000 }
  else
    sum

/-- `operator+=`. -/
def addAssign (a t : Timestamp) : Timestamp :=
  let sec := signed (a.sec + t.sec)
  let nsec := signed (a.nsec + t.nsec)
  if nsec > 1000000000 then
    { sec := signed (sec - 1), nsec := nsec - 1000000000 }
  else
    { sec := sec, nsec := nsec }

/-- `operator-`. -/
def sub (a t : Timestamp) : Timestamp :=
  let diff := make (signed (a.sec - t.sec)) 0
  if t.nsec > a.nsec then
    { sec := signed (diff.sec - 1)
      nsec := signed (signed (a.nsec + 1000000000) - t.nsec) }
  else
    { diff with nsec := signed (a.nsec - t.nsec) }

/-- `operator-=`. -/
def subAssign (a t : Timestamp) : Timestamp :=
  let sec := signed (a.sec - t.sec)
  if t.nsec > a.nsec then
    { sec := signed (sec - 1)
      nsec := signed (signed (a.nsec + 1000000000) - t.nsec) }
  else
    { sec := sec, nsec := signed (a.nsec - t.nsec) }

-- ===================================================================== order

/-- `operator==`. -/
def eq (a b : Timestamp) : Bool := a.sec == b.sec && a.nsec == b.nsec

/-- `operator!=`. -/
def ne (a b : Timestamp) : Bool := !a.eq b

/-- `operator<`. -/
def lt (a b : Timestamp) : Bool :=
  decide (a.sec < b.sec) || (a.sec == b.sec && decide (a.nsec < b.nsec))

/-- `operator<=` of timestamps. -/
def le (a b : Timestamp) : Bool :=
  a == b || decide (a.sec < b.sec)
    || (a.sec == b.sec && decide (a.nsec < b.nsec))

/-- `operator>`. -/
def gt (a b : Timestamp) : Bool := !a.le b

/-- `operator>=`. -/
def ge (a b : Timestamp) : Bool := !a.lt b

theorem eq_iff {a b : Timestamp} : a.eq b = true ↔ a = b := by
  unfold eq
  cases a
  cases b
  simp

theorem lt_iff {a b : Timestamp} :
    a.lt b = true ↔ a.sec < b.sec ∨ a.sec = b.sec ∧ a.nsec < b.nsec := by
  simp [lt]

/-- `<=` is `==` or `<`. -/
theorem le_eq (a b : Timestamp) : a.le b = (a.eq b || a.lt b) := by
  have heq : (a == b) = a.eq b := by
    rw [Bool.eq_iff_iff, beq_iff_eq, eq_iff]
  unfold le lt
  rw [heq, Bool.or_assoc]

theorem gt_eq_false {a b : Timestamp} :
    a.gt b = false
      ↔ a.sec < b.sec ∨ a.sec = b.sec ∧ a.nsec ≤ b.nsec := by
  have hle : a.gt b = false ↔ a.le b = true := by
    unfold gt
    simp
  rw [hle, le_eq, Bool.or_eq_true, eq_iff,
    lt_iff]
  constructor
  · intro h
    rcases h with heq | hlt
    · rw [heq]
      omega
    · omega
  · intro h
    by_cases heq : a.sec = b.sec ∧ a.nsec = b.nsec
    · left
      cases a
      cases b
      simp only at heq
      rw [heq.1, heq.2]
    · right
      omega

-- ================================================================ normalized

/-- Not before the epoch, with the nanoseconds of a second, and with seconds
that `time_t` holds. -/
structure Normalized (t : Timestamp) : Prop where
  sec_nonneg : 0 ≤ t.sec
  sec_fits : t.sec < 9223372036854775808
  nsec_nonneg : 0 ≤ t.nsec
  nsec_lt : t.nsec < 1000000000

instance (t : Timestamp) : Decidable t.Normalized :=
  decidable_of_iff (0 ≤ t.sec ∧ t.sec < 9223372036854775808
      ∧ 0 ≤ t.nsec ∧ t.nsec < 1000000000)
    ⟨fun h => ⟨h.1, h.2.1, h.2.2.1, h.2.2.2⟩,
      fun h => ⟨h.sec_nonneg, h.sec_fits, h.nsec_nonneg, h.nsec_lt⟩⟩

/-- With the nanoseconds of a second. -/
def SubSecond (t : Timestamp) : Prop := 0 ≤ t.nsec ∧ t.nsec < 1000000000

theorem Normalized.subSecond {t : Timestamp} (h : t.Normalized) :
    t.SubSecond := ⟨h.nsec_nonneg, h.nsec_lt⟩

theorem signed_eq {z : Int} (h0 : -9223372036854775808 ≤ z)
    (h1 : z < 9223372036854775808) :
    signed z = z := by
  unfold signed
  omega

theorem unsigned_eq {z : Int} (h0 : 0 ≤ z) (h1 : z < 9223372036854775808) :
    unsigned z = z := by
  unfold unsigned
  omega

/-- The constructor takes whole seconds out of the nanoseconds. -/
theorem make_of_nonneg {s n : Int} (h0 : 0 ≤ n)
    (h1 : n < 9223372036854775808) :
    make s n = ⟨signed (s + n / 1000000000), n % 1000000000⟩ := by
  have hm : signed (unsigned n % 1000000000) = n % 1000000000 := by
    rw [unsigned_eq h0 h1]
    exact signed_eq (by omega) (by omega)
  have hq : unsigned (n - n % 1000000000) / 1000000000
      = n / 1000000000 := by
    rw [unsigned_eq (by omega) (by omega)]
    omega
  unfold make
  dsimp only
  rw [hm, hq]
  congr 1
  unfold signed unsigned
  omega

end TradingEngine.OE.Timestamp
