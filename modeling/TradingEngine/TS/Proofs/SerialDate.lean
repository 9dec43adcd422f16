/-
Serial dates count the days from 1 January 1900.

The loop over the years ends in 1900 whatever the month is. Before March it
takes off the years passed; from March on it takes off the distance of a day
to the same day a year before, and the switch then counts the February of
1900, which has 29 days as any leap year's. Both come to `dayNumber`
(`dateFromYyyymmdd_of_valid`), up to the 32 bits of the result.

# Counting

That the numbers count is a fact about the calendar (`Lib/Calendar`): the day
after a date has the next number, within a month, at its end and at the end
of a year. What is proved here is that the function computes that number. The
loop is an induction over the years from 1900 on, for each side of February;
the switch over the months falls through and adds up their lengths; and the
checks throw for exactly the dates that are not in the calendar.
-/
import TradingEngine.TS.SerialDate
import TradingEngine.Lib.Calendar

namespace TradingEngine.TS.TPS

open Lib (CalendarDate daysBeforeMonth daysBeforeYear monthLength yearLength
  yearSteps)

-- ================================================================== calendar

/-- The rule for leap years, with 1900 among them. -/
def leapYear (year : Nat) : Bool :=
  year = 1900 ∨ year % 400 = 0 ∨ year % 100 ≠ 0 ∧ year % 4 = 0

/-- The date that three numbers stand for. -/
def calendarDate (yyyy mm dd : UInt32) : CalendarDate :=
  ⟨yyyy.toNat, mm.toNat, dd.toNat⟩

/-- A date from 1900 on. -/
def ValidDate (yyyy mm dd : UInt32) : Prop :=
  (calendarDate yyyy mm dd).Valid leapYear 1900

/-- Its number, 1 January 1900 being 1. -/
def serialNumber (yyyy mm dd : UInt32) : Nat :=
  (calendarDate yyyy mm dd).dayNumber leapYear 1900

/-- Equality of 32-bit numbers, as numbers. -/
theorem eq_iff_toNat {a b : UInt32} : a = b ↔ a.toNat = b.toNat :=
  UInt32.toNat_inj.symm

/-- `is_leap_year` is the rule, and says yes to 1900. -/
theorem isLeapYear_eq (yy : UInt32) : isLeapYear yy = leapYear yy.toNat := by
  unfold isLeapYear leapYear
  simp only [eq_iff_toNat, UInt32.toNat_mod, UInt32.reduceToNat]
  split
  · simp [*]
  · split
    · simp [*]
    · split
      · simp [*]
      · split <;> simp [*]

-- ==================================================================== checks

/-- What the checks make of a date: day and days counted beforehand, or an
error. -/
def Checks (r : Except String (UInt32 × UInt32)) (dd : UInt32)
    (valid : Prop) : Prop :=
  (∃ day ret, r = .ok (day, ret) ∧ ret + day = dd ∧ valid)
    ∨ ∃ e, r = .error e ∧ ¬valid

/-- The last check, against the length of the month. -/
theorem checks_day {dd limit : UInt32} {valid : Prop}
    (h : valid ↔ dd.toNat ≤ limit.toNat) :
    Checks (if dd > limit then .error invalidDay else .ok (dd, 0)) dd
      valid := by
  by_cases hdd : dd > limit
  · rw [if_pos hdd]
    refine .inr ⟨invalidDay, rfl, ?_⟩
    rw [h]
    exact Nat.not_le_of_lt (UInt32.lt_iff_toNat_lt.mp hdd)
  · rw [if_neg hdd]
    refine .inl ⟨dd, 0, rfl, UInt32.zero_add dd, ?_⟩
    rw [h]
    exact UInt32.le_iff_toNat_le.mp (UInt32.not_lt.mp hdd)

/-- The months of 31 days, as the switch has them. -/
theorem monthLength_of_31 {mm : UInt32} (h : mm = 1 ∨ mm = 3 ∨ mm = 5 ∨ mm = 7
    ∨ mm = 8 ∨ mm = 10 ∨ mm = 12) (year : Nat) :
    monthLength leapYear year mm.toNat = (31 : UInt32).toNat := by
  rcases h with rfl | rfl | rfl | rfl | rfl | rfl | rfl <;> rfl

/-- And those of 30. -/
theorem monthLength_of_30 {mm : UInt32}
    (h : mm = 4 ∨ mm = 6 ∨ mm = 9 ∨ mm = 11) (year : Nat) :
    monthLength leapYear year mm.toNat = (30 : UInt32).toNat := by
  rcases h with rfl | rfl | rfl | rfl <;> rfl

/-- February, with its 29th. -/
theorem checks_february {yyyy dd : UInt32} {valid : Prop}
    (h : valid ↔ dd.toNat ≤ monthLength leapYear yyyy.toNat 2) :
    Checks (if dd = 29 then
        if (!isLeapYear yyyy) = true then .error invalidDay else .ok (1, 28)
      else if dd > 28 then .error invalidDay else .ok (dd, 0)) dd valid := by
  have hlength : monthLength leapYear yyyy.toNat 2
      = if leapYear yyyy.toNat = true then 29 else 28 := rfl
  rw [hlength] at h
  by_cases hdd : dd = 29
  · subst hdd
    rw [if_pos rfl, isLeapYear_eq]
    cases hleap : leapYear yyyy.toNat with
    | true =>
        refine .inl ⟨1, 28, rfl, rfl, ?_⟩
        rw [h, hleap]
        decide
    | false =>
        refine .inr ⟨invalidDay, rfl, ?_⟩
        rw [h, hleap]
        decide
  · rw [if_neg hdd]
    apply checks_day
    have hne : dd.toNat ≠ 29 := fun heq => hdd (eq_iff_toNat.mpr heq)
    have hlimit : (28 : UInt32).toNat = 28 := rfl
    rw [h, hlimit]
    split <;> omega

/-- The checks let the valid dates through, and no others. -/
theorem checkDate_spec (yyyy mm dd : UInt32) :
    Checks (checkDate yyyy mm dd) dd (ValidDate yyyy mm dd) := by
  unfold checkDate
  split
  case isTrue hyear =>
    refine .inr ⟨invalidYear, rfl, fun h => ?_⟩
    have hle : 1900 ≤ yyyy.toNat := h.year
    exact absurd (UInt32.lt_iff_toNat_lt.mp hyear) (Nat.not_lt_of_le hle)
  case isFalse hyear =>
  have hyear' : 1900 ≤ yyyy.toNat :=
    UInt32.le_iff_toNat_le.mp (UInt32.not_lt.mp hyear)
  split
  case isTrue hmonth =>
    refine .inr ⟨invalidMonth, rfl, fun h => ?_⟩
    have hrange : 1 ≤ mm.toNat ∧ mm.toNat ≤ 12 := h.month
    rcases hmonth with hlow | hhigh
    · exact absurd (UInt32.lt_iff_toNat_lt.mp hlow)
        (Nat.not_lt_of_le hrange.1)
    · exact absurd (UInt32.lt_iff_toNat_lt.mp hhigh)
        (Nat.not_lt_of_le hrange.2)
  case isFalse hmonth =>
  have hmonth' : 1 ≤ mm.toNat ∧ mm.toNat ≤ 12 :=
    ⟨UInt32.le_iff_toNat_le.mp
        (UInt32.not_lt.mp fun h => hmonth (.inl h)),
      UInt32.le_iff_toNat_le.mp
        (UInt32.not_lt.mp fun h => hmonth (.inr h))⟩
  split
  case isTrue hday =>
    refine .inr ⟨invalidDay, rfl, fun h => ?_⟩
    have hle : 1 ≤ dd.toNat := h.day.1
    exact absurd (UInt32.lt_iff_toNat_lt.mp hday) (Nat.not_lt_of_le hle)
  case isFalse hday =>
  have hday' : 1 ≤ dd.toNat :=
    UInt32.le_iff_toNat_le.mp (UInt32.not_lt.mp hday)
  have hvalid : ValidDate yyyy mm dd
      ↔ dd.toNat ≤ monthLength leapYear yyyy.toNat mm.toNat :=
    ⟨fun h => h.day.2, fun h => ⟨hyear', hmonth', hday', h⟩⟩
  split
  case isTrue hlong =>
    apply checks_day
    rw [hvalid, monthLength_of_31 hlong]
  case isFalse hlong =>
  split
  case isTrue hfebruary =>
    subst hfebruary
    exact checks_february hvalid
  case isFalse hfebruary =>
  split
  case isTrue hshort =>
    apply checks_day
    rw [hvalid, monthLength_of_30 hshort]
  case isFalse hshort =>
    -- no month is left
    exfalso
    simp only [eq_iff_toNat, UInt32.reduceToNat] at hlong hfebruary hshort
    omega

-- ===================================================================== years

/-- The days that the loop takes off, by the side of February. -/
def daysWalked (mm : UInt32) (n : Nat) : Nat :=
  if mm > 2 then yearSteps leapYear 1900 n
  else daysBeforeYear leapYear 1900 n

/-- One year more is one turn of the loop more. -/
theorem daysWalked_succ (mm : UInt32) (n : Nat) :
    daysWalked mm (n + 1)
      = daysWalked mm n
        + yearLength leapYear
          (if mm > 2 then 1900 + (n + 1) else 1900 + n) := by
  unfold daysWalked
  split
  · rfl
  · rfl

/-- Days are summed up with the wrap of 32 bits. -/
theorem add_ofNat_add_ofNat (ret : UInt32) (a b : Nat) :
    ret + UInt32.ofNat a + UInt32.ofNat b = ret + UInt32.ofNat (b + a) := by
  rw [UInt32.ofNat_add, UInt32.add_comm (UInt32.ofNat b), UInt32.add_assoc]

/-- The loop ends in 1900 with the days of all the years between. -/
theorem walkYears_eq (mm : UInt32) {n turns : Nat} (hturns : n ≤ turns)
    {yyyy : UInt32} (hyear : yyyy.toNat = 1900 + n) (ret : UInt32) :
    walkYears mm turns yyyy ret
      = (1900, ret + UInt32.ofNat (daysWalked mm n)) := by
  induction n generalizing turns yyyy ret with
  | zero =>
      have hstart : yyyy = 1900 := eq_iff_toNat.mpr hyear
      have hnone : daysWalked mm 0 = 0 := by
        unfold daysWalked
        split <;> rfl
      rw [hnone, hstart]
      cases turns with
      | zero => simp [walkYears]
      | succ turns => simp [walkYears]
  | succ n ih =>
      obtain ⟨turns, rfl⟩ : ∃ k, turns = k + 1 :=
        ⟨turns - 1, by omega⟩
      have hgt : yyyy > 1900 := by
        rw [gt_iff_lt, UInt32.lt_iff_toNat_lt, hyear]
        exact Nat.lt_add_of_pos_right (Nat.succ_pos n)
      have hback : (yyyy - 1).toNat = 1900 + n := by
        have hone : (1 : UInt32) ≤ yyyy := by
          rw [UInt32.le_iff_toNat_le, hyear]
          exact Nat.le_trans (by decide) (Nat.le_add_right 1900 _)
        rw [UInt32.toNat_sub_of_le _ _ hone, hyear]
        rfl
      have hleap : (mm > 2 ∧ isLeapYear yyyy = true
            ∨ mm ≤ 2 ∧ isLeapYear (yyyy - 1) = true)
          ↔ leapYear (if mm > 2 then 1900 + (n + 1) else 1900 + n)
            = true := by
        rw [isLeapYear_eq, isLeapYear_eq, hyear, hback]
        by_cases hmm : mm > 2
        · simp [hmm, UInt32.not_le.mpr hmm]
        · simp [hmm, UInt32.not_lt.mp hmm]
      unfold walkYears
      rw [if_pos hgt, daysWalked_succ]
      unfold yearLength
      split
      case isTrue h =>
        rw [if_pos (hleap.mp h), ih (by omega) hback]
        exact congrArg (Prod.mk 1900) (add_ofNat_add_ofNat ret 366 _)
      case isFalse h =>
        rw [if_neg fun hl => h (hleap.mpr hl), ih (by omega) hback]
        exact congrArg (Prod.mk 1900) (add_ofNat_add_ofNat ret 365 _)

-- ==================================================================== months

/-- A case adds the days of the month before it. -/
theorem caseDays_succ {m : Nat} (hpos : 1 ≤ m) (hm : m ≤ 11) :
    caseDays (m + 1) = UInt32.ofNat (monthLength leapYear 1900 m) := by
  have hcases : m = 1 ∨ m = 2 ∨ m = 3 ∨ m = 4 ∨ m = 5 ∨ m = 6 ∨ m = 7 ∨ m = 8
      ∨ m = 9 ∨ m = 10 ∨ m = 11 := by omega
  rcases hcases with rfl | rfl | rfl | rfl | rfl | rfl | rfl | rfl | rfl | rfl
    | rfl <;> rfl

/-- The cases come down to January. -/
theorem walkMonths_eq {m : Nat} (hm : m ≤ 11) (ret : UInt32) :
    walkMonths (m + 1) (UInt32.ofNat (m + 1)) ret
      = (1, ret + UInt32.ofNat (daysBeforeMonth leapYear 1900 (m + 1))) := by
  induction m generalizing ret with
  | zero => simp [walkMonths, daysBeforeMonth]
  | succ m ih =>
      have hstep : walkMonths (m + 1 + 1) (UInt32.ofNat (m + 1 + 1)) ret
          = walkMonths (m + 1) (UInt32.ofNat (m + 1 + 1) - 1)
            (ret + caseDays (m + 1 + 1)) := rfl
      have hmonth : UInt32.ofNat (m + 1 + 1) - 1 = UInt32.ofNat (m + 1) := by
        rw [UInt32.ofNat_add (m + 1) 1]
        exact UInt32.add_sub_cancel _ _
      rw [hstep, hmonth, ih (by omega), caseDays_succ (by omega) (by omega),
        add_ofNat_add_ofNat]
      rfl

-- ==================================================================== serial

/-- The days walked and the months of 1900 are the days of the years and
the months of the year itself. -/
theorem daysWalked_add (mm : UInt32) (hmm : 1 ≤ mm.toNat) (n : Nat) :
    daysWalked mm n + daysBeforeMonth leapYear 1900 mm.toNat
      = daysBeforeYear leapYear 1900 n
        + daysBeforeMonth leapYear (1900 + n) mm.toNat := by
  unfold daysWalked
  by_cases hlate : mm > 2
  · rw [if_pos hlate]
    exact Lib.yearSteps_add_daysBeforeMonth leapYear 1900
      (UInt32.lt_iff_toNat_lt.mp hlate) n
  · rw [if_neg hlate]
    have hle : mm.toNat ≤ 2 := UInt32.le_iff_toNat_le.mp
      (UInt32.not_lt.mp hlate)
    have hcases : mm.toNat = 1 ∨ mm.toNat = 2 := by omega
    rcases hcases with h | h <;> rw [h] <;> rfl

/-- A valid date has its number, in 32 bits. -/
theorem dateFromYyyymmdd_of_valid {yyyy mm dd : UInt32}
    (h : ValidDate yyyy mm dd) :
    dateFromYyyymmdd yyyy mm dd
      = .ok (UInt32.ofNat (serialNumber yyyy mm dd)) := by
  rcases checkDate_spec yyyy mm dd with
    ⟨day, ret, hcheck, hday, -⟩ | ⟨e, -, hno⟩
  · have hyear : 1900 ≤ yyyy.toNat := h.year
    have hmonth : 1 ≤ mm.toNat ∧ mm.toNat ≤ 12 := h.month
    obtain ⟨n, hn⟩ := Nat.exists_eq_add_of_le hyear
    obtain ⟨m, hm⟩ := Nat.exists_eq_add_of_le' hmonth.1
    have hturns : n ≤ yyyy.toNat := by omega
    have hwalk := walkYears_eq mm hturns hn (ret + day)
    have hmm : mm = UInt32.ofNat (m + 1) := by
      rw [← hm, UInt32.ofNat_toNat]
    have hswitch : ∀ r, switchMonths mm r
        = .ok (1, r
          + UInt32.ofNat (daysBeforeMonth leapYear 1900 mm.toNat)) := by
      intro r
      have hrange : 1 ≤ mm ∧ mm ≤ 12 :=
        ⟨UInt32.le_iff_toNat_le.mpr hmonth.1,
          UInt32.le_iff_toNat_le.mpr hmonth.2⟩
      unfold switchMonths
      rw [if_pos hrange, hm]
      conv_lhs => rw [hmm]
      rw [walkMonths_eq (by omega)]
    have hcount := daysWalked_add mm hmonth.1 n
    have hserial : serialNumber yyyy mm dd
        = dd.toNat + daysWalked mm n
          + daysBeforeMonth leapYear 1900 mm.toNat := by
      unfold serialNumber CalendarDate.dayNumber calendarDate
      dsimp only
      rw [hn, Nat.add_sub_cancel_left]
      omega
    unfold dateFromYyyymmdd
    rw [hcheck]
    dsimp only [bind, Except.bind]
    rw [hwalk]
    dsimp only
    rw [hswitch]
    dsimp only
    rw [if_neg (by decide), hday, hserial, UInt32.ofNat_add,
      UInt32.ofNat_add, UInt32.ofNat_toNat]
  · exact absurd h hno

/-- Off the calendar it throws. -/
theorem dateFromYyyymmdd_of_invalid {yyyy mm dd : UInt32}
    (h : ¬ValidDate yyyy mm dd) :
    ∃ e, dateFromYyyymmdd yyyy mm dd = .error e := by
  rcases checkDate_spec yyyy mm dd with
    ⟨day, ret, -, -, hvalid⟩ | ⟨e, hcheck, -⟩
  · exact absurd hvalid h
  · refine ⟨e, ?_⟩
    unfold dateFromYyyymmdd
    rw [hcheck]
    rfl

/-- 1 January 1900 is 1, the date that follows a valid one has the next
number, and exactly the dates that are not valid throw. -/
theorem dateFromYyyymmdd_counts :
    dateFromYyyymmdd 1900 1 1 = .ok 1
      ∧ (∀ yyyy mm dd yyyy' mm' dd' : UInt32, ValidDate yyyy mm dd →
        calendarDate yyyy' mm' dd' = (calendarDate yyyy mm dd).next leapYear →
          ∃ n, dateFromYyyymmdd yyyy mm dd = .ok n
            ∧ dateFromYyyymmdd yyyy' mm' dd' = .ok (n + 1)
            ∧ (n.toNat + 1 < 4294967296 → (n + 1).toNat = n.toNat + 1))
      ∧ ∀ yyyy mm dd : UInt32,
        (∃ e, dateFromYyyymmdd yyyy mm dd = .error e)
          ↔ ¬ValidDate yyyy mm dd := by
  refine ⟨?_, ?_, ?_⟩
  · exact dateFromYyyymmdd_of_valid (by unfold ValidDate; decide)
  · intro yyyy mm dd yyyy' mm' dd' hvalid hnext
    have hvalid' : ValidDate yyyy' mm' dd' := by
      unfold ValidDate
      rw [hnext]
      exact hvalid.next
    have hserial : serialNumber yyyy' mm' dd'
        = serialNumber yyyy mm dd + 1 := by
      unfold serialNumber
      rw [hnext]
      exact CalendarDate.dayNumber_next leapYear 1900 hvalid
    refine ⟨UInt32.ofNat (serialNumber yyyy mm dd),
      dateFromYyyymmdd_of_valid hvalid, ?_, ?_⟩
    · rw [dateFromYyyymmdd_of_valid hvalid', hserial, UInt32.ofNat_add]
      rfl
    · intro hfits
      rw [UInt32.toNat_add]
      exact Nat.mod_eq_of_lt hfits
  · intro yyyy mm dd
    constructor
    · intro ⟨e, he⟩ hvalid
      rw [dateFromYyyymmdd_of_valid hvalid] at he
      cases he
    · exact dateFromYyyymmdd_of_invalid

end TradingEngine.TS.TPS
