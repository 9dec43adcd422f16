/-
`ts/tps/TPSServer.cpp`: `date_from_yyyymmdd`, the serial number of a date as
spreadsheets count it, with a 29 February 1900.

All numbers are `std::uint32_t` and wrap around, the result included. The
loop over the years takes one off in every turn. The switch over the months
has no `break`, so a case goes on with the one below.
-/

namespace TradingEngine.TS.TPS

/-- `is_leap_year`. -/
def isLeapYear (yy : UInt32) : Bool :=
  -- just copying an excel bug
  if yy = 1900 then true
  else if yy % 400 = 0 then true
  else if yy % 100 = 0 then false
  else if yy % 4 = 0 then true
  else false

def invalidYear : String := "Invalid year (must be greater than 1899)"

def invalidMonth : String := " Invalid month (must be between 1 and 12)"

def invalidDay : String :=
  " Invalid day (must be between 1 and number of days in month)"

/-- The checks, and `dd` and `ret` after them: of a 29 February 28 days are
counted beforehand. -/
def checkDate (yyyy mm dd : UInt32) : Except String (UInt32 × UInt32) :=
  if yyyy < 1900 then .error invalidYear
  else if mm < 1 ∨ mm > 12 then .error invalidMonth
  else if dd < 1 then .error invalidDay
  else if mm = 1 ∨ mm = 3 ∨ mm = 5 ∨ mm = 7 ∨ mm = 8 ∨ mm = 10 ∨ mm = 12 then
    if dd > 31 then .error invalidDay else .ok (dd, 0)
  else if mm = 2 then
    if dd = 29 then
      if !isLeapYear yyyy then .error invalidDay else .ok (1, 28)
    else if dd > 28 then .error invalidDay
    else .ok (dd, 0)
  else if mm = 4 ∨ mm = 6 ∨ mm = 9 ∨ mm = 11 then
    if dd > 30 then .error invalidDay else .ok (dd, 0)
  else .error " Shouldn't be here -- very serious"

/-- `while (yyyy > 1900)`: `yyyy` and `ret` after it. -/
def walkYears (mm : UInt32) : Nat → UInt32 → UInt32 → UInt32 × UInt32
  | 0, yyyy, ret => (yyyy, ret)
  | turns + 1, yyyy, ret =>
      if yyyy > 1900 then
        if (mm > 2 ∧ isLeapYear yyyy) ∨ (mm ≤ 2 ∧ isLeapYear (yyyy - 1)) then
          walkYears mm turns (yyyy - 1) (ret + 366)
        else walkYears mm turns (yyyy - 1) (ret + 365)
      else (yyyy, ret)

/-- What the case of a month adds: the days of the month before it. -/
def caseDays : Nat → UInt32
  | 12 => 30
  | 11 => 31
  | 10 => 30
  | 9 => 31
  | 8 => 31
  | 7 => 30
  | 6 => 31
  | 5 => 30
  | 4 => 31
  -- copies the leap year bug
  | 3 => 28 + if isLeapYear 1900 then 1 else 0
  | 2 => 31
  | _ => 0

/-- The cases of the switch from a month on down: `mm` and `ret` after
them. -/
def walkMonths : Nat → UInt32 → UInt32 → UInt32 × UInt32
  | 0, mm, ret => (mm, ret)
  | 1, mm, ret => (mm, ret)
  | m + 2, mm, ret => walkMonths (m + 1) (mm - 1) (ret + caseDays (m + 2))

/-- The switch over the months. -/
def switchMonths (mm ret : UInt32) : Except String (UInt32 × UInt32) :=
  if 1 ≤ mm ∧ mm ≤ 12 then .ok (walkMonths mm.toNat mm ret)
  else .error " Invalid month, but shouldn't be here"

/-- `date_from_yyyymmdd`. -/
def dateFromYyyymmdd (yyyy mm dd : UInt32) : Except String UInt32 := do
  let (dd, ret) ← checkDate yyyy mm dd
  let ret := ret + dd
  let dd : UInt32 := 1
  let (yyyy, ret) := walkYears mm yyyy.toNat yyyy ret
  let (mm, ret) ← switchMonths mm ret
  if yyyy ≠ 1900 ∨ mm ≠ 1 ∨ dd ≠ 1 then
    .error " Serious problem, didn't get to 1/1/00 at end of func"
  else .ok ret

end TradingEngine.TS.TPS
