/-! Days of the calendar and times of day. -/

namespace RowTypes.Calendar

attribute [local instance (high)] instPowNat

structure Date where
  year : Int
  month : Nat
  day : Nat
deriving DecidableEq, Repr

def isLeapYear (year : Int) : Bool :=
  year % 4 = 0 && (year % 100 ≠ 0 || year % 400 = 0)

def daysInMonth (year : Int) (month : Nat) : Nat :=
  if month = 2 then if isLeapYear year then 29 else 28
  else if month = 4 ∨ month = 6 ∨ month = 9 ∨ month = 11 then 30 else 31

def firstYear : Int := -262143

def lastYear : Int := 262142

def Date.isValid (d : Date) : Bool :=
  firstYear ≤ d.year && d.year ≤ lastYear && 1 ≤ d.month && d.month ≤ 12 && 1 ≤ d.day &&
    d.day ≤ daysInMonth d.year d.month

def Date.next (d : Date) : Date :=
  if d.day < daysInMonth d.year d.month then { d with day := d.day + 1 }
  else if d.month < 12 then ⟨d.year, d.month + 1, 1⟩
  else ⟨d.year + 1, 1, 1⟩

def Date.previous (d : Date) : Date :=
  if 1 < d.day then { d with day := d.day - 1 }
  else if 1 < d.month then ⟨d.year, d.month - 1, daysInMonth d.year (d.month - 1)⟩
  else ⟨d.year - 1, 12, 31⟩

structure Time where
  hour : Nat
  minute : Nat
  /-- A leap second is the sixtieth. -/
  second : Nat
  nanosecond : Nat
deriving DecidableEq, Repr

def Time.isValid (t : Time) : Bool :=
  t.hour < 24 && t.minute < 60 && t.second ≤ 60 && t.nanosecond < 10 ^ (9 : Nat)

structure Moment where
  date : Date
  time : Time
deriving DecidableEq, Repr

/-- Shows at Greenwich what is shown `minutes` east of it; less than a day. -/
def Moment.toGreenwich (m : Moment) (minutes : Int) : Moment :=
  let total : Int := (m.time.hour * 60 + m.time.minute : Nat) - minutes
  let date :=
    if total < 0 then m.date.previous else if 1440 ≤ total then m.date.next else m.date
  let inDay := (total % 1440).toNat
  ⟨date, { m.time with hour := inDay / 60, minute := inDay % 60 }⟩

def padded (width n : Nat) : String :=
  let digits := toString n
  String.ofList (List.replicate (width - digits.length) '0') ++ digits

def yearText (year : Int) : String :=
  if 0 ≤ year ∧ year ≤ 9999 then padded 4 year.toNat
  else (if year < 0 then "-" else "+") ++ padded 4 year.natAbs

def fractionText (nanosecond : Nat) : String :=
  if nanosecond = 0 then ""
  else if nanosecond % 10 ^ (6 : Nat) = 0 then "." ++ padded 3 (nanosecond / 10 ^ (6 : Nat))
  else if nanosecond % 10 ^ (3 : Nat) = 0 then "." ++ padded 6 (nanosecond / 10 ^ (3 : Nat))
  else "." ++ padded 9 nanosecond

def Moment.text (m : Moment) : String :=
  yearText m.date.year ++ "-" ++ padded 2 m.date.month ++ "-" ++ padded 2 m.date.day ++ "T" ++
    padded 2 m.time.hour ++ ":" ++ padded 2 m.time.minute ++ ":" ++ padded 2 m.time.second ++
    fractionText m.time.nanosecond

theorem Date.previous_next_mid (y : Int) (m d : Nat) (pos : 0 < d)
    (h : d < daysInMonth y m) : (Date.next ⟨y, m, d⟩).previous = ⟨y, m, d⟩ := by
  have : 1 < d + 1 := by omega
  simp [Date.next, Date.previous, h, this]

end RowTypes.Calendar
