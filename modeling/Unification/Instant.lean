namespace Unification

namespace Calendar

def isLeap (year : Int) : Bool := year % 4 = 0 && (year % 100 != 0 || year % 400 = 0)

def daysInMonth (year : Int) (month : Nat) : Nat :=
  if month = 2 then (if isLeap year then 29 else 28)
  else if month = 4 ∨ month = 6 ∨ month = 9 ∨ month = 11 then 30
  else 31

structure Date where
  year : Int
  month : Nat
  day : Nat
deriving DecidableEq

def yearOfEra (dayOfEra : Nat) : Nat :=
  (dayOfEra - dayOfEra / 1460 + dayOfEra / 36524 - dayOfEra / 146096) / 365

/-- The date that lies `days` days after 1970-01-01. Years are counted from March, so that a leap day
is the last day of its year, and in eras of 400 years, which all have 146097 days. -/
def ofEpochDay (days : Int) : Date :=
  let shifted := days + 719468
  let dayOfEra := (shifted % 146097).toNat
  let y := yearOfEra dayOfEra
  let dayOfYear := dayOfEra - (365 * y + y / 4 - y / 100)
  let m := (5 * dayOfYear + 2) / 153
  let month := if m < 10 then m + 3 else m - 9
  { year := shifted / 146097 * 400 + y + (if month ≤ 2 then 1 else 0)
    month := month
    day := dayOfYear - (153 * m + 2) / 5 + 1 }

example : ofEpochDay 0 = ⟨1970, 1, 1⟩ := by decide
example : ofEpochDay 11016 = ⟨2000, 2, 29⟩ := by decide
example : ofEpochDay (-719529) = ⟨-1, 12, 31⟩ := by decide

end Calendar

/-- Within a leap second the billionths of a second run on from one billion. -/
abbrev Nanos := Fin 2000000000

instance : Coe Nat Nanos := ⟨Fin.ofNat 2000000000⟩

structure Instant where
  seconds : Int
  nanos : Nanos
deriving DecidableEq

namespace Instant

def padded (width n : Nat) : String :=
  let digits := Nat.toDigits 10 n
  String.ofList (List.replicate (width - digits.length) '0' ++ digits)

def yearText (year : Int) : String :=
  if 0 ≤ year ∧ year ≤ 9999 then padded 4 year.toNat
  else (if year < 0 then "-" else "+") ++ padded 4 year.natAbs

def fractionText (nanos : Nat) : String :=
  if nanos = 0 then ""
  else if nanos % 1000000 = 0 then "." ++ padded 3 (nanos / 1000000)
  else if nanos % 1000 = 0 then "." ++ padded 6 (nanos / 1000)
  else "." ++ padded 9 nanos

def toRfc3339 (t : Instant) : String :=
  let date := Calendar.ofEpochDay (t.seconds / 86400)
  let time := (t.seconds % 86400).toNat
  let leap := t.nanos.val / 1000000000
  yearText date.year ++ "-" ++ padded 2 date.month ++ "-" ++ padded 2 date.day ++ "T" ++
    padded 2 (time / 3600) ++ ":" ++ padded 2 (time / 60 % 60) ++ ":" ++
    padded 2 (time % 60 + leap) ++ fractionText (t.nanos.val % 1000000000) ++ "+00:00"

end Instant

end Unification
