/-!
Points in time, in nanoseconds since 1970, and their text: the calendar date and the time of day with
as few groups of three fraction digits as tell all, in universal time. A clock tells nanoseconds; what
a database keeps of a time are its whole microseconds.
-/

namespace Parley

/-- Nothing beyond the whole microseconds. -/
def Timestamp.noNanos : Fin 1000 := ⟨0, by decide⟩

structure Timestamp where
  /-- The whole microseconds since 1970. -/
  micros : Int
  /-- The nanoseconds beyond. -/
  nanos : Fin 1000 := Timestamp.noNanos
deriving DecidableEq, Repr, Inhabited

namespace Timestamp

def ofSecs (s : Int) : Timestamp := { micros := s * 1000000 }

structure Date where
  year : Int
  month : Nat
  day : Nat
deriving DecidableEq, Repr

/-- The days of an era of 400 years before one of its years. Years begin in March here, so that the
day that leap years add is the last of its year. -/
def yearStart (yearOfEra : Nat) : Nat := 365 * yearOfEra + yearOfEra / 4 - yearOfEra / 100

/-- The year of an era in which one of its days lies. -/
def yearOfDay (dayOfEra : Nat) : Nat := (dayOfEra - dayOfEra / 1460 + dayOfEra / 36524 - dayOfEra / 146096) / 365

/-- The date so many days after the first of January 1970. -/
def dateOfDays (days : Int) : Date :=
  let z := days + 719468
  let era := z / 146097
  let dayOfEra := (z % 146097).toNat
  let yearOfEra := yearOfDay dayOfEra
  let dayOfYear := dayOfEra - yearStart yearOfEra
  let m := (5 * dayOfYear + 2) / 153
  let month := if m < 10 then m + 3 else m - 9
  { year := yearOfEra + era * 400 + if month ≤ 2 then 1 else 0
    month
    day := dayOfYear - (153 * m + 2) / 5 + 1 }

def padded (width n : Nat) : String :=
  let s := toString n
  String.ofList (List.replicate (width - s.length) '0') ++ s

def yearText (y : Int) : String :=
  if 0 ≤ y ∧ y ≤ 9999 then padded 4 y.toNat
  else (if y < 0 then "-" else "+") ++ padded 4 y.natAbs

/-- What a second has beyond its whole: as few groups of three digits as tell all. -/
def fractionText (micros nanos : Nat) : String :=
  if nanos ≠ 0 then "." ++ padded 9 (micros * 1000 + nanos)
  else if micros = 0 then ""
  else if micros % 1000 = 0 then "." ++ padded 3 (micros / 1000)
  else "." ++ padded 6 micros

def text (t : Timestamp) : String :=
  let date := dateOfDays (t.micros / 86400000000)
  let ofDay := (t.micros % 86400000000).toNat
  let secs := ofDay / 1000000
  yearText date.year ++ "-" ++ padded 2 date.month ++ "-" ++ padded 2 date.day ++ "T" ++
    padded 2 (secs / 3600) ++ ":" ++ padded 2 (secs / 60 % 60) ++ ":" ++ padded 2 (secs % 60) ++
    fractionText (ofDay % 1000000) t.nanos ++ "Z"

end Timestamp

end Parley
