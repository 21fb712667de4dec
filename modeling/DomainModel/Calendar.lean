/-!
# The calendar of changelog stamps

Moments are whole seconds since the start of 1970 in UTC, and dates belong to the proleptic
Gregorian calendar. Years are counted from March, so that the leap day is the last day of a year.
-/
namespace DomainModel

structure Date where
  year : Int
  month : Nat
  day : Nat
  deriving DecidableEq, Repr

/-- The date of a day, given as the number of days since 1 January 1970. -/
def Date.ofDays (days : Int) : Date :=
  let shifted := days + 719468
  let era := shifted.fdiv 146097
  let dayOfEra := (shifted.fmod 146097).toNat
  let yearOfEra :=
    (dayOfEra - dayOfEra / 1460 + dayOfEra / 36524 - dayOfEra / 146096) / 365
  let dayOfYear := dayOfEra - (365 * yearOfEra + yearOfEra / 4 - yearOfEra / 100)
  let monthFromMarch := (5 * dayOfYear + 2) / 153
  let day := dayOfYear - (153 * monthFromMarch + 2) / 5 + 1
  let month := if monthFromMarch < 10 then monthFromMarch + 3 else monthFromMarch - 9
  let year := yearOfEra + era * 400 + (if month ≤ 2 then 1 else 0)
  ⟨year, month, day⟩

/-- The decimal digits of `n`, filled up with zeros on the left to at least `width` digits. -/
def padded (width n : Nat) : String :=
  let digits := Nat.toDigits 10 n
  String.ofList (List.replicate (width - digits.length) '0' ++ digits)

/-- Four digits at least; a sign before negative years and before years above 9999. -/
def yearText (year : Int) : String :=
  if year < 0 then "-" ++ padded 4 year.natAbs
  else if year > 9999 then "+" ++ padded 4 year.natAbs
  else padded 4 year.natAbs

/-- A changelog stamp: year, month, day, hours, minutes and seconds, without separators. -/
def stamp (seconds : Int) : String :=
  let date := Date.ofDays (seconds.fdiv 86400)
  let time := (seconds.fmod 86400).toNat
  yearText date.year ++ padded 2 date.month ++ padded 2 date.day ++
    padded 2 (time / 3600) ++ padded 2 (time / 60 % 60) ++ padded 2 (time % 60)

/-- The stamp of the moment `increment` seconds after `start`. -/
def changelogDate (start increment : Int) : String := stamp (start + increment)

end DomainModel
