import AssetAudit.Text.Search

/-!
# Points in time

A point in time is a number of seconds from the start of 1970 and a fraction of a second. In a leap
second the fraction goes beyond one second. Times are written in universal time with milliseconds.
-/
namespace AssetAudit

structure Instant where
  second : Int
  millisecond : Nat
  deriving DecidableEq, Repr

namespace Instant

/-! ## Days and dates -/

/-- A day of the calendar. -/
structure Date where
  year : Int
  month : Nat
  day : Nat
  deriving DecidableEq, Repr

/-- Days from the first of March of year zero to the start of 1970. -/
def epochDays : Int := 719468

/-- Days from the start of 1970 to a date. A year is counted from March, so that its leap day is the
last. -/
def daysOfDate (date : Date) : Int :=
  let year := if date.month ≤ 2 then date.year - 1 else date.year
  let era := year / 400
  let yearOfEra := year - era * 400
  let month : Int := if date.month > 2 then date.month - 3 else date.month + 9
  let dayOfYear := (153 * month + 2) / 5 + date.day - 1
  era * 146097 + yearOfEra * 365 + yearOfEra / 4 - yearOfEra / 100 + dayOfYear - epochDays

/-- The date a number of days after the start of 1970. -/
def dateOfDays (days : Int) : Date :=
  let z := days + epochDays
  let era := z / 146097
  let dayOfEra := z - era * 146097
  let yearOfEra := (dayOfEra - dayOfEra / 1460 + dayOfEra / 36524 - dayOfEra / 146096) / 365
  let dayOfYear := dayOfEra - (365 * yearOfEra + yearOfEra / 4 - yearOfEra / 100)
  let month := (5 * dayOfYear + 2) / 153
  let day := dayOfYear - (153 * month + 2) / 5 + 1
  let month := if month < 10 then month + 3 else month - 9
  let year := yearOfEra + era * 400
  ⟨if month ≤ 2 then year + 1 else year, month.toNat, day.toNat⟩

/-! ## Writing -/

/-- A number with at least `width` digits. -/
def padded (width n : Nat) : String :=
  let digits := toString n
  String.ofList (List.replicate (width - digits.length) '0') ++ digits

def yearText (year : Int) : String :=
  if 0 ≤ year && year ≤ 9999 then padded 4 year.toNat
  else (if year < 0 then "-" else "+") ++ padded 4 year.natAbs

/-- The time of day is that of the whole second; a leap second is the sixtieth. -/
def text (instant : Instant) : String :=
  let days := instant.second / 86400
  let rest := (instant.second % 86400).toNat
  let leap := instant.millisecond / 1000
  let date := dateOfDays days
  yearText date.year ++ "-" ++ padded 2 date.month ++ "-" ++ padded 2 date.day ++ "T" ++
    padded 2 (rest / 3600) ++ ":" ++ padded 2 (rest / 60 % 60) ++ ":" ++
    padded 2 (rest % 60 + leap) ++ "." ++ padded 3 (instant.millisecond % 1000) ++ "Z"

def ofMilliseconds (milliseconds : Int) : Instant :=
  ⟨milliseconds / 1000, (milliseconds % 1000).toNat⟩

/-! ## Reading -/

/-- A number of exactly `width` digits. -/
def number? (width : Nat) (text : List Char) : Option (Nat × List Char) :=
  let digits := text.take width
  if digits.length == width && digits.all Char.isDigit then
    some (digits.foldl (fun n c => 10 * n + (c.toNat - 48)) 0, text.drop width)
  else none

def afterChar? (accepted : List Char) : List Char → Option (List Char)
  | c :: rest => if accepted.contains c then some rest else none
  | [] => none

/-- The milliseconds of a fraction; further digits are cut off. -/
def fraction (text : List Char) : Nat × List Char :=
  match text with
  | '.' :: rest =>
    let digits := rest.takeWhile Char.isDigit
    let value := (digits ++ ['0', '0', '0']).take 3
    (value.foldl (fun n c => 10 * n + (c.toNat - 48)) 0, rest.dropWhile Char.isDigit)
  | _ => (0, text)

/-- Seconds by which a local time is ahead of universal time. -/
def offset? : List Char → Option Int
  | ['Z'] | ['z'] => some 0
  | sign :: rest => do
    let (hours, rest) ← number? 2 rest
    let rest ← afterChar? [':'] rest
    let (minutes, rest) ← number? 2 rest
    if !rest.isEmpty then none
    let seconds : Int := hours * 3600 + minutes * 60
    if sign == '+' then some seconds else if sign == '-' then some (-seconds) else none
  | [] => none

/-- The point in time that a text states as date, time of day and offset. -/
def parse? (text : String) : Option Instant := do
  let (year, rest) ← number? 4 text.toList
  let (month, rest) ← (afterChar? ['-'] rest).bind (number? 2)
  let (day, rest) ← (afterChar? ['-'] rest).bind (number? 2)
  let (hour, rest) ← (afterChar? ['T', 't', ' '] rest).bind (number? 2)
  let (minute, rest) ← (afterChar? [':'] rest).bind (number? 2)
  let (second, rest) ← (afterChar? [':'] rest).bind (number? 2)
  let (millisecond, rest) := fraction rest
  let offset ← offset? rest
  if second > 60 || minute > 59 || hour > 23 then none
  let leap := second / 60
  let whole := hour * 3600 + minute * 60 + (second - leap)
  return ⟨daysOfDate ⟨year, month, day⟩ * 86400 + whole - offset, millisecond + 1000 * leap⟩

end Instant
end AssetAudit
