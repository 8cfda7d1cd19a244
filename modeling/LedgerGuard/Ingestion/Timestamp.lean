import LedgerGuard.Core.Canonical

/-! # Timestamps on the wire

The one reader and the one writer of instants. The reader accepts what Python's
`fromisoformat` accepts once the UTC marker is an offset: calendar or week dates
and times of day, each with or without separators, in the proleptic Gregorian
calendar.
-/

namespace LedgerGuard.Ingestion

def takeDigits (n : ℕ) (cs : List Char) : Option (ℕ × List Char) :=
  if (cs.take n).length = n ∧ (cs.take n).all isDigit then
    some (digitsValue (cs.take n), cs.drop n)
  else none

def skip (separated : Bool) (sep : Char) (cs : List Char) : Option (List Char) :=
  if separated then
    match cs with
    | c :: rest => if c = sep then some rest else none
    | [] => none
  else some cs

def isLeap (year : ℕ) : Bool := year % 4 = 0 && (year % 100 ≠ 0 || year % 400 = 0)

def daysInMonth (year month : ℕ) : ℕ :=
  if month = 2 then (if isLeap year then 29 else 28)
  else if month ∈ [4, 6, 9, 11] then 30
  else 31

def civilDays (year month day : ℕ) : ℤ :=
  let y : ℤ := if month ≤ 2 then (year : ℤ) - 1 else year
  let yoe := y % 400
  let mp : ℤ := if month ≤ 2 then month + 9 else month - 3
  let doe := yoe * 365 + yoe / 4 - yoe / 100 + (153 * mp + 2) / 5 + day - 1
  y / 400 * 146097 + doe - 719468

def weekday (days : ℤ) : ℤ := (days + 3) % 7

def calendarDate (year month day : ℕ) : Option ℤ :=
  if 1 ≤ year ∧ year ≤ 9999 ∧ 1 ≤ month ∧ month ≤ 12 ∧ 1 ≤ day ∧ day ≤ daysInMonth year month then
    some (civilDays year month day)
  else none

/-- A day of an ISO week; only years that start on a Thursday, or leap years that start on a
Wednesday, have a week 53. -/
def weekDate (year week day : ℕ) : Option ℤ :=
  let first := civilDays year 1 1
  let monday := first - weekday first + if 3 < weekday first then 7 else 0
  let weeks := if weekday first = 3 ∨ (weekday first = 2 ∧ isLeap year) then 53 else 52
  let days := monday + (week - 1) * 7 + (day - 1)
  if 1 ≤ year ∧ 1 ≤ week ∧ week ≤ weeks ∧ 1 ≤ day ∧ day ≤ 7 ∧ civilDays 1 1 1 ≤ days ∧
      days ≤ civilDays 9999 12 31 then
    some days
  else none

/-- Where the date ends: after a date or week, in the form the text uses. -/
def dateLength (cs : List Char) : ℕ :=
  if cs.length = 7 then 7
  else if cs[4]? = some '-' then
    if cs[5]? = some 'W' ∧ (cs[8]? ≠ some '-' ∨ cs[10]?.any isDigit) then 8 else 10
  else if cs[4]? = some 'W' then
    let digits := ((cs.drop 7).takeWhile isDigit).length
    if digits < 2 then 7 + digits else if digits % 2 = 1 then 7 else 8
  else 8

def isoDate (cs : List Char) : Option ℤ := do
  let (year, cs) ← takeDigits 4 cs
  let separated := cs.head? = some '-'
  let cs ← skip separated '-' cs
  match cs with
  | 'W' :: cs =>
    let (week, cs) ← takeDigits 2 cs
    if cs = [] then weekDate year week 1
    else
      let (day, _) ← skip separated '-' cs >>= takeDigits 1
      weekDate year week day
  | cs =>
    let (month, cs) ← takeDigits 2 cs
    let (day, _) ← skip separated '-' cs >>= takeDigits 2
    calendarDate year month day

/-- Microseconds from the digits after the seconds; digits past the sixth are dropped. -/
def isoFraction : List Char → Option ℕ
  | [] => some 0
  | c :: cs =>
    if (c = '.' ∨ c = ',') ∧ cs ≠ [] ∧ cs.all isDigit then
      some (digitsValue (ljustZero 6 (cs.take 6)))
    else none

/-- Hours, and further minutes, seconds and fraction where present, as microseconds. -/
def isoTime (cs : List Char) : Option ℕ := do
  let (hour, cs) ← takeDigits 2 cs
  if 23 < hour then none
  else if cs = [] then return hour * 3600000000
  else
    let separated := cs.head? = some ':'
    let (minute, cs) ← skip separated ':' cs >>= takeDigits 2
    if 59 < minute then none
    else if cs = [] then return (hour * 60 + minute) * 60000000
    else
      let (second, cs) ← skip separated ':' cs >>= takeDigits 2
      if 59 < second then none
      else return ((hour * 60 + minute) * 60 + second) * 1000000 + (← isoFraction cs)

/-- `datetime.fromisoformat` as an instant; a time without an offset is in the zone of the
process, which is UTC. -/
def fromisoformat (cs : List Char) : Option Instant := do
  let days ← isoDate (cs.take (dateLength cs))
  match cs.drop (dateLength cs) with
  | [] => return days * 86400000000
  | _ :: cs =>
    let time ← isoTime (cs.takeWhile fun c => c ≠ '+' ∧ c ≠ '-')
    let wall := days * 86400000000 + time
    match cs.dropWhile fun c => c ≠ '+' ∧ c ≠ '-' with
    | [] => return wall
    | sign :: offset =>
      let offset ← isoTime offset
      return if sign = '-' then wall + offset else wall - offset

/-- Read a timestamp that ends in the UTC marker. -/
def timestamp (value : String) : Option Instant :=
  if value.toList.getLast? = some 'Z' then
    fromisoformat (value.toList.flatMap fun c => if c = 'Z' then "+00:00".toList else [c])
  else none

/-- `str.replace`, where the second argument counts the characters left of a text replaced. -/
def replaceText (old new : List Char) : List Char → ℕ → List Char
  | [], _ => []
  | _ :: cs, n + 1 => replaceText old new cs n
  | c :: cs, 0 =>
    if old.isPrefixOf (c :: cs) then new ++ replaceText old new cs (old.length - 1)
    else c :: replaceText old new cs 0

/-- Write an instant in UTC. -/
def utc (t : Instant) : String :=
  String.ofList (replaceText "+00:00".toList "Z".toList (isoformat t).toList 0)

example : timestamp "2026-09-05T12:00:00.25Z" = some 1788609600250000 ∧
    timestamp "20260905T12Z" = some 1788609600000000 ∧
    timestamp "2026-W36-6T12:00Z" = some 1788609600000000 ∧
    timestamp "2026-02-29T12:00:00Z" = none := by decide +kernel

end LedgerGuard.Ingestion
