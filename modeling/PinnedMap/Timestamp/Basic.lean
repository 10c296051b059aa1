/-! Moments in universal time, by calendar day and time of day, written as RFC 3339 texts. -/
namespace PinnedMap

structure Day where
  year : Int
  month : Nat
  day : Nat
deriving Repr, DecidableEq, Inhabited

namespace Day

def isLeap (year : Int) : Bool := year % 4 = 0 && (year % 100 ≠ 0 || year % 400 = 0)

def monthLength (year : Int) (month : Nat) : Nat :=
  match month with
  | 2 => if isLeap year then 29 else 28
  | 4 | 6 | 9 | 11 => 30
  | _ => 31

def isValid (day : Day) : Bool :=
  1 ≤ day.month && day.month ≤ 12 && 1 ≤ day.day && day.day ≤ monthLength day.year day.month

def next (day : Day) : Day :=
  if day.day < monthLength day.year day.month then { day with day := day.day + 1 }
  else if day.month < 12 then ⟨day.year,day.month + 1,1⟩
  else ⟨day.year + 1,1,1⟩

def previous (day : Day) : Day :=
  if 1 < day.day then { day with day := day.day - 1 }
  else if 1 < day.month then ⟨day.year,day.month - 1,monthLength day.year (day.month - 1)⟩
  else ⟨day.year - 1,12,31⟩

def ofEpoch (days : Nat) : Day :=
  -- Counted from the first of March, so that leap days end their years.
  let shifted := days + 719468
  let era := shifted / 146097
  let dayOfEra := shifted % 146097
  let yearOfEra := (dayOfEra - dayOfEra / 1460 + dayOfEra / 36524 - dayOfEra / 146096) / 365
  let dayOfYear := dayOfEra - (365 * yearOfEra + yearOfEra / 4 - yearOfEra / 100)
  let slot := (5 * dayOfYear + 2) / 153
  let month := if slot < 10 then slot + 3 else slot - 9
  ⟨(yearOfEra + era * 400 : Nat) + (if month ≤ 2 then 1 else 0),month,dayOfYear - (153 * slot + 2) / 5 + 1⟩

end Day

/-- Second 60 is a leap second. -/
structure Timestamp where
  day : Day
  hour : Nat
  minute : Nat
  second : Nat
  nanos : Nat
deriving Repr, DecidableEq, Inhabited

namespace Timestamp

def ofEpoch (seconds nanos : Nat) : Timestamp :=
  let time := seconds % 86400
  ⟨Day.ofEpoch (seconds / 86400),time / 3600,time / 60 % 60,time % 60,nanos⟩

/-- The same time of day on a clock that is so many minutes behind, less than a day. -/
def earlier (time : Timestamp) (minutes : Int) : Timestamp :=
  let total := (time.hour * 60 + time.minute : Nat) - minutes
  let day := if total < 0 then time.day.previous else if 1440 ≤ total then time.day.next else time.day
  let rest := (total % 1440).toNat
  { time with day, hour := rest / 60, minute := rest % 60 }

def padded (width n : Nat) : List Char :=
  let digits := Nat.toDigits 10 n
  List.replicate (width - digits.length) '0' ++ digits

def yearText (year : Int) : List Char :=
  if 0 ≤ year && year ≤ 9999 then padded 4 year.toNat
  else (if year < 0 then '-' else '+') :: padded 4 year.natAbs

/-- Three, six or nine digits, the fewest that lose nothing. -/
def fractionText (nanos : Nat) : List Char :=
  if nanos = 0 then []
  else if nanos % 1000000 = 0 then '.' :: padded 3 (nanos / 1000000)
  else if nanos % 1000 = 0 then '.' :: padded 6 (nanos / 1000)
  else '.' :: padded 9 nanos

def chars (time : Timestamp) : List Char :=
  yearText time.day.year ++ '-' :: padded 2 time.day.month ++ '-' :: padded 2 time.day.day ++
    'T' :: padded 2 time.hour ++ ':' :: padded 2 time.minute ++ ':' :: padded 2 time.second ++
    fractionText time.nanos ++ ['Z']

def text (time : Timestamp) : String := String.ofList time.chars

end Timestamp
end PinnedMap
