import PinnedMap.Decimal.Binary
import PinnedMap.Text.Blank
import PinnedMap.Timestamp.Basic

/-! The reading of moments. The form is that of RFC 3339, except that numbers may be shorter and that
blanks may stand around most parts. A text may stand in another zone; the moment is the same. -/
namespace PinnedMap.Timestamp

inductive Fault where
  | invalid
  | tooShort
  | tooLong
  | outOfRange
  | impossible
deriving Repr, DecidableEq

def Fault.message : Fault → String
  | .invalid => "input contains invalid characters"
  | .tooShort => "premature end of input"
  | .tooLong => "trailing input"
  | .outOfRange => "input is out of range"
  | .impossible => "no possible date and time matching input"

def number (width? : Option Nat) (text : List Char) : Except Fault (Nat × List Char) :=
  let run := text.takeWhile Char.isDigit
  let digits := match width? with | some width => run.take width | none => run
  match digits, text with
  | [], [] => .error .tooShort
  | [], _ => .error .invalid
  | _, _ => .ok (Decimal.digitsValue digits,text.drop digits.length)

def part (least most : Nat) (text : List Char) : Except Fault (Nat × List Char) := do
  let (n,rest) ← number (some 2) (Text.trimStart text)
  if least ≤ n && n ≤ most then return (n,rest) else throw .outOfRange

def literal (c : Char) : List Char → Except Fault (List Char)
  | [] => .error .tooShort
  | d :: rest => if d = c then .ok rest else .error .invalid

def separated (separator : Char) (least most : Nat) (text : List Char) : Except Fault (Nat × List Char) := do
  part least most (← literal separator (Text.trimStart text))

/-- A year of at most four digits, or after a sign of any number of them; it is kept in 32 bits. -/
def year (text : List Char) : Except Fault (Int × List Char) := do
  let (year,rest) ← match Text.trimStart text with
    | '-' :: text => (number none text).map fun (n,rest) => (-(n : Int),rest)
    | '+' :: text => (number none text).map fun (n,rest) => ((n : Int),rest)
    | text => (number (some 4) text).map fun (n,rest) => ((n : Int),rest)
  if -0x80000000 ≤ year && year ≤ 0x7fffffff then return (year,rest) else throw .outOfRange

/-- Digits after a point count down from tenths; those beyond the ninth are dropped. -/
def fraction : List Char → Except Fault (Nat × List Char)
  | '.' :: text =>
    let digits := text.takeWhile Char.isDigit
    if digits.isEmpty then .error (if text.isEmpty then .tooShort else .invalid)
    else .ok (Decimal.digitsValue (digits ++ List.replicate (9 - digits.length) '0' |>.take 9),
      text.dropWhile Char.isDigit)
  | text => .ok (0,text)

/-- Two digits. A character beyond ASCII is long enough to be taken for two. -/
def pair : List Char → Except Fault (Nat × List Char)
  | c :: d :: rest =>
    if c.isDigit && d.isDigit then .ok (Decimal.digitsValue [c,d],rest) else .error .invalid
  | [c] => .error (if c.toNat < 0x80 then .tooShort else .invalid)
  | [] => .error .tooShort

def isZoneSeparator (c : Char) : Bool := c = ':' || Text.isBlank c

def zone : List Char → Except Fault (Int × List Char)
  | 'Z' :: rest | 'z' :: rest => .ok (0,rest)
  | sign :: text => do
    if Text.lower ((sign :: text).take 3) = "utc".toList then return (0,text.drop 2)
    if sign ≠ '+' && sign ≠ '-' && sign ≠ '−' then throw .invalid
    let (hours,rest) ← pair text
    let (minutes,rest) ← pair (rest.dropWhile isZoneSeparator)
    if 59 < minutes then throw .outOfRange
    let ahead : Int := (hours * 60 + minutes : Nat)
    return (if sign = '+' then ahead else -ahead,rest)
  | [] => .error .tooShort

def years : Int × Int := (-262143,262142)

def isWithinYears (day : Day) : Bool := years.1 ≤ day.year && day.year ≤ years.2

def ofChars (text : List Char) : Except Fault Timestamp := do
  let (year,text) ← year text
  let (month,text) ← separated '-' 1 12 text
  let (day,text) ← separated '-' 1 31 text
  let text ← match text with
    | 'T' :: rest | 't' :: rest | ' ' :: rest => pure rest
    | _ :: _ => throw .invalid
    | [] => throw .tooShort
  let (hour,text) ← part 0 23 text
  let (minute,text) ← separated ':' 0 59 text
  let (second,text) ← separated ':' 0 60 text
  let (nanos,text) ← fraction text
  let (ahead,text) ← zone (Text.trimStart text)
  if !(Text.trimStart text).isEmpty then throw .tooLong
  let date : Day := ⟨year,month,day⟩
  if !date.isValid || !isWithinYears date || 1440 ≤ ahead.natAbs then throw .outOfRange
  let time := Timestamp.earlier ⟨date,hour,minute,second,nanos⟩ ahead
  if isWithinYears time.day then return time else throw .impossible

end PinnedMap.Timestamp
