import PinnedMap.Decimal.Form
import PinnedMap.Text.Blank
import PinnedMap.Timestamp.Basic

/-! Numbers and moments in TOML texts. Digits may have single underscores between them. -/
namespace PinnedMap.Toml

open Decimal

def moreDigits (isDigit : Char → Bool) : List Char → List Char × List Char
  | [] => ([],[])
  | ['_'] => ([],['_'])
  | '_' :: c :: rest =>
    if isDigit c then
      let (digits,rest) := moreDigits isDigit rest
      (c :: digits,rest)
    else ([],'_' :: c :: rest)
  | c :: rest =>
    if isDigit c then
      let (digits,rest) := moreDigits isDigit rest
      (c :: digits,rest)
    else ([],c :: rest)

def digits? (isDigit : Char → Bool) : List Char → Option (List Char × List Char)
  | c :: rest => if isDigit c then some (moreDigits isDigit (c :: rest)) else none
  | [] => none

/-- A whole number without a sign: a zero alone, or digits that begin with another. -/
def whole? : List Char → Option (List Char × List Char)
  | '0' :: rest => some (['0'],rest)
  | text => digits? Char.isDigit text

def sign : List Char → Bool × List Char
  | '-' :: rest => (true,rest)
  | '+' :: rest => (false,rest)
  | text => (false,text)

def fraction? : List Char → Option (List Char × List Char)
  | '.' :: rest => digits? Char.isDigit rest
  | _ => none

def exponent? : List Char → Option (Int × List Char)
  | 'e' :: rest | 'E' :: rest => do
    let (below,rest) := sign rest
    let (digits,rest) ← digits? Char.isDigit rest
    let size : Int := digitsValue digits
    return (if below then -size else size,rest)
  | _ => none

def decimalParts? (text : List Char) : Option (List Char × Int × List Char) :=
  match fraction? text with
  | some (fraction,rest) =>
    let (exponent,rest) := (exponent? rest).getD (0,rest)
    some (fraction,exponent,rest)
  | none => (exponent? text).map fun (exponent,rest) => ([],exponent,rest)

/-- A decimal beyond the largest double is refused; one below the least is minus infinity. -/
def decimal? (text : List Char) : Option (Float × List Char) := do
  let (minus,rest) := sign text
  let (whole,rest) ← whole? rest
  let (fraction,exponent,rest) ← decimalParts? rest
  let value := ofPoint whole fraction exponent
  guard (minus || kind value ≠ .infinite)
  return (signed minus value,rest)

def special? (text : List Char) : Option (Float × List Char) :=
  let (minus,rest) := sign text
  match rest with
  | 'i' :: 'n' :: 'f' :: rest => some (signed minus infinity,rest)
  | 'n' :: 'a' :: 'n' :: rest => some (0 / 0,rest)
  | _ => none

def inBase? (base : Nat) (text : List Char) : Option (Int × List Char) := do
  let isDigit := fun c => match Text.hexDigit? c with | some value => decide (value < base) | none => false
  let (digits,rest) ← digits? isDigit text
  let value := digits.foldl (fun n c => n * base + (Text.hexDigit? c).getD 0) 0
  guard (value < 0x8000000000000000)
  return (value,rest)

def integer? (text : List Char) : Option (Int × List Char) :=
  match text with
  | '0' :: 'x' :: rest => inBase? 16 rest
  | '0' :: 'o' :: rest => inBase? 8 rest
  | '0' :: 'b' :: rest => inBase? 2 rest
  | _ => do
    let (minus,rest) := sign text
    let (digits,rest) ← whole? rest
    let size := digitsValue digits
    guard (size < 0x8000000000000000 || (minus && size = 0x8000000000000000))
    return (if minus then -size else size,rest)

namespace Moment

def number? (width : Nat) (text : List Char) : Option (Nat × List Char) :=
  let digits := text.take width
  if digits.length = width && digits.all Char.isDigit then some (digitsValue digits,text.drop width) else none

def literal? (c : Char) : List Char → Option (List Char)
  | [] => none
  | d :: rest => if d = c then some rest else none

def date? (text : List Char) : Option (List Char) := do
  let (year,rest) ← number? 4 text
  let (month,rest) ← number? 2 (← literal? '-' rest)
  let (day,rest) ← number? 2 (← literal? '-' rest)
  guard (Day.isValid ⟨year,month,day⟩)
  return rest

def hourMinute? (text : List Char) : Option (List Char) := do
  let (hour,rest) ← number? 2 text
  let (minute,rest) ← number? 2 (← literal? ':' rest)
  guard (hour < 24 && minute < 60)
  return rest

def time? (text : List Char) : Option (List Char) := do
  let (second,rest) ← number? 2 (← literal? ':' (← hourMinute? text))
  guard (second ≤ 60)
  match rest with
  | '.' :: c :: after => return if c.isDigit then after.dropWhile Char.isDigit else rest
  | _ => return rest

def offset? : List Char → Option (List Char)
  | 'Z' :: rest | 'z' :: rest => some rest
  | '+' :: rest | '-' :: rest => hourMinute? rest
  | _ => none

def timeOfDay? : List Char → Option (List Char)
  | 'T' :: rest | 't' :: rest | ' ' :: rest => (time? rest).map fun rest => (offset? rest).getD rest
  | _ => none

def read? (text : List Char) : Option (List Char) :=
  match date? text with
  | some rest => some ((timeOfDay? rest).getD rest)
  | none => time? text

end Moment

def number (value : Float) : List Char := Decimal.Form.settings.chars value

end PinnedMap.Toml
