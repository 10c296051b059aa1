import PinnedMap.Decimal.Form

/-! Numbers in JSON texts. Whole numbers that fit 64 bits are kept exactly. For all others the digits
that fit 64 bits are taken as a double and multiplied or divided by a power of ten, so the result can
differ in the last place from the nearest double. -/
namespace PinnedMap.Json

open Decimal

inductive Number where
  | natural (n : Nat)
  | negative (n : Nat)
  | real (value : Float)
  | tooLarge
deriving Repr, DecidableEq

def Number.toFloat : Number → Float
  | .natural n => nearest n 1
  | .negative n => -nearest n 1
  | .real value => value
  | .tooLarge => infinity

namespace Number

def gather (start : Nat) : List Char → Nat × Nat
  | [] => (start,0)
  | c :: digits =>
    let grown := start * 10 + (c.toNat - 48)
    if grown < 0x10000000000000000 then
      let (n,used) := gather grown digits
      (n,used + 1)
    else (start,0)

def powerOfTen (n : Nat) : Float := nearest (Nat.pow 10 n) 1

/-- Divides by steps of `1e308`; three of them leave nothing of a number of 64 bits. -/
def scaleDown : (steps : Nat) → (value : Float) → (exponent : Nat) → Float
  | 0, value, exponent => value / powerOfTen (min exponent 308)
  | steps + 1, value, exponent =>
    if exponent ≤ 308 then value / powerOfTen exponent
    else if value == 0 then value
    else scaleDown steps (value / powerOfTen 308) (exponent - 308)

def scaled (significand : Nat) (exponent : Int) : Option Float :=
  let value := nearest significand 1
  if exponent < 0 then some (scaleDown 3 value exponent.natAbs)
  else if exponent ≤ 308 then
    let product := value * powerOfTen exponent.toNat
    if kind product = .infinite then none else some product
  else if value == 0 then some value else none

structure Exponent where
  isNegative : Bool
  digits : List Char

/-- An exponent too long for 32 bits decides by its sign alone. -/
def withExponent (significand : Nat) (exponent : Int) : Option Exponent → Option Float
  | none => scaled significand exponent
  | some ⟨below,digits⟩ =>
    let size := digitsValue digits
    if 2147483647 < size then if significand ≠ 0 && !below then none else some (nearest 0 1)
    else scaled significand (if below then exponent - size else exponent + size)

def ofReal (minus : Bool) : Option Float → Number
  | some value => .real (signed minus value)
  | none => .tooLarge

def ofParts (minus : Bool) (whole : List Char) (fraction : List Char) (exponent : Option Exponent) : Number :=
  let (significand,used) := gather 0 whole
  let left := whole.length - used
  if left = 0 && fraction.isEmpty && exponent.isNone then
    if !minus then .natural significand
    else if significand = 0 || 0x8000000000000000 < significand then .real (-nearest significand 1)
    else .negative significand
  else
    let (significand,usedFraction) := gather significand fraction
    ofReal minus (withExponent significand ((left : Int) - usedFraction) exponent)

def readExponent : List Char → Option (Option Exponent × List Char)
  | 'e' :: rest | 'E' :: rest =>
    let (below,rest) := match rest with
      | '-' :: after => (true,after)
      | '+' :: after => (false,after)
      | _ => (false,rest)
    let digits := rest.takeWhile Char.isDigit
    if digits.isEmpty then none else some (some ⟨below,digits⟩,rest.dropWhile Char.isDigit)
  | rest => some (none,rest)

def readFraction : List Char → Option (List Char × List Char)
  | '.' :: rest =>
    let digits := rest.takeWhile Char.isDigit
    if digits.isEmpty then none else some (digits,rest.dropWhile Char.isDigit)
  | rest => some ([],rest)

def readWhole (text : List Char) : Option (List Char × List Char) :=
  let digits := text.takeWhile Char.isDigit
  match digits with
  | [] => none
  | '0' :: _ :: _ => none
  | _ => some (digits,text.dropWhile Char.isDigit)

def read (text : List Char) : Option (Number × List Char) := do
  let (minus,text) := match text with
    | '-' :: rest => (true,rest)
    | _ => (false,text)
  let (whole,text) ← readWhole text
  let (fraction,text) ← readFraction text
  let (exponent,text) ← readExponent text
  return (ofParts minus whole fraction exponent,text)

end Number
end PinnedMap.Json
