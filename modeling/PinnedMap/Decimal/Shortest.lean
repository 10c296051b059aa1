import PinnedMap.Decimal.Binary

/-! The shortest decimal that reads back as a given double. On the grids of one, two, … seventeen
digits the two neighbours of the value are tried; the first grid with a hit wins, of two hits the
nearer one. Only a tie between them is left to the format. -/
namespace PinnedMap.Decimal

structure Digits where
  digits : Nat
  exponent : Int
deriving Repr, DecidableEq

inductive Tie where
  | toEven
  | up
deriving Repr, DecidableEq

def Digits.compare (decimal : Digits) (m : Nat) (q : Int) : Ordering :=
  Ord.compare (decimal.digits * Nat.pow 10 decimal.exponent.toNat * Nat.pow 2 (-q).toNat)
    (m * Nat.pow 2 q.toNat * Nat.pow 10 (-decimal.exponent).toNat)

/-- The decimal lies among the reals that round to the double; the ends do if the mantissa is even. -/
def Binary.readsBack (value : Binary) (decimal : Digits) : Bool :=
  let low := if value.narrowBelow then 4 * value.mantissa - 1 else 4 * value.mantissa - 2
  let high := 4 * value.mantissa + 2
  let ends := value.mantissa % 2 = 0
  let below := decimal.compare low (value.exponent - 2)
  let above := decimal.compare high (value.exponent - 2)
  (below = .gt || (ends && below = .eq)) && (above = .lt || (ends && above = .eq))

/-- The number of digits before the point, less the zeros after it: `10^(s-1) ≤ value < 10^s`. -/
def Binary.scale (value : Binary) : Int :=
  let numerator := value.mantissa * Nat.pow 2 value.exponent.toNat
  let denominator := Nat.pow 2 (-value.exponent).toNat
  if denominator ≤ numerator then digitCount (numerator / denominator)
  else 1 - (digitCount ((denominator - 1) / numerator) : Int)

def Binary.floorAt (value : Binary) (exponent : Int) : Nat :=
  value.mantissa * Nat.pow 2 value.exponent.toNat * Nat.pow 10 (-exponent).toNat /
    (Nat.pow 2 (-value.exponent).toNat * Nat.pow 10 exponent.toNat)

def Binary.neighbour (value : Binary) (tie : Tie) (exponent : Int) : Option Digits :=
  let lower : Digits := ⟨value.floorAt exponent,exponent⟩
  let upper : Digits := ⟨value.floorAt exponent + 1,exponent⟩
  match value.readsBack lower, value.readsBack upper with
  | true, false => some lower
  | false, true => some upper
  | false, false => none
  | true, true =>
    match Digits.compare ⟨2 * lower.digits + 1,exponent⟩ (2 * value.mantissa) value.exponent with
    | .gt => some lower
    | .lt => some upper
    | .eq => if tie = .toEven && lower.digits % 2 = 0 then some lower else some upper

def Binary.exact (value : Binary) : Digits :=
  ⟨value.mantissa * Nat.pow 2 value.exponent.toNat * Nat.pow 5 (-value.exponent).toNat,min value.exponent 0⟩

def stripZeros (digits : Nat) (exponent : Int) : Digits :=
  if digits = 0 then ⟨0,0⟩
  else if digits % 10 = 0 then stripZeros (digits / 10) (exponent + 1)
  else ⟨digits,exponent⟩
termination_by digits

def Binary.shortest (value : Binary) (tie : Tie) : Digits :=
  let found := (List.range 17).findSome? fun (count : Nat) => value.neighbour tie (value.scale - (count + 1))
  let decimal := found.getD value.exact
  stripZeros decimal.digits decimal.exponent

end PinnedMap.Decimal
