/-! Doubles as exact numbers `m * 2^q`. The nearest double of a ratio of naturals is found in
integer arithmetic: one quotient, rounded half to even, on the grid of the result. -/
namespace PinnedMap.Decimal

structure Binary where
  mantissa : Nat
  exponent : Int
  /-- The gap to the value below is half the gap to the value above. -/
  narrowBelow : Bool
deriving Repr, DecidableEq

inductive Kind where
  | nan
  | infinite
  | finite (magnitude : Binary)
deriving Repr, DecidableEq

def Binary.ofBits (exponentField fraction : Nat) : Binary :=
  if exponentField = 0 then ⟨fraction,-1074,false⟩
  else ⟨Nat.pow 2 52 + fraction,(exponentField : Int) - 1075,fraction = 0 && 1 < exponentField⟩

def isNegative (value : Float) : Bool := Nat.pow 2 63 ≤ value.toBits.toNat

def kind (value : Float) : Kind :=
  let bits := value.toBits.toNat % Nat.pow 2 63
  let fraction := bits % Nat.pow 2 52
  if bits / Nat.pow 2 52 = 2047 then if fraction = 0 then .infinite else .nan
  else .finite (Binary.ofBits (bits / Nat.pow 2 52) fraction)

def infinity : Float := Float.ofBits 0x7FF0000000000000

def roundedQuotient (numerator denominator : Nat) : Nat :=
  let quotient := numerator / denominator
  let twice := 2 * (numerator % denominator)
  if denominator < twice || (twice = denominator && quotient % 2 = 1) then quotient + 1 else quotient

/-- The power of two of the grid on which doubles near the ratio lie: 53 bits, none below `2^-1074`. -/
def gridExponent (numerator denominator : Nat) : Int :=
  let guess : Int := (numerator.log2 : Int) - denominator.log2 - 52
  -- The ratio lies between `2^(guess + 51)` and `2^(guess + 53)`.
  let isTooCoarse := numerator * Nat.pow 2 (-guess).toNat < denominator * Nat.pow 2 (guess.toNat + 52)
  max (if isTooCoarse then guess - 1 else guess) (-1074)

/-- The double nearest to a ratio, ties to even; infinite from halfway beyond the largest double on. -/
def nearest (numerator denominator : Nat) : Float :=
  if numerator = 0 then Float.ofBits 0 else
    let grid := gridExponent numerator denominator
    let mantissa := roundedQuotient (numerator * Nat.pow 2 (-grid).toNat) (denominator * Nat.pow 2 grid.toNat)
    -- A mantissa of `2^53` carries into the exponent field, which is its meaning.
    let bits := (grid + 1074).toNat * Nat.pow 2 52 + mantissa
    Float.ofBits (UInt64.ofNat (min bits 0x7FF0000000000000))

def digitCount (n : Nat) : Nat := if n = 0 then 0 else (Nat.toDigits 10 n).length

/-- The double nearest to `digits * 10^exponent`. Beyond the guards the answer is known without the power. -/
def ofScientific (digits : Nat) (exponent : Int) : Float :=
  let magnitude := (digitCount digits : Int) + exponent
  if digits = 0 || magnitude < -330 then Float.ofBits 0
  else if 320 < magnitude then infinity
  else nearest (digits * Nat.pow 10 exponent.toNat) (Nat.pow 10 (-exponent).toNat)

def signed (negative : Bool) (value : Float) : Float := if negative then -value else value

def digitsValue (digits : List Char) : Nat := digits.foldl (fun value c => 10 * value + (c.toNat - 48)) 0

def ofPoint (whole fraction : List Char) (exponent : Int) : Float :=
  ofScientific (digitsValue (whole ++ fraction)) (exponent - fraction.length)

end PinnedMap.Decimal
