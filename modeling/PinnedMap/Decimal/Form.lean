import PinnedMap.Decimal.Shortest

/-! How numbers are written: in style texts and messages, in JSON, and in settings files. -/
namespace PinnedMap.Decimal

structure Form where
  tie : Tie
  pointZero : Bool
  /-- The scales that are written without an exponent; `none` for all. -/
  plainScales : Option (Int × Int)
  /-- The word for NaN, with `inf` and `-inf` beside it; `none` if all three are written `null`. -/
  nan : Option String

def Form.plain : Form := ⟨.up,false,none,some "NaN"⟩

def Form.settings : Form := ⟨.up,true,none,some "nan"⟩

/-- JSON: an exponent below `1e-5` and from `1e16` on. The format has no NaN and no infinity. -/
def Form.json : Form := ⟨.toEven,true,some (-4,16),none⟩

/-- The digits with the point after the first `scale` of them, filled up with zeros. -/
def positional (digits : List Char) (scale : Int) (pointZero : Bool) : List Char :=
  if digits.length ≤ scale then
    digits ++ List.replicate (scale.toNat - digits.length) '0' ++ (if pointZero then ['.','0'] else [])
  else if 0 < scale then digits.take scale.toNat ++ '.' :: digits.drop scale.toNat
  else '0' :: '.' :: (List.replicate (-scale).toNat '0' ++ digits)

def scientific (digits : List Char) (scale : Int) : List Char :=
  let power := scale - 1
  let fraction := if digits.length ≤ 1 then [] else '.' :: digits.drop 1
  digits.take 1 ++ fraction ++ 'e' :: (if power < 0 then '-' else '+') :: Nat.toDigits 10 power.natAbs

def Form.layout (form : Form) (decimal : Digits) : List Char :=
  let digits := Nat.toDigits 10 decimal.digits
  let scale := (digits.length : Int) + decimal.exponent
  match form.plainScales with
  | none => positional digits scale form.pointZero
  | some (least,most) =>
    if least ≤ scale && scale ≤ most then positional digits scale form.pointZero else scientific digits scale

def Form.finite (form : Form) (magnitude : Binary) : List Char :=
  if magnitude.mantissa = 0 then positional ['0'] 1 form.pointZero else form.layout (magnitude.shortest form.tie)

def Form.chars (form : Form) (value : Float) : List Char :=
  let sign := if isNegative value then ['-'] else []
  match kind value, form.nan with
  | .finite magnitude, _ => sign ++ form.finite magnitude
  | .nan, some word => word.toList
  | .infinite, some _ => sign ++ "inf".toList
  | _, none => "null".toList

def Form.text (form : Form) (value : Float) : String := String.ofList (form.chars value)

def plainText (value : Float) : String := Form.plain.text value

end PinnedMap.Decimal
