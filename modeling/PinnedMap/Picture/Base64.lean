/-! Base64 with the standard alphabet and required padding. Every sequence of bytes has one encoding,
and nothing else is accepted; the fault names the first byte that is out of place. -/
namespace PinnedMap.Base64

inductive Fault where
  | symbol (byte : UInt8) (offset : Nat)
  | lastSymbol (byte : UInt8) (offset : Nat)
  | length (bytes : Nat)
  | padding
deriving Repr, DecidableEq

def Fault.message : Fault → String
  | .symbol byte offset => "Invalid symbol " ++ toString byte.toNat ++ ", offset " ++ toString offset ++ "."
  | .lastSymbol byte offset => "Invalid last symbol " ++ toString byte.toNat ++ ", offset " ++ toString offset ++ "."
  | .length bytes => "Invalid input length: " ++ toString bytes
  | .padding => "Invalid padding"

def pad : UInt8 := 61

def sextet? (byte : UInt8) : Option Nat :=
  let n := byte.toNat
  if 65 ≤ n && n ≤ 90 then some (n - 65)
  else if 97 ≤ n && n ≤ 122 then some (n - 71)
  else if 48 ≤ n && n ≤ 57 then some (n + 4)
  else if n = 43 then some 62
  else if n = 47 then some 63
  else none

def symbol (sextet : Nat) : UInt8 :=
  UInt8.ofNat <|
    if sextet < 26 then sextet + 65
    else if sextet < 52 then sextet + 71
    else if sextet < 62 then sextet - 4
    else if sextet = 62 then 43
    else 47

def encode : List UInt8 → List UInt8
  | [] => []
  | [a] => [symbol (a.toNat / 4),symbol (a.toNat % 4 * 16),pad,pad]
  | [a,b] => [symbol (a.toNat / 4),symbol (a.toNat % 4 * 16 + b.toNat / 16),symbol (b.toNat % 16 * 4),pad]
  | a :: b :: c :: rest =>
    symbol (a.toNat / 4) :: symbol (a.toNat % 4 * 16 + b.toNat / 16) ::
      symbol (b.toNat % 16 * 4 + c.toNat / 64) :: symbol (c.toNat % 64) :: encode rest

def pack : List Nat → List UInt8
  | a :: b :: c :: d :: rest =>
    UInt8.ofNat (a * 4 + b / 16) :: UInt8.ofNat (b % 16 * 16 + c / 4) :: UInt8.ofNat (c % 4 * 64 + d) :: pack rest
  | [a,b,c] => [UInt8.ofNat (a * 4 + b / 16),UInt8.ofNat (b % 16 * 16 + c / 4)]
  | [a,b] => [UInt8.ofNat (a * 4 + b / 16)]
  | _ => []

def unusedBits (sextets : List Nat) : Nat :=
  match sextets with
  | [_,b] => b % 16
  | [_,_,c] => c % 4
  | _ => 0

def sextets (offset : Nat) : List UInt8 → Except Fault (List Nat)
  | [] => .ok []
  | byte :: rest =>
    match sextet? byte with
    | some value => (sextets (offset + 1) rest).map (value :: ·)
    | none => .error (.symbol byte offset)

def isSymbol (byte : UInt8) : Bool := (sextet? byte).isSome

def lastQuad (offset : Nat) (quad : List UInt8) : Except Fault (List Nat) := do
  let symbols := quad.takeWhile isSymbol
  let padding := quad.dropWhile isSymbol
  let stop := offset + symbols.length
  match padding with
  | byte :: more => if byte ≠ pad || symbols.length < 2 || more.any (· ≠ pad) then throw (.symbol byte stop)
  | [] => if symbols.length < 2 then throw (.length stop)
  if quad.length ≠ 4 then throw .padding
  let values := symbols.filterMap sextet?
  if unusedBits values ≠ 0 then throw (.lastSymbol (symbols.getLast?.getD pad) (stop - 1))
  return values

def decode (bytes : List UInt8) : Except Fault (List UInt8) := do
  let offset := (bytes.length - 1) / 4 * 4
  -- A lone last byte that could not even be padding is named before all else.
  match bytes.drop offset with
  | [] => return []
  | [byte] => if !isSymbol byte && byte ≠ pad then throw (.symbol byte offset)
  | _ => pure ()
  let whole ← sextets 0 (bytes.take offset)
  let rest ← lastQuad offset (bytes.drop offset)
  return pack (whole ++ rest)

end PinnedMap.Base64
