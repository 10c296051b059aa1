import PinnedMap.ImageMap.Basic
import PinnedMap.Text.Unprintable

/-! The written forms of identifiers: groups of 8, 4, 4, 4 and 12 hexadecimal digits. -/
namespace PinnedMap.Uuid

/-- An identifier of random bits: version 4, in the variant that all of them here have. -/
def random (bits : BitVec 128) : Uuid :=
  ⟨bits &&& ~~~(0xF000#128 <<< 64 ||| 0xC000#128 <<< 48) ||| (0x4000#128 <<< 64 ||| 0x8000#128 <<< 48)⟩

def groups : List Nat := [8,4,4,4,12]

def cut : List Nat → List Char → List (List Char)
  | [], _ => []
  | size :: sizes, digits => digits.take size :: cut sizes (digits.drop size)

def chars (id : Uuid) : List Char := Text.join ['-'] (cut groups (Text.hex 32 id.value.toNat))

def text (id : Uuid) : String := String.ofList id.chars

/-- Why a text is no identifier. Places and groups count from zero. -/
inductive Fault where
  | length (found : Nat)
  | character (found : Char) (place : Nat)
  | groupCount (found : Nat)
  | groupLength (group expected found : Nat)
deriving Repr, DecidableEq

def Fault.message : Fault → String
  | .length found => "invalid length: found " ++ toString found
  | .character found place => "invalid character: found " ++ Text.inTicks (String.singleton found) ++ " at " ++ toString place
  | .groupCount found => "invalid group count: expected 5, found " ++ toString found
  | .groupLength group expected found =>
    "invalid group length in group " ++ toString group ++ ": expected " ++ toString expected ++ ", found " ++
      toString found

/-- What stands in braces or after `urn:uuid:` in letters of either case, else the whole text, and the
number of characters before it. -/
def unwrap (text : List Char) : List Char × Nat :=
  let opening := "urn:uuid:".toList
  if Text.lower (text.take opening.length) = opening then (text.drop opening.length,opening.length)
  else match text with
    | '\x7b' :: rest => if rest.getLast? = some '\x7d' then (rest.dropLast,1) else (text,0)
    | _ => (text,0)

def longest : Nat := 45

def ofDigits (digits : List Char) : Uuid := ⟨BitVec.ofNat 128 ((Text.hexValue? digits).getD 0)⟩

/-- Reads five groups. The last one, if it is at fault, is measured to the end of the text of which `total`
is the length. -/
def ofGroups (total : Nat) (parts : List (List Char)) : Except Fault Uuid :=
  if parts.length ≠ groups.length then .error (.groupCount parts.length)
  else match (groups.zip (parts.map List.length)).zipIdx.find? fun ((expected,found),_) => expected ≠ found with
    | some ((expected,found),group) =>
      .error (.groupLength group expected (if group = 4 then total - 24 else found))
    | none => .ok (ofDigits parts.flatten)

def ofChars (text : List Char) : Except Fault Uuid := do
  let total := (String.ofList text).utf8ByteSize
  if longest < total then throw (.length total)
  let (body,before) := unwrap text
  let odd := body.zipIdx.find? fun (c,_) => c ≠ '-' && (Text.hexDigit? c).isNone
  if let some (c,place) := odd then throw (.character c (before + place))
  match Text.splitOn '-' body with
  | [digits] =>
    if before ≠ 0 then throw (.groupCount 1)
    else if total ≠ 32 then throw (.length total)
    else return ofDigits digits
  | parts => ofGroups total parts

end PinnedMap.Uuid
