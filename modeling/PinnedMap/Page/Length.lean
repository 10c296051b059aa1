import PinnedMap.Decimal.Binary
import PinnedMap.Text.Blank

/-! Lengths in style texts: a decimal, alone or with `px` or `%`, or the word `fit-content`.
Every other text counts as `auto`. -/
namespace PinnedMap

open Decimal

inductive Length where
  | px (length : Float)
  | percent (share : Float)
  | fitContent
  | auto
deriving Repr, DecidableEq

namespace Length

def decimal? (text : List Char) : Option (Float × List Char) :=
  let whole := text.takeWhile Char.isDigit
  match text.dropWhile Char.isDigit with
  | '.' :: rest =>
    let fraction := rest.takeWhile Char.isDigit
    if whole.isEmpty && fraction.isEmpty then none
    else some (ofPoint whole fraction 0,rest.dropWhile Char.isDigit)
  | rest => if whole.isEmpty then none else some (ofPoint whole [] 0,rest)

def signedDecimal? : List Char → Option (Float × List Char)
  | '-' :: text => (decimal? text).map fun (number,rest) => (-number,rest)
  | text => decimal? text

def ofTrimmed (text : List Char) : Length :=
  if Text.lower text = "fit-content".toList then .fitContent
  else match signedDecimal? text with
    | none => .auto
    | some (number,rest) =>
      match Text.trimStart rest with
      | [] | ['p','x'] => .px number
      | ['%'] => .percent number
      | _ => .auto

def ofText (text : String) : Length := ofTrimmed (Text.trim text.toList)

def ofStyle : Option String → Length
  | none => .auto
  | some text => ofText text

end Length
end PinnedMap
