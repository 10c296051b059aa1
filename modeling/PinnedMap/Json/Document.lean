import PinnedMap.Json.Number
import PinnedMap.Text.Blank

/-! The reading of a JSON text as a tree. Where the text goes wrong the tree breaks off, so that a
reader who walks it in the order of the text meets whichever fault comes first. -/
namespace PinnedMap.Json

/-- A string as written. Half of a surrogate pair is no character, so a literal with one is no text. -/
structure Literal where
  chars : List Char
  isText : Bool
deriving Repr, DecidableEq

inductive Node where
  | null
  | boolean (value : Bool)
  | number (value : Number)
  | text (literal : Literal)
  | array (items : List Node) (closed : Bool)
  | object (members : List (Literal × Node)) (closed : Bool)
  | broken
deriving Repr

abbrev Reading (α : Type) := α × Option (List Char)

def isSpace (c : Char) : Bool := c = ' ' || c = '\n' || c = '\t' || c = '\r'

def skipSpace (text : List Char) : List Char := text.dropWhile isSpace

namespace Literal

def unit : List Char → Option (Nat × List Char)
  | a :: b :: c :: d :: rest => (Text.hexValue? [a,b,c,d]).map (·,rest)
  | _ => none

/-- The character of a code unit, with the second half of its pair if it is a first half. -/
def character (unit : Nat) (next : Option Nat) : Option Char × Bool :=
  match Text.scalar? unit with
  | some c => (some c,false)
  | none =>
    match next with
    | some second =>
      if unit < 0xDC00 && 0xDC00 ≤ second && second < 0xE000 then
        (Text.scalar? (0x10000 + (unit - 0xD800) * 0x400 + (second - 0xDC00)),true)
      else (none,false)
    | none => (none,false)

def simpleEscape : Char → Option Char
  | '"' => some '"'
  | '\\' => some '\\'
  | '/' => some '/'
  | 'b' => some '\x08'
  | 'f' => some '\x0c'
  | 'n' => some '\n'
  | 'r' => some '\r'
  | 't' => some '\t'
  | _ => none

def nextUnit : List Char → Option (Nat × List Char)
  | '\\' :: 'u' :: rest => unit rest
  | _ => none

def cons (c : Char) (literal : Literal) : Literal := { literal with chars := c :: literal.chars }

def read : (fuel : Nat) → List Char → Option (Literal × List Char)
  | 0, _ | _, [] => none
  | fuel + 1, c :: rest =>
    if c = '"' then some (⟨[],true⟩,rest)
    else if c.toNat < 0x20 then none
    else if c ≠ '\\' then (read fuel rest).map fun (literal,rest) => (literal.cons c,rest)
    else match rest with
      | [] => none
      | 'u' :: _ => do
        let (first,after) ← nextUnit (c :: rest)
        let second := nextUnit after
        match character first (second.map (·.1)) with
        | (some d,true) =>
          let (literal,rest) ← read fuel ((second.map (·.2)).getD after)
          return (literal.cons d,rest)
        | (some d,false) =>
          let (literal,rest) ← read fuel after
          return (literal.cons d,rest)
        | (none,_) =>
          let (literal,rest) ← read fuel after
          return ({ literal with isText := false },rest)
      | d :: rest => do
        let e ← simpleEscape d
        let (literal,rest) ← read fuel rest
        return (literal.cons e,rest)

def string (literal : Literal) : String := String.ofList literal.chars

def ofString (text : String) : Literal := ⟨text.toList,true⟩

end Literal

namespace Node

def ofWord (word : String) (node : Node) (chars : List Char) : Reading Node :=
  match Text.without? word.toList chars with
  | some rest => (node,some rest)
  | none => (.broken,none)

mutual

def read : (fuel : Nat) → List Char → Reading Node
  | 0, _ => (.broken,none)
  | fuel + 1, chars =>
    match skipSpace chars with
    | 'n' :: rest => ofWord "ull" .null rest
    | 't' :: rest => ofWord "rue" (.boolean true) rest
    | 'f' :: rest => ofWord "alse" (.boolean false) rest
    | '"' :: rest =>
      match Literal.read fuel rest with
      | some (literal,rest) => (.text literal,some rest)
      | none => (.broken,none)
    | '[' :: rest =>
      match skipSpace rest with
      | ']' :: rest => (.array [] true,some rest)
      | rest =>
        let (items,rest) := readItems fuel rest
        (.array items rest.isSome,rest)
    | '\x7b' :: rest =>
      match skipSpace rest with
      | '\x7d' :: rest => (.object [] true,some rest)
      | rest =>
        let (members,rest) := readMembers fuel rest
        (.object members rest.isSome,rest)
    | rest =>
      match Number.read rest with
      | some (value,rest) => (.number value,some rest)
      | none => (.broken,none)

def readItems : (fuel : Nat) → List Char → Reading (List Node)
  | 0, _ => ([],none)
  | fuel + 1, chars =>
    match read fuel chars with
    | (item,none) => ([item],none)
    | (item,some rest) =>
      match skipSpace rest with
      | ',' :: rest =>
        let (items,rest) := readItems fuel rest
        (item :: items,rest)
      | ']' :: rest => ([item],some rest)
      | _ => ([item],none)

def readMembers : (fuel : Nat) → List Char → Reading (List (Literal × Node))
  | 0, _ => ([],none)
  | fuel + 1, chars =>
    match skipSpace chars with
    | '"' :: rest =>
      match Literal.read fuel rest with
      | none => ([],none)
      | some (key,rest) =>
        match skipSpace rest with
        | ':' :: rest =>
          match read fuel rest with
          | (value,none) => ([(key,value)],none)
          | (value,some rest) =>
            match skipSpace rest with
            | ',' :: rest =>
              let (members,rest) := readMembers fuel rest
              ((key,value) :: members,rest)
            | '\x7d' :: rest => ([(key,value)],some rest)
            | _ => ([(key,value)],none)
        | _ => ([(key,.broken)],none)
    | _ => ([],none)

end

mutual

/-- Whether the text of the tree is well-formed to its end, strings with half pairs included. -/
def isComplete : Node → Bool
  | .array items closed => closed && itemsComplete items
  | .object members closed => closed && membersComplete members
  | .broken => false
  | _ => true

def itemsComplete : List Node → Bool
  | [] => true
  | item :: items => item.isComplete && itemsComplete items

def membersComplete : List (Literal × Node) → Bool
  | [] => true
  | (_,value) :: members => value.isComplete && membersComplete members

end

end Node

structure Document where
  root : Node
  ends : Bool

def Document.ofChars (text : List Char) : Document :=
  let (root,rest) := Node.read (2 * text.length + 2) text
  ⟨root,match rest with | some rest => (skipSpace rest).isEmpty | none => false⟩

end PinnedMap.Json
