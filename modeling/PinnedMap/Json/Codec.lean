import PinnedMap.Json.Document
import PinnedMap.Json.Fault
import PinnedMap.Text.Blank

/-! Types with a JSON form: how a value is read from a tree and how it is written. Fields of a record
are read in the order in which they stand; the first fault on the way is the answer. -/
namespace PinnedMap.Json

open Decimal

inductive Origin where
  | text
  | value
  /-- Put aside until the tag of its object was met. -/
  | aside
deriving Repr, DecidableEq

/-- The fault for an array of `length` elements of which only `used` have a place. -/
def Origin.surplus (origin : Origin) (used length : Nat) : Fault :=
  match origin with
  | .text => .syntactic
  | .value => .data (.invalidLength length "fewer elements in array")
  | .aside =>
    let elements := if used = 1 then "1 element" else toString used ++ " elements"
    .data (.invalidLength length (elements ++ " in sequence"))

structure Codec (α : Type) where
  read : Origin → Node → Except Fault α
  write : α → List Char

def Node.mismatch (node : Node) (expected : String) : Fault :=
  match node with
  | .null => .data (.invalidType .null expected)
  | .boolean value => .data (.invalidType (.boolean value) expected)
  | .number (.natural n) => .data (.invalidType (.integer n) expected)
  | .number (.negative n) => .data (.invalidType (.integer (-n)) expected)
  | .number (.real value) => .data (.invalidType (.real value) expected)
  | .number .tooLarge => .syntactic
  | .text literal => if literal.isText then .data (.invalidType (.text literal.string) expected) else .syntactic
  | .array .. => .data (.invalidType .sequence expected)
  | .object .. => .data (.invalidType .map expected)
  | .broken => .syntactic

def Node.skip (node : Node) : Except Fault Unit := if node.isComplete then .ok () else .error .syntactic

def Literal.text? (literal : Literal) : Except Fault String :=
  if literal.isText then .ok literal.string else .error .syntactic

def escape (c : Char) : List Char :=
  match c with
  | '"' => ['\\','"']
  | '\\' => ['\\','\\']
  | '\n' => ['\\','n']
  | '\r' => ['\\','r']
  | '\t' => ['\\','t']
  | '\x08' => ['\\','b']
  | '\x0c' => ['\\','f']
  | _ => if c.toNat < 0x20 then '\\' :: 'u' :: Text.hex 4 c.toNat else [c]

def quote (text : String) : List Char := '"' :: text.toList.flatMap escape ++ ['"']

def bracket (items : List (List Char)) : List Char := '[' :: Text.join [','] items ++ [']']

def brace (members : List (List Char)) : List Char := '\x7b' :: Text.join [','] members ++ ['\x7d']

def member (name : String) (value : List Char) : List Char := quote name ++ ':' :: value

namespace Codec

def number : Codec Float where
  read _ node :=
    match node with
    | .number .tooLarge => .error .syntactic
    | .number n => .ok n.toFloat
    | _ => .error (node.mismatch "f64")
  write := Form.json.chars

def count : Codec Nat where
  read _ node :=
    match node with
    | .number (.natural n) => .ok n
    | .number (.negative n) => .error (.data (.invalidValue (.integer (-n)) "usize"))
    | _ => .error (node.mismatch "usize")
  write n := Nat.toDigits 10 n

def string : Codec String where
  read _ node :=
    match node with
    | .text literal => literal.text?
    | _ => .error (node.mismatch "a string")
  write := quote

def written {α : Type} (expected : String) (ofText : String → Except String α) (text : α → String) : Codec α where
  read _ node :=
    match node with
    | .text literal => do
      match ofText (← literal.text?) with
      | .ok value => return value
      | .error reason => throw (.data (.malformed reason))
    | _ => .error (node.mismatch expected)
  write value := quote (text value)

def optional {α : Type} (codec : Codec α) : Codec (Option α) where
  read origin node :=
    match node with
    | .null => .ok none
    | _ => (codec.read origin node).map some
  write
    | none => "null".toList
    | some value => codec.write value

def list {α : Type} (codec : Codec α) : Codec (List α) where
  read origin node :=
    match node with
    | .array items closed => do
      let values ← items.mapM (codec.read origin)
      if closed then return values else throw .syntactic
    | _ => .error (node.mismatch "a sequence")
  write values := bracket (values.map codec.write)

def endOfArray (origin : Origin) (used : Nat) (rest : List Node) (closed : Bool) : Except Fault Unit :=
  match rest with
  | [] => if closed then .ok () else .error .syntactic
  | _ => .error (origin.surplus used (used + rest.length))

def pair {α : Type} (codec : Codec α) : Codec (α × α) where
  read origin node :=
    match node with
    | .array items closed => do
      let short := fun length => if closed then Fault.data (.invalidLength length "an array of length 2") else .syntactic
      match items with
      | [] => throw (short 0)
      | [one] =>
        let _ ← codec.read origin one
        throw (short 1)
      | one :: other :: rest =>
        let first ← codec.read origin one
        let second ← codec.read origin other
        endOfArray origin 2 rest closed
        return (first,second)
    | _ => .error (node.mismatch "an array of length 2")
  write value := bracket [codec.write value.1,codec.write value.2]

def imap {α β : Type} (codec : Codec α) (toValue : α → β) (ofValue : β → α) : Codec β where
  read origin node := (codec.read origin node).map toValue
  write value := codec.write (ofValue value)

/-- The name of one of the choices, or an object with that name for its only key and `null` under it. -/
def choice {α : Type} [DecidableEq α] (choices : List (String × α)) : Codec α where
  read _ node := do
    let find := fun (name : String) =>
      match choices.lookup name with
      | some value => Except.ok value
      | none => .error (.data (.unknownVariant name (choices.map (·.1))))
    match node with
    | .text literal => find (← literal.text?)
    | .object ((key,under) :: others) closed =>
      let value ← find (← key.text?)
      match under with
      | .null => if closed && others.isEmpty then return value else throw .syntactic
      | _ => throw (under.mismatch "unit")
    | _ => throw .syntactic
  write value := quote (((choices.find? (·.2 = value)).map (·.1)).getD "")

end Codec

structure Field (α : Type) where
  name : String
  alias? : Option String := none
  codec : Codec α
  /-- Its value where it is missing, if it may be. -/
  absent : Option α := none
  isOmitted : α → Bool := fun _ => false

def Field.answersTo {α : Type} (field : Field α) (key : String) : Bool :=
  field.name == key || field.alias? == some key

inductive Fields : Type → Type 1 where
  | nil : Fields Unit
  | cons {α β : Type} (field : Field α) (rest : Fields β) : Fields (α × β)

namespace Fields

def Draft : {α : Type} → Fields α → Type
  | _, .nil => Unit
  | _, @Fields.cons α _ _ rest => Option α × rest.Draft

def empty : {α : Type} → (fields : Fields α) → fields.Draft
  | _, .nil => ()
  | _, .cons _ rest => (none,rest.empty)

def take (origin : Origin) (key : String) (value : Node) :
    {α : Type} → (fields : Fields α) → fields.Draft → Except Fault fields.Draft
  | _, .nil, () => value.skip
  | _, .cons field rest, drafts =>
    let (slot,draft) : Option _ × rest.Draft := drafts
    if field.answersTo key then
      match slot with
      | some _ => .error (.data (.duplicateField field.name))
      | none => (field.codec.read origin value).map fun read => (some read,draft)
    else (take origin key value rest draft).map fun draft => (slot,draft)

def takeAll (origin : Origin) {α : Type} (fields : Fields α) :
    List (Literal × Node) → fields.Draft → Except Fault fields.Draft
  | [], draft => .ok draft
  | (key,value) :: members, draft => do
    fields.takeAll origin members (← fields.take origin (← key.text?) value draft)

def complete : {α : Type} → (fields : Fields α) → fields.Draft → Except Fault α
  | _, .nil, () => .ok ()
  | _, .cons field rest, drafts => do
    let (slot,draft) : Option _ × rest.Draft := drafts
    let value ← match slot.or field.absent with
      | some value => pure value
      | none => throw (.data (.missingField field.name))
    return (value,← rest.complete draft)

def readItems (origin : Origin) (short : Nat → Fault) (closed : Bool) :
    {α : Type} → (fields : Fields α) → (used : Nat) → List Node → Except Fault α
  | _, .nil, used, rest => Codec.endOfArray origin used rest closed
  | _, .cons field rest, used, item :: items => do
    let value ← field.codec.read origin item
    return (value,← rest.readItems origin short closed (used + 1) items)
  | _, .cons field rest, used, [] => do
    if !closed then throw .syntactic
    match field.absent with
    | some value => return (value,← rest.readItems origin short closed (used + 1) [])
    | none => throw (short used)

def size : {α : Type} → Fields α → Nat
  | _, .nil => 0
  | _, .cons _ rest => rest.size + 1

def writeMembers : {α : Type} → Fields α → α → List (List Char)
  | _, .nil, () => []
  | _, .cons field rest, (value,values) =>
    let others := rest.writeMembers values
    if field.isOmitted value then others else member field.name (field.codec.write value) :: others

def read {α : Type} (fields : Fields α) (name : String) (origin : Origin) (node : Node) : Except Fault α :=
  match node with
  | .object members closed => do
    let draft ← fields.takeAll origin members fields.empty
    if closed then fields.complete draft else throw .syntactic
  | .array items closed =>
    let elements := if fields.size = 1 then " with 1 element" else " with " ++ toString fields.size ++ " elements"
    fields.readItems origin (fun used => .data (.invalidLength used (name ++ elements))) closed 0 items
  | _ => .error (node.mismatch name)

def codec {α : Type} (fields : Fields α) (name : String) : Codec α where
  read := fields.read name
  write value := brace (fields.writeMembers value)

end Fields

def Codec.ofChars {α : Type} (codec : Codec α) (text : List Char) : Except Fault α := do
  let document := Document.ofChars text
  let value ← codec.read .text document.root
  if document.ends then return value else throw .syntactic

end PinnedMap.Json
