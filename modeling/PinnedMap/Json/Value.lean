import PinnedMap.Json.Codec

/-! JSON values: what a text means, whatever its blanks, the order of its members, and the members that
later ones of the same name replace. -/
namespace PinnedMap.Json

inductive Value where
  | null
  | boolean (value : Bool)
  | number (value : Number)
  | text (value : String)
  | array (items : List Value)
  /-- Members in the order of their names, one for each name. -/
  | object (members : List (String × Value))
deriving Repr

def depthLimit : Nat := 127

namespace Value

def insert (name : String) (value : Value) : List (String × Value) → List (String × Value)
  | [] => [(name,value)]
  | (other,old) :: members =>
    if name = other then (name,value) :: members
    else if name < other then (name,value) :: (other,old) :: members
    else (other,old) :: insert name value members

mutual

/-- The value of a tree that is whole, of numbers that are doubles, and not too deep. -/
def ofNode (depth : Nat) : Node → Option Value
  | .null => some .null
  | .boolean value => some (.boolean value)
  | .number .tooLarge => none
  | .number value => some (.number value)
  | .text literal => if literal.isText then some (.text literal.string) else none
  | .array items closed =>
    if closed && 0 < depth then (ofItems (depth - 1) items).map .array else none
  | .object members closed =>
    if closed && 0 < depth then (ofMembers (depth - 1) [] members).map .object else none
  | .broken => none

def ofItems (depth : Nat) : List Node → Option (List Value)
  | [] => some []
  | item :: items => do return (← ofNode depth item) :: (← ofItems depth items)

def ofMembers (depth : Nat) (found : List (String × Value)) : List (Literal × Node) → Option (List (String × Value))
  | [] => some found
  | (key,node) :: members => do
    let value ← ofNode depth node
    if key.isText then ofMembers depth (insert key.string value found) members else none

end

mutual

def toNode : Value → Node
  | .null => .null
  | .boolean value => .boolean value
  | .number value => .number value
  | .text value => .text (Literal.ofString value)
  | .array items => .array (toItems items) true
  | .object members => .object (toMembers members) true

def toItems : List Value → List Node
  | [] => []
  | item :: items => item.toNode :: toItems items

def toMembers : List (String × Value) → List (Literal × Node)
  | [] => []
  | (name,value) :: members => (Literal.ofString name,value.toNode) :: toMembers members

end

def ofChars (text : List Char) : Except Fault Value :=
  let document := Document.ofChars text
  match ofNode depthLimit document.root with
  | some value => if document.ends then .ok value else .error .syntactic
  | none => .error .syntactic

end Value
end PinnedMap.Json
