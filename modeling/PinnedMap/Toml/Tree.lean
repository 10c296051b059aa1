import PinnedMap.Toml.Document

/-! The tables that the parts of a TOML text make together. A table may grow in several places, but
it can be stated only once, and where it came from decides who may add to it. -/
namespace PinnedMap.Toml

inductive TableOrigin where
  | stated
  /-- A header goes through it; its own may still come. -/
  | implied
  | dotted
  | braced
deriving Repr, DecidableEq

inductive Node where
  | text (value : String)
  | integer (value : Int)
  | decimal (value : Float)
  | truth (value : Bool)
  | moment
  | array (items : List Node)
  | table (origin : TableOrigin) (members : List (String × Node))
  | tables (elements : List (List (String × Node)))
deriving Repr, Inhabited

abbrev Members := List (String × Node)

namespace Members

def set (members : Members) (name : String) (node : Node) : Members :=
  match members with
  | [] => [(name,node)]
  | (key,value) :: others => if key = name then (key,node) :: others else (key,value) :: set others name node

def changeLast (change : Members → Option Members) : List Members → Option (List Members)
  | [] => none
  | [members] => (change members).map ([·])
  | members :: others => (changeLast change others).map (members :: ·)

/-- Adds a value under a dotted key. The table right around it must have come from dotted keys too. -/
def insert (node : Node) (name : String) : (outer : List String) → Members → Option Members
  | [], members => if (members.lookup name).isSome then none else some (members ++ [(name,node)])
  | table :: outer, members =>
    match members.lookup table with
    | none => (insert node name outer []).map fun inner => members ++ [(table,.table .dotted inner)]
    | some (.table .dotted inner) =>
      (insert node name outer inner).map fun inner => set members table (.table .dotted inner)
    | some (.table .implied inner) =>
      if outer.isEmpty then none
      else (insert node name outer inner).map fun inner => set members table (.table .implied inner)
    | some (.tables elements) =>
      if outer.isEmpty then none
      else (changeLast (insert node name outer) elements).map fun elements => set members table (.tables elements)
    | _ => none

def change (change : Option Node → Option Node) (name : String) : (outer : List String) → Members → Option Members
  | [], members => (change (members.lookup name)).map (set members name)
  | table :: outer, members =>
    match members.lookup table with
    | none => (Members.change change name outer []).map fun inner => members ++ [(table,.table .implied inner)]
    | some (.table origin inner) =>
      if origin = .braced then none
      else (Members.change change name outer inner).map fun inner => set members table (.table origin inner)
    | some (.tables elements) =>
      (changeLast (Members.change change name outer) elements).map fun elements => set members table (.tables elements)
    | _ => none

end Members

mutual

def Node.ofValue : Value → Option Node
  | .text value => some (.text value)
  | .integer value => some (.integer value)
  | .decimal value => some (.decimal value)
  | .truth value => some (.truth value)
  | .moment => some .moment
  | .array items => (Node.ofItems items).map .array
  | .table pairs => (Members.addAll pairs []).map (.table .braced)

def Node.ofItems : List Value → Option (List Node)
  | [] => some []
  | item :: items => do return (← Node.ofValue item) :: (← Node.ofItems items)

def Members.addAll : List (Key × Value) → Members → Option Members
  | [], members => some members
  | (key,value) :: pairs, members => do
    let node ← Node.ofValue value
    Members.addAll pairs (← members.insert node key.name key.outer)

end

def Section.table (pairs : List Pair) (old : Option Node) : Option Node := do
  let members ← match old with
    | none => pure []
    | some (.table .implied members) => pure members
    | _ => none
  return .table .stated (← Members.addAll pairs members)

def Section.element (pairs : List Pair) (old : Option Node) : Option Node := do
  let elements ← match old with
    | none => pure []
    | some (.tables elements) => pure elements
    | _ => none
  return .tables (elements ++ [← Members.addAll pairs []])

def Section.addTo (members : Members) (part : Section) : Option Members :=
  match part.header with
  | .table key => members.change (Section.table part.pairs) key.name key.outer
  | .element key => members.change (Section.element part.pairs) key.name key.outer

def Document.members (document : Document) : Option Members := do
  document.sections.foldlM Section.addTo (← Members.addAll document.top [])

namespace Node

/-- What stands in the place of each of the fields of a record, given by the names that they go by. In a
table a field has at most one of its names; an array has its first elements in the order of the fields. -/
def fields (names : List (List String)) : Node → Option (List (Option Node))
  | .table _ members =>
    names.mapM fun names =>
      match members.filter (names.contains ·.1) with
      | [] => some none
      | [(_,node)] => some (some node)
      | _ => none
  | .array items => some ((List.range names.length).map (items[·]?))
  | .tables elements => some ((List.range names.length).map fun i => elements[i]?.map (.table .stated))
  -- A moment passes for a table without any known key.
  | .moment => some (names.map fun _ => none)
  | _ => none

def items? : Node → Option (List Node)
  | .array items => some items
  | .tables elements => some (elements.map (.table .stated))
  | _ => none

def text? : Node → Option String
  | .text value => some value
  | _ => none

def number? : Node → Option Float
  | .decimal value => some value
  | .integer value => some (Decimal.signed (value < 0) (Decimal.nearest value.natAbs 1))
  | _ => none

def isEmpty : Node → Bool
  | .array items => items.isEmpty
  | .table _ members => members.isEmpty
  | .tables elements => elements.isEmpty
  | _ => false

/-- A name, or a table with that name for its only key and nothing under it. -/
def name? : Node → Option String
  | .text value => some value
  | .table _ [(name,under)] => if under.isEmpty then some name else none
  | _ => none

end Node
end PinnedMap.Toml
