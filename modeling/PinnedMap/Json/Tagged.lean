import PinnedMap.Json.Value

/-! Sums whose members stand beside a tag that says which of them it is. The tag may stand anywhere:
members before it are put aside and read when it is known. -/
namespace PinnedMap.Json

structure Variant (α : Type) where
  name : String
  read : Node → Except Fault α
  members? : α → Option (List (List Char))

def Fields.variant {α β : Type} (fields : Fields β) (name title : String) (build : β → α) (parts? : α → Option β) :
    Variant α where
  name
  read node := (fields.read ("struct variant " ++ title) .aside node).map build
  members? value := (parts? value).map fields.writeMembers

structure Tagged (α : Type) where
  name : String
  tag : String
  variants : List (Variant α)

namespace Tagged

variable {α : Type}

def select (sum : Tagged α) (node : Node) : Except Fault (Variant α) :=
  match node with
  | .text literal => do
    let name ← literal.text?
    match sum.variants.find? (·.name == name) with
    | some variant => return variant
    | none => throw (.data (.unknownVariant name (sum.variants.map (·.name))))
  | _ => .error (node.mismatch "variant identifier")

def setAside (node : Node) : Except Fault Unit :=
  if (Value.ofNode (depthLimit - 1) node).isSome then .ok () else .error .syntactic

def gather (sum : Tagged α) (variant : Option (Variant α)) (aside : List (Literal × Node)) :
    List (Literal × Node) → Except Fault (Option (Variant α) × List (Literal × Node))
  | [] => .ok (variant,aside.reverse)
  | (key,value) :: members => do
    if (← key.text?) = sum.tag then
      if variant.isSome then throw (.data (.duplicateField sum.tag))
      gather sum (some (← sum.select value)) aside members
    else
      setAside value
      gather sum variant ((key,value) :: aside) members

def read (sum : Tagged α) (node : Node) : Except Fault α :=
  match node with
  | .object members closed => do
    let (variant,others) ← sum.gather none [] members
    if !closed then throw .syntactic
    match variant with
    | some variant => variant.read (.object others true)
    | none => throw (.data (.missingField sum.tag))
  | .array [] closed => if closed then .error (.data (.missingField sum.tag)) else .error .syntactic
  | .array (first :: items) closed => do
    let variant ← sum.select first
    items.forM setAside
    if closed then variant.read (.array items true) else throw .syntactic
  | _ => .error (node.mismatch ("internally tagged enum " ++ sum.name))

def write (sum : Tagged α) (value : α) : List Char :=
  let written := sum.variants.findSome? fun variant =>
    (variant.members? value).map fun members => brace (member sum.tag (quote variant.name) :: members)
  written.getD []

def codec (sum : Tagged α) : Codec α where
  read _ := sum.read
  write := sum.write

end Tagged
end PinnedMap.Json
