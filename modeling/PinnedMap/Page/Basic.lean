import PinnedMap.Page.Style

/-! A page: a store of elements, each with its parent and its ordered children, under one body.
Operations refuse unknown elements, loops and children of others, and then change nothing. -/
namespace PinnedMap

structure ElementId where
  index : Nat
deriving Repr, DecidableEq, Inhabited

def ElementId.label (id : ElementId) : String := "#" ++ toString id.index

structure Element where
  tag : String
  className : String := ""
  source : Option String := none
  styles : Styles := {}
  parent : Option ElementId := none
  children : List ElementId := []
  natural : Option Size := none
deriving Repr, DecidableEq, Inhabited

def Element.ofTag (tag : String) : Element := { tag := String.ofList (Text.lower tag.toList) }

def Element.isImage (element : Element) : Bool := element.tag == "img"

/-- Elements that are positioned by themselves leave their parent's size alone. -/
def Element.isOutOfFlow (element : Element) : Bool :=
  match element.styles.get? "position" with
  | some position => position == "absolute" || position == "fixed"
  | none => false

inductive PageFault where
  | unknownElement (id : ElementId)
  | ownSubtree (child parent : ElementId)
  | notAChild (child parent : ElementId)
  | notAnImage (id : ElementId) (tag : String)
deriving Repr, DecidableEq

def PageFault.message : PageFault → String
  | .unknownElement id => "unknown element " ++ id.label
  | .ownSubtree child parent => "cannot append " ++ child.label ++ " into its own subtree at " ++ parent.label
  | .notAChild child parent => child.label ++ " is not a child of " ++ parent.label
  | .notAnImage id tag => id.label ++ " is a <" ++ tag ++ ">, not an image"

structure Page where
  elements : Array Element
  viewport : Size
deriving Repr, DecidableEq

namespace Page

def body : ElementId := ⟨0⟩

def ofViewport (viewport : Size) : Page := ⟨#[Element.ofTag "body"],viewport⟩

def element? (page : Page) (id : ElementId) : Option Element := page.elements[id.index]?

def setViewport (page : Page) (viewport : Size) : Page := { page with viewport := viewport }

def create (page : Page) (tag : String) : ElementId × Page :=
  (⟨page.elements.size⟩,{ page with elements := page.elements.push (Element.ofTag tag) })

def update (page : Page) (id : ElementId) (change : Element → Element) : Page :=
  { page with elements := page.elements.modify id.index change }

def find (page : Page) (id : ElementId) : Except PageFault Element :=
  match page.element? id with
  | some element => .ok element
  | none => .error (.unknownElement id)

def edit (page : Page) (id : ElementId) (change : Element → Element) : Except PageFault Page := do
  let _ ← page.find id
  return page.update id change

def setStyle (page : Page) (id : ElementId) (property text : String) : Except PageFault Page :=
  page.edit id fun element => { element with styles := element.styles.set property text }

def setClass (page : Page) (id : ElementId) (name : String) : Except PageFault Page :=
  page.edit id fun element => { element with className := name }

/-- A new source makes the size of the old image meaningless. -/
def setSource (page : Page) (id : ElementId) (url : String) : Except PageFault Page :=
  page.edit id fun element => { element with source := some url, natural := none }

def style (page : Page) (id : ElementId) (property : String) : Option String :=
  (page.element? id).bind (·.styles.get? property)

def natural (page : Page) (id : ElementId) : Option Size := (page.element? id).bind (·.natural)

def parent (page : Page) (id : ElementId) : Option ElementId := (page.element? id).bind (·.parent)

def children (page : Page) (id : ElementId) : List ElementId := ((page.element? id).map (·.children)).getD []

/-- Whether `goal` is met on the way up from `start`; `none` if the walk takes more steps than allowed. -/
def reachesWithin (page : Page) (goal : ElementId) : (steps : Nat) → (start : ElementId) → Option Bool
  | 0, _ => none
  | steps + 1, start =>
    if start = goal then some true
    else match page.parent start with
      | some next => page.reachesWithin goal steps next
      | none => some false

/-- No walk up visits an element twice, so it visits each at most once, and perhaps one unknown first. -/
def walkLimit (page : Page) : Nat := page.elements.size + 1

def reaches (page : Page) (start goal : ElementId) : Bool := (page.reachesWithin goal page.walkLimit start).getD false

def isConnected (page : Page) (id : ElementId) : Bool := page.reaches id body

def unlink (page : Page) (child : ElementId) : Page :=
  match page.parent child with
  | none => page
  | some parent =>
    let without := page.update parent fun element => { element with children := element.children.filter (· != child) }
    without.update child fun element => { element with parent := none }

def append (page : Page) (parent child : ElementId) : Except PageFault Page := do
  let _ ← page.find parent
  let _ ← page.find child
  if page.reaches parent child then throw (.ownSubtree child parent)
  let added := (page.unlink child).update parent fun element => { element with children := element.children ++ [child] }
  return added.update child fun element => { element with parent := some parent }

def remove (page : Page) (parent child : ElementId) : Except PageFault Page := do
  let element ← page.find child
  if element.parent ≠ some parent then throw (.notAChild child parent)
  return page.unlink child

def resolveImage (page : Page) (id : ElementId) (size : Size) : Except PageFault Page := do
  let element ← page.find id
  if !element.isImage then throw (.notAnImage id element.tag)
  return page.update id fun element => { element with natural := some size }

def setStyles (page : Page) (id : ElementId) (table : StyleTable) : Except PageFault Page :=
  table.foldlM (fun page (property,value) => page.setStyle id property value.written) page

end Page
end PinnedMap
