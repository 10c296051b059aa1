import PinnedMap.Page.Basic
import PinnedMap.Page.Length

/-! Layout: widths come down from the viewport, natural sizes up from the images, heights from the
widths. Each walk is given a number of steps and is `none` if it needs more; on a tree the number of
elements, and one more, is enough. -/
namespace PinnedMap.Page

def lengthOf (element : Element) (property : String) : Length := Length.ofStyle (element.styles.get? property)

def inFlow (page : Page) (element : Element) : List (ElementId × Element) :=
  element.children.filterMap fun id =>
    match page.element? id with
    | some child => if child.isOutOfFlow then none else some (id,child)
    | none => none

def greatest (lengths : List Float) : Float := lengths.foldl greater 0

def contentWidthWithin (page : Page) : (steps : Nat) → (id : ElementId) → Option Float
  | 0, _ => none
  | steps + 1, id =>
    match page.element? id with
    | none => some 0
    | some element =>
      if element.isImage then some ((element.natural.map (·.width)).getD 0)
      else do
        let widths ← (page.inFlow element).mapM fun (childId,child) =>
          match lengthOf child "width" with
          | .px width => some width
          | _ => page.contentWidthWithin steps childId
        return greatest widths

def contentWidth (page : Page) (id : ElementId) : Float := (page.contentWidthWithin page.walkLimit id).getD 0

def wantedWidth (page : Page) (id : ElementId) (element : Element) (available : Float) : Float :=
  match lengthOf element "width" with
  | .px width => width
  | .percent share => available * share / 100
  | .fitContent => lesser (page.contentWidth id) available
  | .auto =>
    if element.isImage then lesser (page.contentWidth id) available
    else if element.isOutOfFlow then page.contentWidth id
    else available

def limitedWidth (element : Element) (available wanted : Float) : Float :=
  let limited := match lengthOf element "max-width" with
    | .px limit => lesser wanted limit
    | .percent share => lesser wanted (available * share / 100)
    | _ => wanted
  greater limited 0

def widthWithin (page : Page) : (steps : Nat) → (id : ElementId) → Option Float
  | 0, _ => none
  | steps + 1, id =>
    if id = body then some page.viewport.width
    else match page.element? id with
      | none => some 0
      | some element => do
        let available ← match element.parent with
          | some parent => page.widthWithin steps parent
          | none => some 0
        return limitedWidth element available (page.wantedWidth id element available)

def width (page : Page) (id : ElementId) : Float := (page.widthWithin page.walkLimit id).getD 0

def definiteParentHeight (page : Page) (element : Element) : Option Float :=
  match (element.parent.bind page.element?).map (lengthOf · "height") with
  | some (.px height) => some height
  | _ => none

/-- The height that a style fixes; a share counts only of a parent's height that is fixed itself. -/
def fixedHeight (page : Page) (element : Element) : Option Float :=
  match lengthOf element "height" with
  | .px height => some height
  | .percent share => (page.definiteParentHeight element).map fun height => height * share / 100
  | _ => none

def imageHeight (page : Page) (id : ElementId) (element : Element) : Float :=
  match element.natural with
  | some natural => if natural.width > 0 then page.width id * natural.height / natural.width else 0
  | none => 0

def heightWithin (page : Page) : (steps : Nat) → (id : ElementId) → Option Float
  | 0, _ => none
  | steps + 1, id =>
    if id = body then some page.viewport.height
    else match page.element? id with
      | none => some 0
      | some element =>
        match page.fixedHeight element with
        | some height => some height
        | none =>
          if element.isImage then some (page.imageHeight id element)
          else do
            let heights ← (page.inFlow element).mapM fun (childId,_) => page.heightWithin steps childId
            return greatest heights

def height (page : Page) (id : ElementId) : Float := (page.heightWithin page.walkLimit id).getD 0

/-- The size an element has on the screen: none unless it hangs from the body. -/
def renderedSize (page : Page) (id : ElementId) : Size :=
  if page.isConnected id then ⟨page.width id,page.height id⟩ else Size.zero

end PinnedMap.Page
