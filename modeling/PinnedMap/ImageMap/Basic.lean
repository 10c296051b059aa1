import PinnedMap.Page.Layout

/-! The image map: an image with one element bound to each gate. It is loading until it is attached
to its container, and then every recomputation moves the elements to their gates. -/
namespace PinnedMap

structure Uuid where
  value : BitVec 128
deriving Repr, DecidableEq, Inhabited

structure MapPlan where
  image : String
  gates : List Gate
deriving Repr, DecidableEq, Inhabited

structure LayoutOptions where
  maxWidth : Float := 1000
  className : String := "image-map"
  scaleMode : ScaleMode := .uniform
deriving Repr, DecidableEq, Inhabited

inductive MapPhase where
  | loading
  | attached
  | failed
  | disposed
deriving Repr, DecidableEq, Inhabited

def MapPhase.name : MapPhase → String
  | .loading => "Loading"
  | .attached => "Attached"
  | .failed => "Failed"
  | .disposed => "Disposed"

structure Placement where
  index : Nat
  element : ElementId
  left : Float
  top : Float
deriving Repr, DecidableEq, Inhabited

structure Reposition where
  ratio : Ratio
  placements : List Placement
deriving Repr, DecidableEq, Inhabited

inductive MapFault where
  | gateCount (gates pins : Nat)
  | attachIn (phase : MapPhase)
  | positionIn (phase : MapPhase)
  | notLoaded
  | scale (fault : ScaleFault)
  | page (fault : PageFault)
deriving Repr, DecidableEq

structure ImageMap where
  id : Uuid
  plan : MapPlan
  options : LayoutOptions
  pins : List ElementId
  container : ElementId
  image : ElementId
  wrapper : Option ElementId := none
  phase : MapPhase := .loading
deriving Repr, DecidableEq

/-- Edits of a page. What was done before a failure stays done. -/
abbrev Editing (α : Type) := ExceptT MapFault (StateM Page) α

def Editing.step (operation : Page → Except PageFault Page) : Editing Unit := fun page =>
  match operation page with
  | .ok next => (.ok (),next)
  | .error fault => (.error (.page fault),page)

namespace ImageMap

def create (page : Page) (id : Uuid) (plan : MapPlan) (pins : List ElementId) (container : ElementId)
    (options : LayoutOptions) : Except MapFault (ImageMap × Page) :=
  if plan.gates.length ≠ pins.length then .error (.gateCount plan.gates.length pins.length)
  else
    let (image,grown) := page.create "img"
    match (grown.setStyles image imageStyles).bind (·.setSource image plan.image) with
    | .ok styled => .ok ({ id, plan, options, pins, container, image },styled)
    | .error fault => .error (.page fault)

def naturalSize (map : ImageMap) (page : Page) : Except MapFault Size :=
  match page.natural map.image with
  | some natural => .ok natural
  | none => .error .notLoaded

def ratio (map : ImageMap) (page : Page) : Except MapFault Ratio := do
  let natural ← map.naturalSize page
  (Ratio.between (page.renderedSize map.image) natural map.options.scaleMode).mapError .scale

def placements (map : ImageMap) (ratio : Ratio) : List Placement :=
  (map.pins.zip map.plan.gates).zipIdx.map fun ((pin,gate),index) => ⟨index,pin,ratio.left gate,ratio.top gate⟩

def reposition (map : ImageMap) : Editing Reposition := do
  if map.phase ≠ .attached then throw (.positionIn map.phase)
  let ratio ← liftExcept (map.ratio (← get))
  let placements := map.placements ratio
  placements.forM fun place => Editing.step (·.setStyles place.element (placeStyles place.left place.top))
  return ⟨ratio,placements⟩
where
  liftExcept {α : Type} (result : Except MapFault α) : Editing α := ExceptT.mk (pure result)

/-- What must hold before the tree is touched: the map is loading and its image can be scaled. -/
def attachable (map : ImageMap) (page : Page) : Except MapFault Unit := do
  if map.phase ≠ .loading then throw (.attachIn map.phase)
  let natural ← map.naturalSize page
  let _ ← (Ratio.between natural natural map.options.scaleMode).mapError .scale

/-- Fills a new wrapper with the image and the pins and hangs it off the container. -/
def wrap (map : ImageMap) (wrapper : ElementId) : Editing Unit := do
  Editing.step (·.setClass wrapper map.options.className)
  Editing.step (·.setStyles wrapper (wrapperStyles map.options.maxWidth))
  Editing.step (·.append wrapper map.image)
  map.pins.forM fun pin => do
    Editing.step (·.append wrapper pin)
    Editing.step (·.setStyles pin bindingStyles)
  Editing.step (·.append map.container wrapper)

structure Outcome (α : Type) where
  map : ImageMap
  page : Page
  result : Except MapFault α

def attach (map : ImageMap) (page : Page) : Outcome Reposition :=
  match map.attachable page with
  | .error fault => ⟨map,page,.error fault⟩
  | .ok () =>
    let (wrapper,grown) := page.create "div"
    match map.wrap wrapper grown with
    | (.error fault,edited) => ⟨map,edited,.error fault⟩
    | (.ok (),wrapped) =>
      let attached := { map with wrapper := some wrapper, phase := .attached }
      let (result,placed) := attached.reposition wrapped
      ⟨attached,placed,result⟩

/-- The image failed to load: a map that was waiting for it never shows. -/
def markFailed (map : ImageMap) : ImageMap := if map.phase = .loading then { map with phase := .failed } else map

def detach (map : ImageMap) (page : Page) : Outcome Unit :=
  let removal := match map.wrapper with
    | some wrapper => if page.parent wrapper = some map.container then page.remove map.container wrapper else .ok page
    | none => .ok page
  match removal with
  | .ok removed => ⟨{ map with wrapper := none, phase := .disposed },removed,.ok ()⟩
  | .error fault => ⟨{ map with wrapper := none },page,.error (.page fault)⟩

end ImageMap
end PinnedMap
