import PinnedMap.Fault
import PinnedMap.Files.Tree
import PinnedMap.Toml.Tree

/-! The settings of a replay, which are the plan, its layout and the sizes that the viewport goes through; and
the TOML texts that hold them. -/
namespace PinnedMap

structure ViewportPlan where
  width : Float := 1280
  height : Float := 800
  resizeSteps : List (Float × Float) := []
deriving Repr, DecidableEq

def ViewportPlan.initial (plan : ViewportPlan) : Size := ⟨plan.width,plan.height⟩

def ViewportPlan.steps (plan : ViewportPlan) : List Size := plan.resizeSteps.map fun (width,height) => ⟨width,height⟩

structure Settings where
  plan : MapPlan
  layout : LayoutOptions := {}
  viewport : ViewportPlan := {}
deriving Repr, DecidableEq

open Toml

def needed {α : Type} (read : Node → Option α) (node : Option Node) : Option α := node.bind read

def withDefault {α : Type} (standard : α) (read : Node → Option α) (node : Option Node) : Option α :=
  match node with
  | some node => read node
  | none => some standard

def Gate.ofNode (node : Node) : Option Gate := do
  let [x,y,label] ← node.fields [["x"],["y"],["label"]] | none
  return ⟨← needed Node.number? x,← needed Node.number? y,
    ← withDefault none (fun node => node.text?.map some) label⟩

def MapPlan.ofNode (node : Node) : Option MapPlan := do
  let [image,gates] ← node.fields [["mapImage","map_image"],["gates"]] | none
  let gates ← needed Node.items? gates
  return ⟨← needed Node.text? image,← gates.mapM Gate.ofNode⟩

def ScaleMode.names : List (String × ScaleMode) := [("uniform",.uniform),("per_axis",.perAxis)]

def ScaleMode.ofNode (node : Node) : Option ScaleMode := node.name?.bind (ScaleMode.names.lookup ·)

def LayoutOptions.ofNode (node : Node) : Option LayoutOptions := do
  let standard : LayoutOptions := {}
  let [width,name,mode] ← node.fields [["max_width"],["class_name"],["scale_mode"]] | none
  return ⟨← withDefault standard.maxWidth Node.number? width,← withDefault standard.className Node.text? name,
    ← withDefault standard.scaleMode ScaleMode.ofNode mode⟩

def stepOfNode (node : Node) : Option (Float × Float) := do
  let width :: height :: _ ← node.items? | none
  return (← width.number?,← height.number?)

def ViewportPlan.ofNode (node : Node) : Option ViewportPlan := do
  let standard : ViewportPlan := {}
  let [width,height,steps] ← node.fields [["width"],["height"],["resize_steps"]] | none
  return ⟨← withDefault standard.width Node.number? width,← withDefault standard.height Node.number? height,
    ← withDefault standard.resizeSteps (fun node => node.items?.bind (·.mapM stepOfNode)) steps⟩

def Settings.ofNode (node : Node) : Option Settings := do
  let [plan,layout,viewport] ← node.fields [["map"],["layout"],["viewport"]] | none
  return ⟨← needed MapPlan.ofNode plan,← withDefault {} LayoutOptions.ofNode layout,
    ← withDefault {} ViewportPlan.ofNode viewport⟩

def Settings.ofToml (text : String) : Except Fault Settings :=
  let settings := do
    let document ← Document.ofChars text.toList
    Settings.ofNode (.table .stated (← document.members))
  match settings with
  | some settings => .ok settings
  | none => .error .settingsText

def ScaleMode.name : ScaleMode → String
  | .uniform => "uniform"
  | .perAxis => "per_axis"

def Gate.table (gate : Gate) : List Char :=
  let label := match gate.label with
    | some label => [line "label" (quoted label)]
    | none => []
  element "map.gates" ([line "x" (number gate.x),line "y" (number gate.y)] ++ label)

def MapPlan.tables (plan : MapPlan) : List (List Char) :=
  let image := line "mapImage" (quoted plan.image)
  match plan.gates with
  | [] => [table "map" [image,line "gates" (array [])]]
  | gates => table "map" [image] :: gates.map Gate.table

def LayoutOptions.table (options : LayoutOptions) : List Char :=
  Toml.table "layout" [line "max_width" (number options.maxWidth),line "class_name" (quoted options.className),
    line "scale_mode" (quoted options.scaleMode.name)]

def ViewportPlan.table (plan : ViewportPlan) : List Char :=
  let steps := plan.resizeSteps.map fun (width,height) => array [number width,number height]
  Toml.table "viewport" [line "width" (number plan.width),line "height" (number plan.height),
    line "resize_steps" (array steps)]

def Settings.toToml (settings : Settings) : String :=
  String.ofList (tables (settings.plan.tables ++ [settings.layout.table,settings.viewport.table]))

def Settings.load (files : Files) (path : String) : Except Fault Settings :=
  match files.text? path with
  | some text => Settings.ofToml text
  | none => .error .unreadable

def Settings.save (settings : Settings) (tree : FileTree) (path : String) : Except Fault FileTree :=
  match tree.write path settings.toToml.toUTF8.toList with
  | some tree => .ok tree
  | none => .error .unreadable

end PinnedMap
