import PinnedMap.Proofs.Files.Tree
import PinnedMap.Proofs.Toml.Document
import PinnedMap.Proofs.Toml.Tree
import PinnedMap.Settings.Toml

/-! Settings that were saved are loaded as they were. Each table of theirs is followed from its lines through the
section, the members and the node back to the part of the settings that it was written for. -/
namespace PinnedMap

open Toml

abbrev pairOf (name : String) (value : Value) : Pair := (⟨[],name⟩,value)

def Gate.pairs (gate : Gate) : List Pair :=
  pairOf "x" (.decimal gate.x) :: pairOf "y" (.decimal gate.y) ::
    gate.label.toList.map fun label => pairOf "label" (.text label)

def Gate.part (gate : Gate) : Section := ⟨.element ⟨["map"],"gates"⟩,gate.pairs⟩

def MapPlan.parts (plan : MapPlan) : List Section :=
  let image := pairOf "mapImage" (.text plan.image)
  match plan.gates with
  | [] => [⟨.table ⟨[],"map"⟩,[image,pairOf "gates" (.array [])]⟩]
  | gates => ⟨.table ⟨[],"map"⟩,[image]⟩ :: gates.map Gate.part

def LayoutOptions.part (options : LayoutOptions) : Section :=
  ⟨.table ⟨[],"layout"⟩,[pairOf "max_width" (.decimal options.maxWidth),pairOf "class_name" (.text options.className),
    pairOf "scale_mode" (.text options.scaleMode.name)]⟩

def stepValue (step : Float × Float) : Value := .array [.decimal step.1,.decimal step.2]

def ViewportPlan.part (plan : ViewportPlan) : Section :=
  ⟨.table ⟨[],"viewport"⟩,[pairOf "width" (.decimal plan.width),pairOf "height" (.decimal plan.height),
    pairOf "resize_steps" (.array (plan.resizeSteps.map stepValue))]⟩

def Settings.parts (settings : Settings) : List Section :=
  settings.plan.parts ++ [settings.layout.part,settings.viewport.part]

private theorem isTable_gate (gate : Gate) : IsTable gate.table gate.part := by
  have x := isLine_line (by decide : IsBareName "x") (Value.isWritten_number _ gate.x)
  have y := isLine_line (by decide : IsBareName "y") (Value.isWritten_number _ gate.y)
  have outer : IsBareName "map" := by decide
  have name : IsBareName "gates" := by decide
  apply isTable_element outer name
  obtain ⟨_,_,label⟩ := gate
  cases label with
  | none => exact .cons x (.cons y .nil)
  | some label =>
    have text := isLine_line (by decide : IsBareName "label") (Value.isWritten_quoted _ label)
    exact .cons x (.cons y (.cons text .nil))

private theorem isTable_layout (options : LayoutOptions) : IsTable options.table options.part := by
  have width := isLine_line (by decide : IsBareName "max_width") (Value.isWritten_number _ options.maxWidth)
  have name := isLine_line (by decide : IsBareName "class_name") (Value.isWritten_quoted _ options.className)
  have mode := isLine_line (by decide : IsBareName "scale_mode") (Value.isWritten_quoted _ options.scaleMode.name)
  exact isTable_table (by decide) (.cons width (.cons name (.cons mode .nil)))

private theorem isWritten_steps (depth : Nat) (steps : List (Float × Float)) :
    Value.IsWritten (depth + 2) (array (steps.map fun (width,height) => array [number width,number height]))
      (.array (steps.map stepValue)) := by
  apply Value.isWritten_array
  induction steps with
  | nil => exact .nil
  | cons step steps ih =>
    have width := Value.isWritten_number depth step.1
    have height := Value.isWritten_number depth step.2
    exact .cons (Value.isWritten_array (.cons width (.cons height .nil))) ih

private theorem isTable_viewport (plan : ViewportPlan) : IsTable plan.table plan.part := by
  have width := isLine_line (by decide : IsBareName "width") (Value.isWritten_number _ plan.width)
  have height := isLine_line (by decide : IsBareName "height") (Value.isWritten_number _ plan.height)
  have steps := isLine_line (by decide : IsBareName "resize_steps") (isWritten_steps 77 plan.resizeSteps)
  exact isTable_table (by decide) (.cons width (.cons height (.cons steps .nil)))

private theorem isTable_plan (plan : MapPlan) : List.Forall₂ IsTable plan.tables plan.parts := by
  obtain ⟨image,gates⟩ := plan
  have text := isLine_line (by decide : IsBareName "mapImage") (Value.isWritten_quoted _ image)
  have name : IsBareName "map" := by decide
  cases gates with
  | nil =>
    have empty : Value.IsWritten depthLimit (array []) (.array []) := Value.isWritten_array .nil
    have none := isLine_line (by decide : IsBareName "gates") empty
    exact .cons (isTable_table name (.cons text (.cons none .nil))) .nil
  | cons gate gates =>
    refine .cons (isTable_table name (.cons text .nil)) ?_
    rw [List.forall₂_map_left_iff,List.forall₂_map_right_iff,List.forall₂_same]
    exact fun gate _ => isTable_gate gate

private theorem isTable_settings (settings : Settings) :
    List.Forall₂ IsTable (settings.plan.tables ++ [settings.layout.table,settings.viewport.table]) settings.parts := by
  have last : List.Forall₂ IsTable [settings.layout.table,settings.viewport.table]
      [settings.layout.part,settings.viewport.part] :=
    .cons (isTable_layout settings.layout) (.cons (isTable_viewport settings.viewport) .nil)
  exact (List.rel_append (R := IsTable)) (isTable_plan settings.plan) last

private theorem ofChars_toToml (settings : Settings) :
    Document.ofChars settings.toToml.toList = some ⟨[],settings.parts⟩ := by
  unfold Settings.toToml
  rw [String.toList_ofList]
  exact ofChars_tables (by simp) (isTable_settings settings)

def Gate.members (gate : Gate) : Members :=
  ("x",.decimal gate.x) :: ("y",.decimal gate.y) :: gate.label.toList.map fun label => ("label",.text label)

def MapPlan.members (plan : MapPlan) : Members :=
  [("mapImage",.text plan.image),
    ("gates",if plan.gates = [] then .array [] else .tables (plan.gates.map Gate.members))]

def LayoutOptions.members (options : LayoutOptions) : Members :=
  [("max_width",.decimal options.maxWidth),("class_name",.text options.className),
    ("scale_mode",.text options.scaleMode.name)]

def stepNode (step : Float × Float) : Node := .array [.decimal step.1,.decimal step.2]

def ViewportPlan.members (plan : ViewportPlan) : Members :=
  [("width",.decimal plan.width),("height",.decimal plan.height),
    ("resize_steps",.array (plan.resizeSteps.map stepNode))]

def Settings.members (settings : Settings) : Members :=
  [("map",.table .stated settings.plan.members),("layout",.table .stated settings.layout.members),
    ("viewport",.table .stated settings.viewport.members)]

private theorem members_gate (gate : Gate) : List.Forall₂ Members.IsMember gate.pairs gate.members := by
  obtain ⟨x,y,label⟩ := gate
  cases label with
  | none => exact .cons ⟨rfl,rfl⟩ (.cons ⟨rfl,rfl⟩ .nil)
  | some label => exact .cons ⟨rfl,rfl⟩ (.cons ⟨rfl,rfl⟩ (.cons ⟨rfl,rfl⟩ .nil))

private theorem names_gate (gate : Gate) : (gate.members.map Prod.fst).Nodup := by
  obtain ⟨x,y,label⟩ := gate
  cases label with
  | none => exact (by simp : ["x","y"].Nodup)
  | some label => exact (by simp : ["x","y","label"].Nodup)

private theorem members_plan (plan : MapPlan) :
    plan.parts.foldlM Section.addTo [] = some [("map",.table .stated plan.members)] := by
  obtain ⟨image,gates⟩ := plan
  have text : Members.IsMember (pairOf "mapImage" (.text image)) ("mapImage",.text image) := ⟨rfl,rfl⟩
  have absent : ([] : Members).lookup "map" = none := rfl
  cases gates with
  | nil =>
    have none : Members.IsMember (pairOf "gates" (.array [])) ("gates",.array []) := ⟨rfl,rfl⟩
    have names : (([("mapImage",.text image),("gates",.array [])] : Members).map Prod.fst).Nodup :=
      (by simp : ["mapImage","gates"].Nodup)
    have table := addTo_table (.cons text (.cons none .nil)) names absent
    rw [MapPlan.parts,List.foldlM_cons,table]
    rfl
  | cons gate gates =>
    have names : (([("mapImage",.text image)] : Members).map Prod.fst).Nodup := (by simp : ["mapImage"].Nodup)
    have noGates : ([("mapImage",.text image)] : Members).lookup "gates" = none := rfl
    have table := addTo_table (.cons text .nil) names absent
    have each : List.Forall₂ (fun part members => part.header = .element ⟨["map"],"gates"⟩ ∧
        List.Forall₂ Members.IsMember part.pairs members ∧ (members.map Prod.fst).Nodup)
        ((gate :: gates).map Gate.part) ((gate :: gates).map Gate.members) := by
      rw [List.forall₂_map_left_iff,List.forall₂_map_right_iff,List.forall₂_same]
      exact fun gate _ => ⟨rfl,members_gate gate,names_gate gate⟩
    rw [MapPlan.parts,List.foldlM_cons,table]
    exact foldlM_elements noGates each []

private theorem members_layout (options : LayoutOptions) {members : Members}
    (absent : members.lookup "layout" = none) :
    options.part.addTo members = some (members ++ [("layout",.table .stated options.members)]) := by
  have each : List.Forall₂ Members.IsMember options.part.pairs options.members :=
    .cons ⟨rfl,rfl⟩ (.cons ⟨rfl,rfl⟩ (.cons ⟨rfl,rfl⟩ .nil))
  exact addTo_table each (by simp : ["max_width","class_name","scale_mode"].Nodup) absent

private theorem members_viewport (plan : ViewportPlan) {members : Members}
    (absent : members.lookup "viewport" = none) :
    plan.part.addTo members = some (members ++ [("viewport",.table .stated plan.members)]) := by
  have steps :
      Node.ofValue (.array (plan.resizeSteps.map stepValue)) = some (.array (plan.resizeSteps.map stepNode)) := by
    have each : ∀ step, Node.ofValue (stepValue step) = some (stepNode step) := fun step => rfl
    rw [Node.ofValue,Node.ofItems_map each]
    rfl
  have each : List.Forall₂ Members.IsMember plan.part.pairs plan.members :=
    .cons ⟨rfl,rfl⟩ (.cons ⟨rfl,rfl⟩ (.cons ⟨rfl,steps⟩ .nil))
  exact addTo_table each (by simp : ["width","height","resize_steps"].Nodup) absent

private theorem members_settings (settings : Settings) :
    (⟨[],settings.parts⟩ : Document).members = some settings.members := by
  have plan := members_plan settings.plan
  have layout := members_layout settings.layout
    (rfl : [("map",Node.table .stated settings.plan.members)].lookup "layout" = none)
  have viewport := members_viewport settings.viewport
    (rfl : [("map",Node.table .stated settings.plan.members),("layout",.table .stated settings.layout.members)].lookup
      "viewport" = none)
  change settings.parts.foldlM Section.addTo [] = _
  rw [Settings.parts,List.foldlM_append,plan]
  simp only [Option.bind_eq_bind,Option.bind_some,List.foldlM_cons,layout,List.cons_append,List.nil_append,viewport]
  rfl

private theorem ofNode_gate (gate : Gate) : Gate.ofNode (.table .stated gate.members) = some gate := by
  obtain ⟨x,y,label⟩ := gate
  cases label with
  | none => rfl
  | some label => rfl

private theorem mapM_map_of_inverse {α β : Type} {write : α → β} {read : β → Option α}
    (inverse : ∀ item, read (write item) = some item) (items : List α) : (items.map write).mapM read = some items := by
  have same : (fun item => read (write item)) = fun item => pure item := funext inverse
  rw [List.mapM_map]
  change items.mapM (fun item => read (write item)) = _
  rw [same,List.mapM_pure,List.map_id']
  rfl

private theorem ofNode_plan (plan : MapPlan) : MapPlan.ofNode (.table .stated plan.members) = some plan := by
  obtain ⟨image,gates⟩ := plan
  have read : (gates.map fun gate => Node.table .stated gate.members).mapM Gate.ofNode = some gates :=
    mapM_map_of_inverse ofNode_gate gates
  have fields : (Node.table .stated (MapPlan.members ⟨image,gates⟩)).fields [["mapImage","map_image"],["gates"]] =
      some [some (.text image),some (if gates = [] then .array [] else .tables (gates.map Gate.members))] := rfl
  have items : (if gates = [] then Node.array [] else .tables (gates.map Gate.members)).items? =
      some (gates.map fun gate => Node.table .stated gate.members) := by
    cases gates with
    | nil => rfl
    | cons gate gates => simp [Node.items?]
  unfold MapPlan.ofNode
  rw [fields]
  simp only [Option.bind_eq_bind,Option.bind_some,needed,items,read,Node.text?]
  rfl

private theorem lookup_name (mode : ScaleMode) : ScaleMode.names.lookup mode.name = some mode := by
  cases mode <;> rfl

private theorem ofNode_layout (options : LayoutOptions) :
    LayoutOptions.ofNode (.table .stated options.members) = some options := by
  obtain ⟨width,name,mode⟩ := options
  have read : ScaleMode.ofNode (.text mode.name) = some mode := lookup_name mode
  have fields : (Node.table .stated (LayoutOptions.members ⟨width,name,mode⟩)).fields
      [["max_width"],["class_name"],["scale_mode"]] =
      some [some (.decimal width),some (.text name),some (.text mode.name)] := rfl
  unfold LayoutOptions.ofNode
  rw [fields]
  simp only [Option.bind_eq_bind,Option.bind_some,withDefault,read]
  rfl

private theorem ofNode_viewport (plan : ViewportPlan) :
    ViewportPlan.ofNode (.table .stated plan.members) = some plan := by
  obtain ⟨width,height,steps⟩ := plan
  have each : ∀ step, stepOfNode (stepNode step) = some step := fun step => rfl
  have read : (steps.map stepNode).mapM stepOfNode = some steps := mapM_map_of_inverse each steps
  have fields : (Node.table .stated (ViewportPlan.members ⟨width,height,steps⟩)).fields
      [["width"],["height"],["resize_steps"]] =
      some [some (.decimal width),some (.decimal height),some (.array (steps.map stepNode))] := rfl
  unfold ViewportPlan.ofNode
  rw [fields]
  simp only [Option.bind_eq_bind,Option.bind_some,withDefault,Node.items?,read]
  rfl

private theorem ofNode_members (settings : Settings) :
    Settings.ofNode (.table .stated settings.members) = some settings := by
  have fields : (Node.table .stated settings.members).fields [["map"],["layout"],["viewport"]] =
      some [some (.table .stated settings.plan.members),some (.table .stated settings.layout.members),
        some (.table .stated settings.viewport.members)] := rfl
  unfold Settings.ofNode
  rw [fields]
  simp only [Option.bind_eq_bind,Option.bind_some,needed,withDefault,ofNode_plan,ofNode_layout,ofNode_viewport]
  rfl

namespace Settings

private theorem ofToml_toToml (settings : Settings) : Settings.ofToml settings.toToml = .ok settings := by
  unfold Settings.ofToml
  simp only [ofChars_toToml,Option.bind_eq_bind,Option.bind_some,members_settings,ofNode_members]

/-- Settings that were saved are loaded as they were. Doubles are equal by their bits, and there is one NaN. -/
theorem load_of_save {settings : Settings} {tree tree' : FileTree} {path : String}
    (saved : settings.save tree path = .ok tree') : Settings.load tree'.files path = .ok settings := by
  unfold Settings.save at saved
  split at saved
  next written =>
    cases saved
    unfold Settings.load
    rw [FileTree.text?_of_write written]
    exact ofToml_toToml settings
  next => contradiction

/-- Settings with much that needs care: quotes of both kinds, line breaks, control characters, and unusual doubles. -/
def specials : Settings where
  plan := ⟨"'''\"\n",[⟨0 / 0,-0.0,some "\x00\\"⟩,⟨5e-324,1 / 0,none⟩]⟩
  viewport := { resizeSteps := [(1e300,-1 / 0)] }

theorem load_of_save_specials : ∃ tree, specials.save {} "/gatemap.toml" = .ok tree ∧
    Settings.load tree.files "/gatemap.toml" = .ok specials := by
  have saved : specials.save {} "/gatemap.toml" =
      .ok (FileTree.put {} ["gatemap.toml"] (.ofText specials.toToml)) := rfl
  exact ⟨_,saved,load_of_save saved⟩

end Settings
end PinnedMap
