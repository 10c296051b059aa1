import Mathlib.Data.List.Sort
import PinnedMap.Json.Forms
import PinnedMap.Proofs.Attempt
import PinnedMap.Proofs.Json.Restating

/-! What the tree of a gate is read as once the tree was taken as a value. -/
namespace PinnedMap

open Attempt Json Json.Codec

namespace Json

variable {α β : Type}

namespace Codec

/-- A tree reads as what it means does, faults included. -/
def IsSteady (codec : Codec α) : Prop := ∀ origin depth node meaning, Value.ofNode depth node = some meaning →
  codec.read origin meaning.toNode = codec.read origin node

theorem IsSteady.mapM {codec : Codec α} (steady : codec.IsSteady) {origin : Origin} {depth : Nat} {node : Option Node}
    (means : ∀ tree ∈ node, (Value.ofNode depth tree).isSome) :
    ((node.bind (Value.ofNode depth)).map Value.toNode).mapM (codec.read origin) = node.mapM (codec.read origin) := by
  cases node with
  | none => rfl
  | some node =>
    obtain ⟨meaning,isMeaning⟩ := Option.isSome_iff_exists.mp (means node rfl)
    rw [Option.bind_some,isMeaning,Option.map_some,Option.mapM_some,Option.mapM_some,
      steady origin depth node meaning isMeaning]

end Codec

theorem Value.length_toItems (meanings : List Value) : (Value.toItems meanings).length = meanings.length := by
  induction meanings with
  | nil => rfl
  | cons meaning meanings ih => rw [Value.toItems,List.length_cons,List.length_cons,ih]

namespace Fields

def IsSteady : {α : Type} → Fields α → Prop
  | _, .nil => True
  | _, .cons field rest => field.codec.IsSteady ∧ rest.IsSteady

theorem IsSteady.readItems {fields : Fields α} (steady : fields.IsSteady) {depth : Nat} {items : List Node}
    {meanings : List Value}
    (each : List.Forall₂ (fun item meaning => Value.ofNode depth item = some meaning) items meanings)
    (origin : Origin) (short : Nat → Fault) (used : Nat) :
    fields.readItems origin short true used (Value.toItems meanings) = fields.readItems origin short true used items := by
  induction fields generalizing items meanings used with
  | nil =>
    cases each with
    | nil => rfl
    | @cons item meaning items meanings _ each =>
      change Except.error (origin.surplus used (used + ((Value.toItems meanings).length + 1))) =
        Except.error (origin.surplus used (used + (items.length + 1)))
      rw [Value.length_toItems,each.length_eq]
  | cons field rest ih =>
    obtain ⟨first,others⟩ := steady
    cases each with
    | nil => rfl
    | cons means each =>
      rw [Value.toItems,Fields.readItems,Fields.readItems,first _ _ _ _ means]
      simp only [ih others each]

section

variable {origin : Origin} {short : Nat → Fault} {field : Field α} {rest : Fields β} {used : Nat} {value : α} {values : β}

private theorem readItems_cons_iff {item : Node} {items : List Node} :
    (Fields.cons field rest).readItems origin short true used (item :: items) = .ok (value,values) ↔
      field.codec.read origin item = .ok value ∧ rest.readItems origin short true (used + 1) items = .ok values := by
  rw [Fields.readItems,bind_eq_ok]
  simp only [bind_eq_ok,pure,Except.pure,Except.ok.injEq,Prod.mk.injEq]
  grind

private theorem readItems_nil_iff : (Fields.cons field rest).readItems origin short true used [] = .ok (value,values) ↔
    field.absent = some value ∧ rest.readItems origin short true (used + 1) [] = .ok values := by
  rw [Fields.readItems]
  cases field.absent with
  | none => exact iff_of_false nofun nofun
  | some standard =>
    change (rest.readItems origin short true (used + 1) [] >>= fun values => Except.ok (standard,values)) = _ ↔ _
    simp only [bind_eq_ok,Except.ok.injEq,Prod.mk.injEq]
    grind

end

def answers (key : String) : {α : Type} → Fields α → Bool
  | _, .nil => false
  | _, .cons field rest => field.answersTo key || rest.answers key

private theorem take_of_unanswered {origin : Origin} {key : String} {value : Node} {fields : Fields α}
    (unanswered : fields.answers key = false) (complete : value.isComplete = true) (draft : fields.Draft) :
    fields.take origin key value draft = .ok draft := by
  induction fields with
  | nil => exact if_pos complete
  | cons field rest ih =>
    obtain ⟨slot,draft⟩ := draft
    obtain ⟨silent,others⟩ := Bool.or_eq_false_iff.mp unanswered
    rw [take_of_silent silent,ih others]
    rfl

private theorem takeAll_named_cons {origin : Origin} {fields : Fields α} (name : String) (node : Node)
    (members : List (String × Node)) (draft : fields.Draft) :
    fields.takeAll origin (named ((name,node) :: members)) draft =
      fields.take origin name node draft >>= fields.takeAll origin (named members) := by
  change (do fields.takeAll origin (named members) (← fields.take origin (← (Literal.ofString name).text?) node draft)) = _
  rw [Codec.text?_ofString]
  rfl

private theorem takeAll_stage {γ δ : Type} {origin : Origin} (fields : Fields α) {codec : Codec γ} {name : String}
    (place : Option γ → fields.Draft) (takes : ∀ node, fields.take origin name node (place none) =
      (codec.read origin node).map fun value => place (some value)) (node : Option Node) (members : List (String × Node))
    (next : fields.Draft → Except Fault δ) :
    fields.takeAll origin (named ((node.map (name,·)).toList ++ members)) (place none) >>= next =
      node.mapM (codec.read origin) >>= fun value => fields.takeAll origin (named members) (place value) >>= next := by
  cases node with
  | none => rfl
  | some node =>
    rw [Option.map_some,Option.toList_some,List.singleton_append,takeAll_named_cons,takes,Option.mapM_some]
    cases codec.read origin node <;> rfl

private theorem takeAll_filter {origin : Origin} {fields : Fields α} {members : List (String × Node)}
    (complete : ∀ entry ∈ members, entry.2.isComplete = true) (draft : fields.Draft) :
    fields.takeAll origin (named (members.filter fun entry => fields.answers entry.1)) draft =
      fields.takeAll origin (named members) draft := by
  induction members generalizing draft with
  | nil => rfl
  | cons entry members ih =>
    obtain ⟨first,others⟩ := List.forall_mem_cons.mp complete
    obtain ⟨name,node⟩ := entry
    cases answered : fields.answers name with
    | true =>
      rw [List.filter_cons_of_pos (by simp [answered]),takeAll_named_cons,takeAll_named_cons]
      exact bind_congr fun draft => ih others draft
    | false =>
      rw [List.filter_cons_of_neg (by simp [answered]),ih others,takeAll_named_cons,
        take_of_unanswered answered first]
      rfl

end Fields

end Json

namespace Gate

def fields : Fields (Float × Float × Option String × Unit) :=
  .cons { name := "x", codec := number } <|
    .cons { name := "y", codec := number } <|
    .cons { name := "label", codec := string.optional, absent := some none, isOmitted := Option.isNone } .nil

def ofFound (x y : Option Float) (label : Option (Option String)) : Except Json.Fault Gate :=
  match x, y with
  | none, _ => .error (.data (.missingField "x"))
  | some _, none => .error (.data (.missingField "y"))
  | some x, some y => .ok ⟨x,y,label.join⟩

def ofParts (label x y : Option Node) : Except Json.Fault Gate := do
  let label ← label.mapM (string.optional.read .value)
  let x ← x.mapM (number.read .value)
  let y ← y.mapM (number.read .value)
  ofFound x y label

def finish (draft : fields.Draft) : Except Json.Fault Gate :=
  (fields.complete draft).map fun (x,y,label,()) => ⟨x,y,label⟩

private theorem finish_eq (x y : Option Float) (label : Option (Option String)) :
    finish (x,y,label,()) = ofFound x y label := by
  cases x with
  | none => rfl
  | some x =>
    cases y with
    | none => rfl
    | some y => cases label <;> rfl

private theorem take_label (node : Node) (x y : Option Float) : fields.take .value "label" node (x,y,none,()) =
    (string.optional.read .value node).map fun label => (x,y,some label,()) := by
  change (((string.optional.read .value node).map fun label => (some label,())).map fun others => (y,others)).map _ = _
  cases string.optional.read .value node <;> rfl

private theorem take_x (node : Node) (y : Option Float) (label : Option (Option String)) :
    fields.take .value "x" node (none,y,label,()) = (number.read .value node).map fun x => (some x,y,label,()) := rfl

private theorem take_y (node : Node) (x : Option Float) (label : Option (Option String)) :
    fields.take .value "y" node (x,none,label,()) = (number.read .value node).map fun y => (x,some y,label,()) := by
  change ((number.read .value node).map fun y => (some y,label,())).map _ = _
  cases number.read .value node <;> rfl

def parts (label x y : Option Node) : List (String × Node) :=
  (label.map ("label",·)).toList ++ ((x.map ("x",·)).toList ++ ((y.map ("y",·)).toList ++ []))

private theorem read_named (members : List (String × Node)) : Gate.json.read .value (.object (named members) true) =
    fields.takeAll .value (named members) fields.empty >>= finish := by
  have all (found : Except Json.Fault fields.Draft) : (found >>= fun draft => fields.complete draft).map
      (fun (x,y,label,()) => (⟨x,y,label⟩ : Gate)) = found >>= finish := by cases found <;> rfl
  exact all _

private theorem read_parts (label x y : Option Node) :
    Gate.json.read .value (.object (named (parts label x y)) true) = ofParts label x y := by
  rw [read_named]
  refine (Fields.takeAll_stage fields (fun label => (none,none,label,())) (fun node => take_label node none none) label _
    finish).trans (bind_congr fun label => ?_)
  refine (Fields.takeAll_stage fields (fun x => (x,none,label,())) (fun node => take_x node none label) x _
    finish).trans (bind_congr fun x => ?_)
  refine (Fields.takeAll_stage fields (fun y => (x,y,label,())) (fun node => take_y node x label) y [] finish).trans
    (bind_congr fun y => finish_eq x y label)

private theorem mem_parts {label x y : Option Node} {name : String} {node : Node} : (name,node) ∈ parts label x y ↔
    name = "label" ∧ label = some node ∨ name = "x" ∧ x = some node ∨ name = "y" ∧ y = some node := by
  simp only [parts,List.mem_append,Option.mem_toList,Option.map_eq_some_iff,Prod.mk.injEq,List.not_mem_nil,or_false]
  grind

private theorem answers_iff {name : String} :
    fields.answers name = true ↔ name = "label" ∨ name = "x" ∨ name = "y" := by
  simp only [fields,Fields.answers,Field.answersTo,Bool.or_eq_true,beq_iff_eq,reduceCtorEq,or_false,Bool.false_eq_true]
  grind

private theorem pairwise_parts (label x y : Option Node) :
    (parts label x y).Pairwise fun member later => member.1 < later.1 := by
  have single (name : String) (node : Option Node) : (((node.map (name,·)).toList).map Prod.fst).Sublist [name] := by
    cases node <;> simp
  have names : ((parts label x y).map Prod.fst).Sublist ["label","x","y"] := by
    simp only [parts,List.map_append]
    exact (single "label" label).append ((single "x" x).append ((single "y" y).append (.refl _)))
  have ordered : ["label","x","y"].Pairwise (· < ·) := by decide
  exact List.pairwise_map.mp (ordered.sublist names)

private theorem read_object {members : List (String × Value)} (sorted : Value.IsSorted members) :
    Gate.json.read .value (Value.object members).toNode = ofParts ((members.lookup "label").map Value.toNode)
      ((members.lookup "x").map Value.toNode) ((members.lookup "y").map Value.toNode) := by
  obtain ⟨nodes,shape,mem_iff,ordered⟩ : ∃ nodes, Value.toMembers members = named nodes ∧
      (∀ name node, (name,node) ∈ nodes ↔ (members.lookup name).map Value.toNode = some node) ∧
      nodes.Pairwise fun member later => member.1 < later.1 := by
    refine ⟨_,Value.toMembers_eq members,fun name node => ?_,List.pairwise_map.mpr sorted⟩
    rw [Value.mem_toNodes,Option.map_eq_some_iff]
    simp only [Value.lookup_eq_some_iff sorted.nodup]
  have complete : ∀ entry ∈ nodes, entry.2.isComplete = true := by
    rintro ⟨name,node⟩ member
    obtain ⟨meaning,_,rfl⟩ := Option.map_eq_some_iff.mp ((mem_iff name node).mp member)
    exact Value.isComplete_toNode meaning
  have irreflexive : Std.Irrefl fun member later : String × Node => member.1 < later.1 := ⟨fun _ => lt_irrefl _⟩
  have antisymmetric : Std.Antisymm fun member later : String × Node => member.1 < later.1 :=
    ⟨fun _ _ less more => (lt_asymm less more).elim⟩
  have same : nodes.filter (fun entry => fields.answers entry.1) = parts ((members.lookup "label").map Value.toNode)
      ((members.lookup "x").map Value.toNode) ((members.lookup "y").map Value.toNode) := by
    refine (ordered.filter _).eq_of_mem_iff (pairwise_parts _ _ _) ?_
    rintro ⟨name,node⟩
    rw [List.mem_filter,mem_parts,answers_iff,mem_iff]
    grind
  rw [Value.toNode,shape,← read_parts,← same,read_named,read_named,Fields.takeAll_filter complete]

def ofTree : Node → Except Json.Fault Gate
  | .object members _ => ofParts (lastOf "label" members) (lastOf "x" members) (lastOf "y" members)
  | node => Gate.json.read .value node

inductive IsLabel : Option Node → Option String → Prop
  | missing : IsLabel none none
  | null : IsLabel (some .null) none
  | text {literal} : IsLabel (some (.text literal)) (some literal.string)

/-- Numbers for the coordinates, and a label or none: by name, or in this order. -/
inductive Fits : Node → Gate → Prop
  | object {members closed x y label} (isX : lastOf "x" members = some (.number x))
      (isY : lastOf "y" members = some (.number y)) (isLabel : IsLabel (lastOf "label" members) label) :
      Fits (.object members closed) ⟨x.toFloat,y.toFloat,label⟩
  | array {x y third label} (isLabel : IsLabel third label) :
      Fits (.array (.number x :: .number y :: third.toList) true) ⟨x.toFloat,y.toFloat,label⟩

private theorem read_number_iff (origin : Origin) {depth : Nat} {node : Node} (whole : node.IsWellFormed depth)
    {value : Float} : number.read origin node = .ok value ↔ ∃ n, node = .number n ∧ value = n.toFloat := by
  cases whole with
  | @number _ n isDouble =>
    cases n with
    | tooLarge => exact absurd rfl isDouble
    | _ => simp [number,eq_comm]
  | _ => simp [number]

private theorem read_label_iff (origin : Origin) {depth : Nat} {node : Node} (whole : node.IsWellFormed depth)
    {label : Option String} : string.optional.read origin node = .ok label ↔ IsLabel (some node) label := by
  constructor
  · intro read
    cases whole with
    | null =>
      obtain rfl := Except.ok.inj read
      exact .null
    | text isText =>
      obtain ⟨text,isString,rfl⟩ := map_eq_ok.mp read
      obtain rfl := Except.ok.inj ((if_pos isText).symm.trans isString)
      exact .text
    | number isDouble => cases read
    | _ => cases read
  · intro isLabel
    cases isLabel with
    | null => rfl
    | text =>
      cases whole with
      | text isText => exact map_eq_ok.mpr ⟨_,if_pos isText,rfl⟩

private theorem ofFound_eq_ok_iff {x y : Option Float} {label : Option (Option String)} {gate : Gate} :
    ofFound x y label = .ok gate ↔ x = some gate.x ∧ y = some gate.y ∧ label.join = gate.label := by
  obtain ⟨_,_,_⟩ := gate
  cases x <;> cases y <;> simp [ofFound]

private theorem exists_of_rel {related : Node → Float → Prop} {node : Option Node} {value : Float}
    (found : Option.Rel related node (some value)) : ∃ tree, node = some tree ∧ related tree value := by
  cases found with
  | some isValue => exact ⟨_,rfl,isValue⟩

private theorem ofTree_object_iff {depth : Nat} {members : List (Literal × Node)} {closed : Bool}
    (each : ∀ entry ∈ members, entry.2.IsWellFormed depth) {gate : Gate} :
    ofTree (.object members closed) = .ok gate ↔ Fits (.object members closed) gate := by
  have whole {name : String} {node : Node} (last : lastOf name members = some node) : node.IsWellFormed depth := by
    obtain ⟨_,member,_⟩ := mem_of_lastOf last
    exact each _ member
  unfold ofTree ofParts
  simp only [bind_eq_ok,ofFound_eq_ok_iff,mapM_eq_ok]
  constructor
  · obtain ⟨x,y,label⟩ := gate
    rintro ⟨found,isLabel,_,isX,_,isY,rfl,rfl,joined⟩
    obtain ⟨nodeX,lastX,readX⟩ := exists_of_rel isX
    obtain ⟨nodeY,lastY,readY⟩ := exists_of_rel isY
    obtain ⟨m,rfl,rfl⟩ := (read_number_iff .value (whole lastX)).mp readX
    obtain ⟨n,rfl,rfl⟩ := (read_number_iff .value (whole lastY)).mp readY
    refine .object lastX lastY ?_
    obtain rfl : found.join = label := joined
    generalize last : lastOf "label" members = node at isLabel
    cases isLabel with
    | none => exact .missing
    | some reads => exact (read_label_iff .value (whole last)).mp reads
  · intro fits
    cases fits with
    | @object _ _ m n label isX isY isLabel =>
      rw [isX,isY]
      have readX := (read_number_iff .value (whole isX)).mpr ⟨m,rfl,rfl⟩
      have readY := (read_number_iff .value (whole isY)).mpr ⟨n,rfl,rfl⟩
      generalize last : lastOf "label" members = node at isLabel
      cases node with
      | none =>
        cases isLabel
        exact ⟨none,.none,some m.toFloat,.some readX,some n.toFloat,.some readY,rfl,rfl,rfl⟩
      | some node =>
        have reads := (read_label_iff .value (whole last)).mpr isLabel
        exact ⟨some label,.some reads,some m.toFloat,.some readX,some n.toFloat,.some readY,rfl,rfl,rfl⟩

private theorem ofTree_array_iff {depth : Nat} {items : List Node} (each : ∀ item ∈ items, item.IsWellFormed depth)
    {gate : Gate} : ofTree (.array items true) = .ok gate ↔ Fits (.array items true) gate := by
  obtain ⟨short,reads⟩ : ∃ short, ofTree (.array items true) = (fields.readItems .value short true 0 items).map
      fun (x,y,label,()) => ⟨x,y,label⟩ := ⟨_,rfl⟩
  rw [reads,map_eq_ok,fields]
  constructor
  · rintro ⟨⟨x,y,label,⟨⟩⟩,read,rfl⟩
    rcases items with _ | ⟨nodeX,_ | ⟨nodeY,others⟩⟩
    · cases (Fields.readItems_nil_iff.mp read).1
    · cases (Fields.readItems_nil_iff.mp (Fields.readItems_cons_iff.mp read).2).1
    obtain ⟨readX,afterX⟩ := Fields.readItems_cons_iff.mp read
    obtain ⟨readY,afterY⟩ := Fields.readItems_cons_iff.mp afterX
    obtain ⟨m,rfl,rfl⟩ := (read_number_iff .value (each nodeX (by simp))).mp readX
    obtain ⟨n,rfl,rfl⟩ := (read_number_iff .value (each nodeY (by simp))).mp readY
    rcases others with _ | ⟨third,_ | ⟨_,_⟩⟩
    · obtain rfl := Option.some.inj (Fields.readItems_nil_iff.mp afterY).1
      exact .array .missing
    · have readLabel := (Fields.readItems_cons_iff.mp afterY).1
      have isLabel : IsLabel (some third) label := (read_label_iff .value (each third (by simp))).mp readLabel
      exact .array isLabel
    · cases (Fields.readItems_cons_iff.mp afterY).2
  · intro fits
    cases fits with
    | @array m n third label isLabel =>
      have readX := (read_number_iff .value (each (.number m) (by simp))).mpr ⟨m,rfl,rfl⟩
      have readY := (read_number_iff .value (each (.number n) (by simp))).mpr ⟨n,rfl,rfl⟩
      refine ⟨(m.toFloat,n.toFloat,label,()),Fields.readItems_cons_iff.mpr ⟨readX,Fields.readItems_cons_iff.mpr
        ⟨readY,?_⟩⟩,rfl⟩
      cases third with
      | none =>
        cases isLabel
        exact Fields.readItems_nil_iff.mpr ⟨rfl,rfl⟩
      | some third => 
        have readLabel := (read_label_iff .value (each third (by simp))).mpr isLabel
        exact Fields.readItems_cons_iff.mpr ⟨readLabel,rfl⟩

theorem ofTree_eq_ok_iff {depth : Nat} {node : Node} (whole : node.IsWellFormed depth) {gate : Gate} :
    ofTree node = .ok gate ↔ Fits node gate := by
  cases whole with
  | array each => exact ofTree_array_iff each
  | object keys each => exact ofTree_object_iff each
  | _ => exact iff_of_false nofun nofun

end Gate
end PinnedMap
