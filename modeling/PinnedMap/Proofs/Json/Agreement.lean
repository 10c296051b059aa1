import PinnedMap.Proofs.Attempt
import PinnedMap.Proofs.Json.Finding
import PinnedMap.Proofs.Json.Meaning
import PinnedMap.Proofs.Json.Plan

/-! Two ways to read a plan from a JSON text. One takes the text as a value first, with its members sorted, looks at the
value and reads the gates from it; the other reads the plan from the text at once. -/
namespace PinnedMap

open Attempt Json Json.Codec

namespace Json

variable {α β : Type}

namespace Codec

/-- A tree of a text reads as what its meaning reads as. -/
def ReadsAlike (codec : Codec α) (node : Node) (meaning : Value) : Prop :=
  ∀ value, codec.read .text node = .ok value ↔ codec.read .value meaning.toNode = .ok value

def Agrees (codec : Codec α) : Prop :=
  ∀ depth node meaning, Value.ofNode depth node = some meaning → codec.ReadsAlike node meaning

private theorem agrees_of_leaf {codec : Codec α} (origins : ∀ node, codec.read .text node = codec.read .value node)
    (array : ∀ origin items closed value, codec.read origin (.array items closed) ≠ .ok value)
    (object : ∀ origin entries closed value, codec.read origin (.object entries closed) ≠ .ok value) :
    codec.Agrees := by
  intro depth node meaning means value
  rcases Value.cases_of_ofNode means with ⟨_,rfl⟩ | ⟨_,_,_,rfl,rfl,_⟩ | ⟨_,_,_,rfl,rfl,_⟩
  · rw [origins]
  · exact iff_of_false (array _ _ _ _) (array _ _ _ _)
  · exact iff_of_false (object _ _ _ _) (object _ _ _ _)

private theorem agrees_number : number.Agrees := agrees_of_leaf (fun _ => rfl) nofun nofun

private theorem agrees_string : string.Agrees := agrees_of_leaf (fun _ => rfl) nofun nofun

private theorem read_optional_of_ne {codec : Codec α} {origin : Origin} {node : Node} (given : node ≠ .null) :
    codec.optional.read origin node = (codec.read origin node).map some := by
  cases node with
  | null => exact absurd rfl given
  | _ => rfl

theorem Agrees.optional {codec : Codec α} (agrees : codec.Agrees) : codec.optional.Agrees := by
  intro depth node meaning means value
  have alike := agrees depth node meaning means
  by_cases none : node = .null
  · subst none
    obtain rfl := Option.some.inj means
    exact .rfl
  · have given : meaning.toNode ≠ .null := by
      rcases Value.cases_of_ofNode means with ⟨_,rfl⟩ | ⟨_,_,_,_,rfl,_⟩ | ⟨_,_,_,_,rfl,_⟩
      · exact none
      · nofun
      · nofun
    rw [read_optional_of_ne none,read_optional_of_ne given,map_eq_ok,map_eq_ok]
    simp only [alike _]

private theorem imap_read (codec : Codec α) (toValue : α → β) (ofValue : β → α) (origin : Origin) (node : Node) :
    (codec.imap toValue ofValue).read origin node = (codec.read origin node).map toValue := rfl

theorem ReadsAlike.imap {codec : Codec α} {node : Node} {meaning : Value} (alike : codec.ReadsAlike node meaning)
    (toValue : α → β) (ofValue : β → α) : (codec.imap toValue ofValue).ReadsAlike node meaning := by
  intro value
  rw [imap_read,imap_read,map_eq_ok,map_eq_ok]
  simp only [alike _]

private theorem mapM_alike {codec : Codec α} {items : List Node} {meanings : List Value}
    (each : List.Forall₂ codec.ReadsAlike items meanings) (values : List α) :
    items.mapM (codec.read .text) = .ok values ↔ (Value.toItems meanings).mapM (codec.read .value) = .ok values := by
  induction each generalizing values with
  | nil => exact .rfl
  | cons first _ ih =>
    rw [Value.toItems,List.mapM_cons,List.mapM_cons]
    simp only [bind_eq_ok,first _,ih]

private theorem list_readsAlike {codec : Codec α} {depth : Nat} {node : Node} {meaning : Value}
    (means : Value.ofNode depth node = some meaning)
    (each : ∀ items closed, node = .array items closed → ∀ item ∈ items, ∀ depth meaning,
      Value.ofNode depth item = some meaning → codec.ReadsAlike item meaning) : codec.list.ReadsAlike node meaning := by
  intro values
  rcases Value.cases_of_ofNode means with ⟨leaf,rfl⟩ | ⟨items,meanings,deep,rfl,rfl,all⟩ | ⟨entries,sorted,_,rfl,rfl,_⟩
  · cases meaning with
    | array items => cases leaf
    | object members => cases leaf
    | _ => exact .rfl
  · have listed := (List.forall₂_and_left items meanings).mpr ⟨fun _ member => member,Value.forall₂_of_ofItems all⟩
    have alike : List.Forall₂ codec.ReadsAlike items meanings :=
      listed.imp fun item meaning means => each items true rfl item means.1 deep meaning means.2
    change (items.mapM (codec.read .text) >>= fun values => Except.ok values) = _ ↔
      ((Value.toItems meanings).mapM (codec.read .value) >>= fun values => Except.ok values) = _
    simp only [bind_eq_ok,mapM_alike alike]
  · exact iff_of_false nofun nofun

private theorem exists_member_iff {codec : Codec α} {depth : Nat} {members : List (String × Node)}
    {sorted : List (String × Value)} (sorts : Value.Sorts depth members sorted) (name : String)
    (alike : ∀ node, (name,node) ∈ members → ∀ meaning, Value.ofNode depth node = some meaning →
      codec.ReadsAlike node meaning) (value : α) :
    (∃ node, (name,node) ∈ members ∧ codec.read .text node = .ok value) ↔
      ∃ meaning, (name,meaning) ∈ sorted ∧ codec.read .value meaning.toNode = .ok value := by
  constructor
  · rintro ⟨node,member,read⟩
    obtain ⟨meaning,means,listed⟩ := sorts.means name node member
    exact ⟨meaning,listed,(alike node member meaning means value).mp read⟩
  · rintro ⟨meaning,listed,read⟩
    obtain ⟨node,member,means⟩ := sorts.stands name meaning listed
    exact ⟨node,member,(alike node member meaning means value).mpr read⟩

end Codec

namespace Fields

def Agree : {α : Type} → Fields α → Prop
  | _, .nil => True
  | _, .cons field rest => field.codec.Agrees ∧ rest.Agree

theorem Agree.readItems {fields : Fields α} (agree : fields.Agree) {depth : Nat} {items : List Node}
    {meanings : List Value}
    (each : List.Forall₂ (fun item meaning => Value.ofNode depth item = some meaning) items meanings)
    (short : Nat → Fault) (closed : Bool) (used : Nat) (value : α) :
    fields.readItems .text short closed used items = .ok value ↔
      fields.readItems .value short closed used (Value.toItems meanings) = .ok value := by
  induction fields generalizing items meanings used with
  | nil =>
    cases each with
    | nil => exact .rfl
    | cons => exact iff_of_false nofun nofun
  | cons field rest ih =>
    obtain ⟨agrees,agree⟩ := agree
    cases each with
    | nil =>
      have others := ih agree .nil (used + 1)
      rw [Value.toItems] at others ⊢
      rw [Fields.readItems,Fields.readItems]
      cases closed with
      | false => exact iff_of_false nofun nofun
      | true =>
        cases field.absent with
        | none => exact iff_of_false nofun nofun
        | some standard =>
          change (rest.readItems .text short true (used + 1) [] >>= fun values => Except.ok (standard,values)) = _ ↔
            (rest.readItems .value short true (used + 1) [] >>= fun values => Except.ok (standard,values)) = _
          simp only [bind_eq_ok,others]
    | cons first each =>
      rw [Value.toItems,Fields.readItems,Fields.readItems]
      simp only [bind_eq_ok,agrees depth _ _ first _,ih agree each]

/-- The fields find the same in the members of an object and in the sorted members of what it means. -/
theorem Agree.finds {fields : Fields α} (agree : fields.Agree) {depth : Nat} {members : List (String × Node)}
    {sorted : List (String × Value)} (sorts : Value.Sorts depth members sorted) (value : α) :
    fields.Finds .text members value ↔
      fields.Finds .value (sorted.map fun (name,meaning) => (name,meaning.toNode)) value := by
  induction fields with
  | nil => exact .rfl
  | cons field rest ih =>
    obtain ⟨value,values⟩ := value
    have present := Codec.exists_member_iff sorts field.name (fun node _ => agree.1 depth node) value
    have missing : (∀ node, (field.name,node) ∉ members) ↔
        ∀ node, (field.name,node) ∉ sorted.map fun (name,meaning) => (name,meaning.toNode) := by
      constructor
      · intro none node member
        obtain ⟨meaning,listed,_⟩ := Value.mem_toNodes.mp member
        obtain ⟨node,member,_⟩ := sorts.stands _ meaning listed
        exact none node member
      · intro none node member
        obtain ⟨meaning,_,listed⟩ := sorts.means _ node member
        exact none _ (Value.mem_toNodes.mpr ⟨meaning,listed,rfl⟩)
    rw [Finds,Finds,ih agree.2,present,missing]
    simp only [Value.mem_toNodes,exists_exists_and_eq_and]

theorem Agree.read {fields : Fields α} (agree : fields.Agree) (distinct : fields.names.Nodup)
    (own : ∀ keys, fields.IsOwn keys) {depth : Nat} {node : Node} {meaning : Value}
    (means : Value.ofNode depth node = some meaning) (single : node.keys.Nodup) (name : String) :
    (fields.codec name).ReadsAlike node meaning := by
  intro value
  change fields.read name .text node = _ ↔ fields.read name .value meaning.toNode = _
  rcases Value.cases_of_ofNode means with
    ⟨leaf,rfl⟩ | ⟨items,meanings,deep,rfl,rfl,all⟩ | ⟨entries,sorted,deep,rfl,rfl,all⟩
  · cases meaning with
    | array items => cases leaf
    | object members => cases leaf
    | _ => exact .rfl
  · exact agree.readItems (Value.forall₂_of_ofItems all) _ true 0 value
  · obtain ⟨members,rfl,sorts⟩ := Value.exists_sorts all single
    rw [Value.toNode,Value.toMembers_eq]
    have whole' : ∀ entry ∈ sorted.map (fun (name,meaning) => (name,meaning.toNode)), entry.2.isComplete = true := by
      rintro ⟨name,node⟩ member
      obtain ⟨meaning,_,rfl⟩ := Value.mem_toNodes.mp member
      exact Value.isComplete_toNode meaning
    have single' : ((sorted.map fun (name,meaning) => (name,meaning.toNode)).map Prod.fst).Nodup := by
      rw [List.map_map]
      exact sorts.single'
    rw [read_object_iff distinct sorts.single (own _) sorts.isComplete,read_object_iff distinct single' (own _) whole']
    exact agree.finds sorts value

end Fields

end Json

theorem Json.Field.eq_name {α : Type} {field : Field α} (plain : field.alias? = none) {key : String}
    (answers : field.answersTo key = true) : key = field.name := by
  rw [Field.answersTo,plain,Bool.or_eq_true] at answers
  rcases answers with same | other
  · exact (beq_iff_eq.mp same).symm
  · cases other

theorem Gate.readsAlike_json {depth : Nat} {node : Node} {meaning : Value}
    (means : Value.ofNode depth node = some meaning) (single : node.keys.Nodup) : Gate.json.ReadsAlike node meaning := by
  refine ReadsAlike.imap (Fields.Agree.read ?_ ?_ ?_ means single _) _ _
  · exact ⟨agrees_number,agrees_number,agrees_string.optional,trivial⟩
  · decide
  · exact fun keys => ⟨fun _ _ => Field.eq_name rfl,fun _ _ => Field.eq_name rfl,fun _ _ => Field.eq_name rfl,trivial⟩

namespace MapPlan

private theorem read_json_iff {members : List (String × Node)} (single : (members.map Prod.fst).Nodup)
    (whole : ∀ entry ∈ members, entry.2.isComplete = true) (noAlias : "map_image" ∉ members.map Prod.fst)
    {plan : MapPlan} : MapPlan.json.read .text (.object (named members) true) = .ok plan ↔
      (∃ node, ("mapImage",node) ∈ members ∧ string.read .text node = .ok plan.image) ∧
        ∃ node, ("gates",node) ∈ members ∧ Gate.json.list.read .text node = .ok plan.gates := by
  let fields : Fields (String × List Gate × Unit) :=
    .cons { name := "mapImage", alias? := some "map_image", codec := string } <|
    .cons { name := "gates", codec := Gate.json.list } .nil
  have own : fields.IsOwn (members.map Prod.fst) := by
    refine ⟨fun key listed answers => ?_,fun _ _ => Field.eq_name rfl,trivial⟩
    rw [Field.answersTo,Bool.or_eq_true] at answers
    rcases answers with same | other
    · exact (beq_iff_eq.mp same).symm
    · obtain rfl := Option.some.inj (beq_iff_eq.mp other)
      exact absurd listed noAlias
  rw [MapPlan.json,imap_read,map_eq_ok]
  have found (value : String × List Gate × Unit) :
      fields.read "struct ImageMapConfig" .text (.object (named members) true) = .ok value ↔
        fields.Finds .text members value :=
    Fields.read_object_iff (by decide) single own whole _
  constructor
  · rintro ⟨⟨image,gates,⟨⟩⟩,read,rfl⟩
    obtain ⟨first | ⟨_,⟨⟩⟩,second | ⟨_,⟨⟩⟩,_⟩ := (found _).mp read
    exact ⟨first,second⟩
  · rintro ⟨first,second⟩
    exact ⟨(plan.image,plan.gates,()),(found _).mpr ⟨.inl first,.inl second,trivial⟩,rfl⟩

private theorem ofJson_iff {text : String} {sorted : List (String × Value)}
    (reads : Value.ofChars text.toList = .ok (.object sorted)) (single : (sorted.map Prod.fst).Nodup) {plan : MapPlan} :
    MapPlan.ofJson text = .ok plan ↔
      (∃ meaning, ("mapImage",meaning) ∈ sorted ∧ string.read .value meaning.toNode = .ok plan.image) ∧
        ∃ meaning, ("gates",meaning) ∈ sorted ∧ Gate.json.list.read .value meaning.toNode = .ok plan.gates := by
  simp only [← Value.lookup_eq_some_iff single]
  unfold MapPlan.ofJson
  rw [reads]
  simp only [Except.mapError,bind,Except.bind]
  cases sorted.lookup "mapImage" with
  | none =>
    refine iff_of_false nofun ?_
    rintro ⟨⟨_,⟨⟩,_⟩,_⟩
  | some meaning =>
    cases meaning with
    | text image =>
      cases sorted.lookup "gates" with
      | none =>
        refine iff_of_false nofun ?_
        rintro ⟨_,_,⟨⟩,_⟩
      | some meaning =>
        cases meaning with
        | array items =>
          have first : string.read .value (Value.text image).toNode = .ok image := text?_ofString image
          obtain ⟨image',gates'⟩ := plan
          simp only [Option.some.injEq,exists_eq_left',first,Except.ok.injEq]
          cases Gate.json.list.read .value (Value.array items).toNode with
          | error fault =>
            refine iff_of_false nofun ?_
            rintro ⟨_,⟨⟩⟩
          | ok gates =>
            dsimp only [pure,Except.pure]
            rw [Except.ok.injEq,MapPlan.mk.injEq,Except.ok.injEq]
        | _ =>
          refine iff_of_false nofun ?_
          rintro ⟨_,_,⟨⟩,⟨⟩⟩
    | _ =>
      refine iff_of_false nofun ?_
      rintro ⟨⟨_,⟨⟩,⟨⟩⟩,_⟩

end MapPlan

def Json.Node.items : Node → List Node
  | .array items _ => items
  | _ => []

def Json.Node.gates : Node → List Node
  | .object members _ => members.flatMap fun (key,under) => if key.string = "gates" then under.items else []
  | _ => []

theorem Json.Node.mem_gates {members : List (String × Node)} {items : List Node} {closed : Bool}
    (member : ("gates",.array items closed) ∈ members) {item : Node} (inside : item ∈ items) :
    item ∈ (Node.object (named members) true).gates := by
  refine List.mem_flatMap.mpr ⟨(Literal.ofString "gates",.array items closed),List.mem_map_of_mem member,?_⟩
  dsimp only
  rwa [if_pos (string_ofString "gates")]

/-- Neither an object nor any of its gates has two members of one name. -/
structure Json.Node.IsSingle (node : Node) : Prop where
  names : node.keys.Nodup
  gates : ∀ gate ∈ node.gates, gate.keys.Nodup

instance (node : Node) : Decidable node.IsSingle :=
  decidable_of_iff (node.keys.Nodup ∧ ∀ gate ∈ node.gates, gate.keys.Nodup)
    ⟨fun ⟨names,gates⟩ => ⟨names,gates⟩,fun ⟨names,gates⟩ => ⟨names,gates⟩⟩

/-- Where no name comes twice and the image has its own name, both ways read the same plan from a text, or none. -/
theorem MapPlan.ofJson_iff_ofChars {text : String}
    (reads : ∃ sorted, Value.ofChars text.toList = .ok (.object sorted))
    (noAlias : "map_image" ∉ (Document.ofChars text.toList).root.keys)
    (single : (Document.ofChars text.toList).root.IsSingle) (plan : MapPlan) :
    MapPlan.ofJson text = .ok plan ↔ MapPlan.json.ofChars text.toList = .ok plan := by
  obtain ⟨sorted,reads⟩ := reads
  obtain ⟨means,ends⟩ := Value.ofChars_eq_ok_iff.mp reads
  rw [ofChars_of_ends _ ends]
  obtain ⟨names,gates⟩ := single
  generalize (Document.ofChars text.toList).root = root at means noAlias names gates
  rcases Value.cases_of_ofNode means with ⟨leaf,rfl⟩ | ⟨_,_,_,rfl,⟨⟩,_⟩ | ⟨entries,_,depth,rfl,same,all⟩
  · cases leaf
  · obtain rfl := Value.object.inj same
    obtain ⟨members,rfl,sorts⟩ := Value.exists_sorts all names
    rw [Value.keys_named] at noAlias
    have image := exists_member_iff sorts "mapImage" (fun node _ => agrees_string depth node) plan.image
    have each := exists_member_iff sorts "gates" (fun node member meaning means => list_readsAlike means
      fun items closed same item inside _ _ means =>
        Gate.readsAlike_json means (gates item (Node.mem_gates (same ▸ member) inside))) plan.gates
    rw [ofJson_iff reads sorts.single',read_json_iff sorts.single sorts.isComplete noAlias,image,each]

/-- A gate with its members in another order, with `null` for its label and with a member more, and one that is an
array. -/
theorem MapPlan.ofJson_iff_ofChars_two_gates :
    let gates := "[\x7b\"y\":2,\"x\":1.5,\"label\":null,\"z\":\x7b\x7d\x7d,[3,4,\"b\"]]"
    let text := "\x7b\"more\":[],\"mapImage\":\"a.png\",\"gates\":" ++ gates ++ "\x7d"
    let plan : MapPlan := ⟨"a.png",[⟨1.5,2,none⟩,⟨3,4,some "b"⟩]⟩
    MapPlan.ofJson text = .ok plan ∧ MapPlan.json.ofChars text.toList = .ok plan := by
  intro gates text plan
  have reads : ∃ sorted, Value.ofChars text.toList = .ok (.object sorted) := by
    have keys : (Value.ofChars text.toList).map (·.toNode.keys) = .ok ["gates","mapImage","more"] := by decide +kernel
    obtain ⟨value,outcome,names⟩ := map_eq_ok.mp keys
    cases value with
    | object sorted => exact ⟨sorted,outcome⟩
    | _ => cases names
  have noAlias : "map_image" ∉ (Document.ofChars text.toList).root.keys := by decide +kernel
  have single : (Document.ofChars text.toList).root.IsSingle := by decide +kernel
  have read : MapPlan.ofJson text = .ok plan := by decide +kernel
  exact ⟨read,(MapPlan.ofJson_iff_ofChars reads noAlias single plan).mp read⟩

end PinnedMap
