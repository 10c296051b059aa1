import PinnedMap.Proofs.Decimal.Range
import PinnedMap.Proofs.Json.Accuracy
import PinnedMap.Proofs.Json.Agreement
import PinnedMap.Proofs.Json.Forms

/-! Which of the values that are written as JSON can be read again. All of them become JSON texts, but a double that is
not finite becomes `null`, and nothing that has one in it is read. The law is passed on from the numbers to what
they are in: it says of a value under which condition the tree of its text is read. -/
namespace PinnedMap

open Decimal

namespace Json

variable {α β : Type}

namespace Codec

/-- What is written for the value is a tree that means something at `depth`, and it is read just where the
condition holds. -/
def LegibleIf (codec : Codec α) (depth : Nat) (value : α) (condition : Prop) : Prop :=
  ∃ node meaning, Reads (codec.write value) node ∧ (∀ deep, depth ≤ deep → Value.ofNode deep node = some meaning) ∧
    ∀ origin, (∃ reread, codec.read origin node = .ok reread) ↔ condition

theorem LegibleIf.mono {codec : Codec α} {depth deeper : Nat} {value : α} {condition : Prop}
    (legible : codec.LegibleIf depth value condition) (more : depth ≤ deeper) :
    codec.LegibleIf deeper value condition := by
  obtain ⟨node,meaning,reads,means,iff⟩ := legible
  exact ⟨node,meaning,reads,fun deep enough => means deep (by omega),iff⟩

theorem LegibleIf.congr {codec : Codec α} {depth : Nat} {value : α} {condition other : Prop}
    (legible : codec.LegibleIf depth value condition) (same : condition ↔ other) : codec.LegibleIf depth value other :=
  propext same ▸ legible

theorem LegibleIf.ofChars {codec : Codec α} {depth : Nat} {value : α} {condition : Prop}
    (legible : codec.LegibleIf depth value condition) (shallow : depth ≤ depthLimit) :
    (∃ meaning, Value.ofChars (codec.write value) = .ok meaning) ∧
      ((∃ reread, codec.ofChars (codec.write value) = .ok reread) ↔ condition) := by
  obtain ⟨node,meaning,reads,means,iff⟩ := legible
  constructor
  · refine ⟨meaning,?_⟩
    unfold Value.ofChars
    rw [reads.document]
    dsimp only
    rw [means depthLimit shallow]
    rfl
  · rw [ofChars_of_reads codec reads]
    exact iff .text

theorem Restores.legible {codec : Codec α} {depth : Nat} {value restored : α}
    (restores : codec.Restores depth value restored) : codec.LegibleIf depth value True := by
  obtain ⟨node,meaning,reads,holds⟩ := restores
  exact ⟨node,meaning,reads,holds.means,fun origin => iff_of_true ⟨restored,holds.tree origin⟩ trivial⟩

private theorem legible_number (value : Float) : number.LegibleIf 0 value (IsFinite value) := by
  by_cases finite : IsFinite value
  · obtain ⟨magnitude,sort⟩ := finite
    obtain ⟨_,rereads,_⟩ := exists_rereads sort
    exact (restores_number rereads).legible.congr (iff_of_true trivial ⟨magnitude,sort⟩)
  · rcases chars_json value with ⟨_,shape⟩ | ⟨magnitude,_,_,_,sort,_⟩
    · have reads : Reads (number.write value) .null := by
        change Reads (Form.json.chars value) .null
        rw [shape]
        exact reads_null
      exact ⟨.null,.null,reads,fun _ _ => rfl,fun _ => iff_of_false (fun ⟨_,read⟩ => by cases read) finite⟩
    · exact absurd ⟨magnitude,sort⟩ finite

theorem LegibleIf.imap {codec : Codec α} {toValue : α → β} {ofValue : β → α} {depth : Nat} {value : β}
    {condition : Prop} (legible : codec.LegibleIf depth (ofValue value) condition) :
    (codec.imap toValue ofValue).LegibleIf depth value condition := by
  obtain ⟨node,meaning,reads,means,iff⟩ := legible
  refine ⟨node,meaning,reads,means,fun origin => ?_⟩
  rw [← iff origin]
  change (∃ reread, (codec.read origin node).map toValue = .ok reread) ↔ _
  cases codec.read origin node <;> simp [Except.map]

private theorem items_of_legible {codec : Codec α} {depth : Nat} {condition : α → Prop} {values : List α}
    (each : ∀ value ∈ values, codec.LegibleIf depth value (condition value)) : ∃ nodes meanings,
      List.Forall₂ Reads (values.map codec.write) nodes ∧
      (∀ deep, depth ≤ deep → Value.ofItems deep nodes = some meanings) ∧
      ∀ origin, (∃ rereads, nodes.mapM (codec.read origin) = .ok rereads) ↔ ∀ value ∈ values, condition value := by
  induction values with
  | nil => exact ⟨[],[],.nil,fun _ _ => rfl,fun _ => iff_of_true ⟨[],rfl⟩ nofun⟩
  | cons value values ih =>
    obtain ⟨first,others⟩ := List.forall_mem_cons.mp each
    obtain ⟨node,meaning,reads,means,iff⟩ := first
    obtain ⟨nodes,meanings,allRead,allMean,iff'⟩ := ih others
    refine ⟨node :: nodes,meaning :: meanings,.cons reads allRead,fun deep enough => ?_,fun origin => ?_⟩
    · rw [Value.ofItems,means deep enough,allMean deep enough]
      rfl
    · rw [List.forall_mem_cons,← iff origin,← iff' origin,List.mapM_cons]
      cases codec.read origin node <;> cases nodes.mapM (codec.read origin) <;>
        simp [bind,Except.bind,pure,Except.pure]

theorem LegibleIf.list {codec : Codec α} {depth : Nat} {condition : α → Prop} {values : List α}
    (each : ∀ value ∈ values, codec.LegibleIf depth value (condition value)) :
    codec.list.LegibleIf (depth + 1) values (∀ value ∈ values, condition value) := by
  obtain ⟨nodes,meanings,reads,means,iff⟩ := items_of_legible each
  refine ⟨.array nodes true,.array meanings,reads_bracket reads,fun deep enough => ?_,fun origin => ?_⟩
  · have positive : 0 < deep := by omega
    rw [Value.ofNode,means (deep - 1) (by omega)]
    simp [positive]
  · rw [← iff origin]
    change (∃ rereads, (nodes.mapM (codec.read origin) >>= fun values => Except.ok values) = .ok rereads) ↔ _
    cases nodes.mapM (codec.read origin) <;> simp [bind,Except.bind]

end Codec

theorem Value.isComplete_of_means {depth : Nat} {members : List (String × Node)} {meanings : List (String × Value)}
    (means : List.Forall₂ (Means depth) members meanings) : ∀ entry ∈ members, entry.2.isComplete = true := by
  induction means with
  | nil => nofun
  | cons first _ ih => exact List.forall_mem_cons.mpr ⟨isComplete_of_ofNode (first.2 depth le_rfl),ih⟩

namespace Fields

/-- Every field is written as a member under its name, and the members are read just where the condition holds. -/
structure Shows (fields : Fields α) (depth : Nat) (value : α) (condition : Prop) (members : List (String × Node))
    (meanings : List (String × Value)) : Prop where
  written : List.Forall₂ IsMember (fields.writeMembers value) (named members)
  means : List.Forall₂ (Value.Means depth) members meanings
  keys : members.map Prod.fst = fields.names
  distinct : fields.names.Nodup
  own : ∀ keys, fields.IsOwn keys
  finds : ∀ origin, (∃ reread, fields.Finds origin members reread) ↔ condition

def LegibleIf (fields : Fields α) (depth : Nat) (value : α) (condition : Prop) : Prop :=
  ∃ members meanings, fields.Shows depth value condition members meanings

private theorem legible_nil (depth : Nat) : Fields.nil.LegibleIf depth () True :=
  ⟨[],[],.nil,.nil,rfl,.nil,fun _ => trivial,fun _ => iff_of_true ⟨(),trivial⟩ trivial⟩

theorem LegibleIf.cons {field : Field α} {rest : Fields β} {depth : Nat} {value : α} {values : β}
    {condition conditions : Prop} (plain : field.alias? = none) (kept : field.isOmitted value = false)
    (new : field.name ∉ rest.names) (first : field.codec.LegibleIf depth value condition)
    (others : rest.LegibleIf depth values conditions) :
    (Fields.cons field rest).LegibleIf depth (value,values) (condition ∧ conditions) := by
  obtain ⟨node,meaning,reads,means,iff⟩ := first
  obtain ⟨members,meanings,shows⟩ := others
  refine ⟨(field.name,node) :: members,(field.name,meaning) :: meanings,?_,.cons ⟨rfl,means⟩ shows.means,
    congrArg (field.name :: ·) shows.keys,List.nodup_cons.mpr ⟨new,shows.distinct⟩,
    fun keys => ⟨fun _ _ => Field.eq_name plain,shows.own keys⟩,fun origin => ?_⟩
  · rw [writeMembers,kept]
    exact .cons ⟨field.name,_,rfl,rfl,reads⟩ shows.written
  · have absent : ∀ other, (field.name,other) ∉ members := fun other member =>
      new (shows.keys ▸ List.mem_map_of_mem member)
    have own (reread : α) : ((∃ other, (field.name,other) ∈ (field.name,node) :: members ∧
          field.codec.read origin other = .ok reread) ∨
        (∀ other, (field.name,other) ∉ (field.name,node) :: members) ∧ field.absent = some reread) ↔
          field.codec.read origin node = .ok reread := by
      simp [absent]
    have same (rereads : β) : rest.Finds origin ((field.name,node) :: members) rereads ↔
        rest.Finds origin members rereads := by
      refine finds_congr fun name listed other => ?_
      have apart : name ≠ field.name := fun equal => new (equal ▸ listed)
      simp [apart]
    rw [← iff origin,← shows.finds origin]
    simp only [Prod.exists,Finds,own,same,exists_and_left,exists_and_right]

theorem LegibleIf.add {field : Field α} {rest : Fields β} {depth : Nat} {value : α} {values : β} {condition : Prop}
    (plain : field.alias? = none) (kept : field.isOmitted value = false) (new : field.name ∉ rest.names)
    (first : field.codec.LegibleIf depth value True) (others : rest.LegibleIf depth values condition) :
    (Fields.cons field rest).LegibleIf depth (value,values) condition :=
  true_and condition ▸ cons plain kept new first others

theorem LegibleIf.last {field : Field α} {depth : Nat} {value : α} {condition : Prop} (plain : field.alias? = none)
    (kept : field.isOmitted value = false) (legible : field.codec.LegibleIf depth value condition) :
    (Fields.cons field .nil).LegibleIf depth (value,()) condition :=
  and_true condition ▸ cons plain kept (by simp [names]) legible (legible_nil depth)

theorem Shows.read_iff {fields : Fields α} {depth : Nat} {value : α} {condition : Prop} {members : List (String × Node)}
    {meanings : List (String × Value)} (shows : fields.Shows depth value condition members meanings) (name : String)
    (origin : Origin) : (∃ reread, fields.read name origin (.object (named members) true) = .ok reread) ↔ condition := by
  rw [← shows.finds origin]
  refine exists_congr fun reread => ?_
  exact read_object_iff shows.distinct (shows.keys ▸ shows.distinct) (shows.own _) (Value.isComplete_of_means shows.means)
    name

theorem LegibleIf.codec {fields : Fields α} {depth : Nat} {value : α} {condition : Prop}
    (legible : fields.LegibleIf depth value condition) (name : String) :
    (fields.codec name).LegibleIf (depth + 1) value condition := by
  obtain ⟨members,meanings,shows⟩ := legible
  refine ⟨.object (named members) true,.object (Value.insertAll [] meanings),reads_brace shows.written,
    fun deep enough => ?_,shows.read_iff name⟩
  have positive : 0 < deep := by omega
  rw [Value.ofNode,Value.ofMembers_named (by omega : depth ≤ deep - 1) shows.means []]
  simp [positive]

end Fields

theorem Fields.LegibleIf.tagged {fields : Fields β} {depth : Nat} {parts : β} {condition : Prop}
    (legible : fields.LegibleIf depth parts condition) {sum : Tagged α} {name title : String} {build : β → α}
    {parts? : α → Option β} (known : sum.variants.find? (·.name == name) = some (fields.variant name title build parts?))
    (noTag : sum.tag ∉ fields.names) (shallow : depth < depthLimit) {value : α}
    (chosen : sum.write value = brace (member sum.tag (quote name) :: fields.writeMembers parts)) :
    sum.codec.LegibleIf (depth + 1) value condition := by
  obtain ⟨members,meanings,shows⟩ := legible
  have tag : IsMember (member sum.tag (quote name)) (Literal.ofString sum.tag,.text (Literal.ofString name)) :=
    ⟨sum.tag,_,rfl,rfl,reads_quote name⟩
  have selects : sum.select (.text (Literal.ofString name)) = .ok (fields.variant name title build parts?) := by
    rw [Tagged.select,Codec.text?_ofString]
    simp only [bind,Except.bind,known]
    rfl
  have aside := Tagged.isAside_of_means sum shallow shows.means (shows.keys ▸ noTag)
  refine ⟨.object ((Literal.ofString sum.tag,.text (Literal.ofString name)) :: named members) true,
    .object (Value.insertAll [] ((sum.tag,.text name) :: meanings)),?_,fun deep enough => ?_,fun origin => ?_⟩
  · change Reads (sum.write value) _
    rw [chosen]
    exact reads_brace (.cons tag shows.written)
  · have positive : 0 < deep := by omega
    have named : Value.Means depth (sum.tag,.text (Literal.ofString name)) (sum.tag,.text name) :=
      ⟨rfl,fun _ _ => congrArg (some ∘ Value.text) (Codec.string_ofString name)⟩
    have all := Value.ofMembers_named (by omega : depth ≤ deep - 1) (.cons named shows.means) []
    rw [Value.ofNode]
    simp only [positive,decide_true,Bool.and_self,if_true]
    exact congrArg (Option.map Value.object) all
  · have others : ∀ entry ∈ [] ++ named members, sum.IsAside entry := aside
    have read := Tagged.read_of_tag selects others
    rw [List.nil_append,List.nil_append] at read
    rw [← shows.read_iff ("struct variant " ++ title) .aside]
    change (∃ reread, sum.read (.object (_ :: named members) true) = .ok reread) ↔ _
    rw [read]
    change (∃ reread, (fields.read _ .aside (.object (named members) true)).map build = .ok reread) ↔ _
    cases fields.read ("struct variant " ++ title) .aside (.object (named members) true) <;> simp [Except.map]

end Json

open Json Json.Codec

def Size.IsFinite (size : Size) : Prop := Decimal.IsFinite size.width ∧ Decimal.IsFinite size.height

theorem Size.legible_json (size : Size) : Size.json.LegibleIf 1 size size.IsFinite := by
  refine LegibleIf.imap (Fields.LegibleIf.codec ?_ _)
  exact .cons rfl rfl (by decide) (legible_number _) (.last rfl rfl (legible_number _))

def Ratio.IsFinite (ratio : Ratio) : Prop := Decimal.IsFinite ratio.x ∧ Decimal.IsFinite ratio.y

theorem Ratio.legible_json (ratio : Ratio) : Ratio.json.LegibleIf 1 ratio ratio.IsFinite := by
  refine LegibleIf.imap (Fields.LegibleIf.codec ?_ _)
  exact .cons rfl rfl (by decide) (legible_number _) (.last rfl rfl (legible_number _))

def Placement.IsFinite (place : Placement) : Prop := Decimal.IsFinite place.left ∧ Decimal.IsFinite place.top

def Placement.IsCounted (place : Placement) : Prop := Json.IsIndex place.index ∧ Json.IsIndex place.element.index

theorem Placement.legible_json {place : Placement} (counted : place.IsCounted) :
    Placement.json.LegibleIf 1 place place.IsFinite := by
  have element : ElementId.json.LegibleIf 0 place.element True := (restores_count counted.2).legible.imap
  refine LegibleIf.imap (Fields.LegibleIf.codec ?_ _)
  exact .add rfl rfl (by decide) (restores_count counted.1).legible <| .add rfl rfl (by decide) element <|
    .cons rfl rfl (by decide) (legible_number _) (.last rfl rfl (legible_number _))

namespace MapEvent

def IsFinite : MapEvent → Prop
  | .attached _ natural => natural.IsFinite
  | .repositioned _ update _ => update.ratio.IsFinite ∧ ∀ place ∈ update.placements, place.IsFinite
  | .loadFailed .. | .recomputeFailed .. | .disposed _ => True

/-- What has to be said of an event for its JSON to depend on its numbers alone. -/
def IsCounted : MapEvent → Prop
  | .repositioned _ update time => (∀ place ∈ update.placements, place.IsCounted) ∧ time.IsMoment
  | .attached .. | .loadFailed .. | .recomputeFailed .. | .disposed _ => True

private theorem legible_json {event : MapEvent} (counted : event.IsCounted) :
    MapEvent.json.LegibleIf 3 event event.IsFinite := by
  have map (id : Uuid) : mapField.codec.LegibleIf 2 id True := (Uuid.restores_json id).legible.mono (by simp)
  have text (text : String) : string.LegibleIf 2 text True := (restores_string text).legible.mono (by simp)
  cases event with
  | attached id natural =>
    refine Fields.LegibleIf.tagged ?_ rfl (by decide) (by decide) rfl
    exact .add rfl rfl (by decide) (map id) (.last rfl rfl (natural.legible_json.mono (by simp)))
  | repositioned id update time =>
    have places := LegibleIf.list fun place listed => Placement.legible_json (counted.1 place listed)
    have moment := (Timestamp.restores_json counted.2).legible.mono (Nat.zero_le 2)
    refine Fields.LegibleIf.tagged ?_ rfl (by decide) (by decide) rfl
    refine .add rfl rfl (by decide) (map id) (.cons rfl rfl (by decide) (update.ratio.legible_json.mono (by simp)) ?_)
    exact and_true (∀ place ∈ update.placements, place.IsFinite) ▸
      .cons rfl rfl (by decide) places (.last rfl rfl moment)
  | loadFailed id url reason =>
    refine Fields.LegibleIf.tagged ?_ rfl (by decide) (by decide) rfl
    exact .add rfl rfl (by decide) (map id) (.add rfl rfl (by decide) (text url) (.last rfl rfl (text reason)))
  | recomputeFailed id reason =>
    refine Fields.LegibleIf.tagged ?_ rfl (by decide) (by decide) rfl
    exact .add rfl rfl (by decide) (map id) (.last rfl rfl (text reason))
  | disposed id =>
    refine Fields.LegibleIf.tagged ?_ rfl (by decide) (by decide) rfl
    exact .last rfl rfl (map id)

/-- The line of an event is a JSON text, and an event is read from it if its numbers are finite, and not else. -/
theorem line_legible {event : MapEvent} (counted : event.IsCounted) :
    (∃ meaning, Value.ofChars event.line.toList = .ok meaning) ∧
      ((∃ reread, MapEvent.json.ofChars event.line.toList = .ok reread) ↔ event.IsFinite) := by
  rw [line,String.toList_ofList]
  exact (legible_json counted).ofChars (by decide)

end MapEvent
end PinnedMap
