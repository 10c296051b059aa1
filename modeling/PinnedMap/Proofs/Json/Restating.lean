import PinnedMap.Proofs.Json.Members

/-! Trees with one meaning. The order of the members of an object does not matter, nor does a member that a later one of
its name replaces. -/
namespace PinnedMap.Json

/-- A tree of texts and doubles, with arrays and objects at most `depth` deep in each other. -/
inductive Node.IsWellFormed : (depth : Nat) → Node → Prop
  | null {depth} : IsWellFormed depth .null
  | boolean {depth value} : IsWellFormed depth (.boolean value)
  | number {depth n} (isDouble : n ≠ .tooLarge) : IsWellFormed depth (.number n)
  | text {depth literal} (isText : literal.isText = true) : IsWellFormed depth (.text literal)
  | array {depth items} (each : ∀ item ∈ items, IsWellFormed depth item) : IsWellFormed (depth + 1) (.array items true)
  | object {depth members} (keys : ∀ entry ∈ members, entry.1.isText = true)
      (each : ∀ entry ∈ members, IsWellFormed depth entry.2) : IsWellFormed (depth + 1) (.object members true)

/-- One change to a tree that leaves what it means. -/
inductive Node.Restates : Node → Node → Prop
  | permuted {members others closed} (distinct : members.Pairwise fun entry later => entry.1.string ≠ later.1.string)
      (perm : members.Perm others) : Restates (.object members closed) (.object others closed)
  | repeated {before after key value closed} (later : ∃ entry ∈ after, entry.1.string = key.string) :
      Restates (.object (before ++ after) closed) (.object (before ++ (key,value) :: after) closed)
  | item {before item item' after closed} (inside : Restates item item') :
      Restates (.array (before ++ item :: after) closed) (.array (before ++ item' :: after) closed)
  | member {before key value value' after closed} (inside : Restates value value') :
      Restates (.object (before ++ (key,value) :: after) closed) (.object (before ++ (key,value') :: after) closed)

namespace Value

private theorem ofItems_eq_some_iff {depth : Nat} {items : List Node} {meanings : List Value} :
    ofItems depth items = some meanings ↔
    List.Forall₂ (fun item meaning => ofNode depth item = some meaning) items meanings := by
  refine ⟨forall₂_of_ofItems,fun each => ?_⟩
  induction each with
  | nil => rfl
  | cons first _ ih =>
    rw [ofItems,first,ih]
    rfl

private theorem ofNode_array_iff {depth : Nat} {items : List Node} {closed : Bool} {meaning : Value} :
    ofNode depth (.array items closed) = some meaning ↔ (closed = true ∧ 0 < depth) ∧ ∃ meanings,
      List.Forall₂ (fun item meaning => ofNode (depth - 1) item = some meaning) items meanings ∧ .array meanings = meaning := by
  rw [ofNode]
  split_ifs with whole
  · rw [Option.map_eq_some_iff,and_iff_right (by simpa using whole)]
    simp only [ofItems_eq_some_iff]
  · exact iff_of_false nofun fun both => whole (by simpa using both.1)

private theorem ofNode_object_iff {depth : Nat} {members : List (Literal × Node)} {closed : Bool} {meaning : Value} :
    ofNode depth (.object members closed) = some meaning ↔ (closed = true ∧ 0 < depth) ∧ ∃ sorted,
      ofMembers (depth - 1) [] members = some sorted ∧ .object sorted = meaning := by
  rw [ofNode]
  split_ifs with whole
  · rw [Option.map_eq_some_iff,and_iff_right (by simpa using whole)]
  · exact iff_of_false nofun fun both => whole (by simpa using both.1)

end Value

theorem Value.forall₂_replace {α β : Type} {related : α → β → Prop} {before after : List α} {item item' : α}
    {results : List β} (kept : ∀ result, related item' result → related item result)
    (each : List.Forall₂ related (before ++ item' :: after) results) :
    List.Forall₂ related (before ++ item :: after) results := by
  induction before generalizing results with
  | nil =>
    cases each with
    | cons first others => exact .cons (kept _ first) others
  | cons _ before ih =>
    cases each with
    | cons first others => exact .cons first (ih others)

theorem Node.Restates.ofNode {node node' : Node} (restates : node.Restates node') {depth : Nat} {meaning : Value}
    (means : Value.ofNode depth node' = some meaning) : Value.ofNode depth node = some meaning := by
  induction restates generalizing depth meaning with
  | permuted distinct perm =>
    rw [Value.ofNode] at means ⊢
    rwa [Value.ofMembers_perm distinct perm]
  | repeated later =>
    obtain ⟨whole,sorted,all,rfl⟩ := Value.ofNode_object_iff.mp means
    exact Value.ofNode_object_iff.mpr ⟨whole,sorted,Value.ofMembers_repeated later all,rfl⟩
  | item inside ih =>
    obtain ⟨whole,meanings,each,rfl⟩ := Value.ofNode_array_iff.mp means
    exact Value.ofNode_array_iff.mpr ⟨whole,meanings,Value.forall₂_replace (fun _ means => ih means) each,rfl⟩
  | member inside ih =>
    obtain ⟨whole,sorted,all,rfl⟩ := Value.ofNode_object_iff.mp means
    refine Value.ofNode_object_iff.mpr ⟨whole,sorted,?_,rfl⟩
    obtain ⟨found,first,rest⟩ := Value.ofMembers_append_iff.mp all
    obtain ⟨value,isValue,isText,others⟩ := Value.ofMembers_cons_iff.mp rest
    exact Value.ofMembers_append_iff.mpr ⟨found,first,Value.ofMembers_cons_iff.mpr ⟨value,ih isValue,isText,others⟩⟩

namespace Node.IsWellFormed

variable {depth : Nat} {closed : Bool}

end Node.IsWellFormed

end PinnedMap.Json
