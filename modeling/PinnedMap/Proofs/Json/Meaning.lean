import PinnedMap.Proofs.Json.Record

/-! What a tree means as a value. A tree that means something is well-formed; its arrays mean theirs item by item, and
its objects, where no name comes twice, mean the same members in another order. -/
namespace PinnedMap.Json

namespace Value

mutual

theorem isComplete_of_ofNode : ∀ {depth : Nat} {node : Node} {meaning : Value},
    ofNode depth node = some meaning → node.isComplete = true
  | _, .null, _, _ | _, .boolean _, _, _ | _, .number _, _, _ | _, .text _, _, _ => rfl
  | _, .array items closed, _, means => by
    rw [ofNode] at means
    split_ifs at means with whole
    obtain ⟨meanings,each,_⟩ := Option.map_eq_some_iff.mp means
    rw [Bool.and_eq_true] at whole
    rw [Node.isComplete,whole.1,itemsComplete_of_ofItems each,Bool.and_true]
  | _, .object members closed, _, means => by
    rw [ofNode] at means
    split_ifs at means with whole
    obtain ⟨meanings,each,_⟩ := Option.map_eq_some_iff.mp means
    rw [Bool.and_eq_true] at whole
    rw [Node.isComplete,whole.1,membersComplete_of_ofMembers each,Bool.and_true]
  | _, .broken, _, means => by cases means

theorem itemsComplete_of_ofItems : ∀ {depth : Nat} {items : List Node} {meanings : List Value},
    ofItems depth items = some meanings → Node.itemsComplete items = true
  | _, [], _, _ => rfl
  | _, item :: items, _, means => by
    rw [ofItems] at means
    obtain ⟨meaning,first,rest⟩ := Option.bind_eq_some_iff.mp means
    obtain ⟨meanings,others,_⟩ := Option.bind_eq_some_iff.mp rest
    rw [Node.itemsComplete,isComplete_of_ofNode first,itemsComplete_of_ofItems others,Bool.and_true]

theorem membersComplete_of_ofMembers : ∀ {depth : Nat} {found all : List (String × Value)}
    {members : List (Literal × Node)}, ofMembers depth found members = some all → Node.membersComplete members = true
  | _, _, _, [], _ => rfl
  | _, _, _, (key,node) :: members, means => by
    rw [ofMembers] at means
    obtain ⟨meaning,first,rest⟩ := Option.bind_eq_some_iff.mp means
    split_ifs at rest
    rw [Node.membersComplete,isComplete_of_ofNode first,membersComplete_of_ofMembers rest,Bool.and_true]

end

mutual

theorem isComplete_toNode : ∀ meaning : Value, meaning.toNode.isComplete = true
  | .null | .boolean _ | .number _ | .text _ => rfl
  | .array items => itemsComplete_toItems items
  | .object members => membersComplete_toMembers members

theorem itemsComplete_toItems : ∀ meanings : List Value, Node.itemsComplete (toItems meanings) = true
  | [] => rfl
  | meaning :: meanings => by
    rw [toItems,Node.itemsComplete,isComplete_toNode meaning,itemsComplete_toItems meanings,Bool.and_true]

theorem membersComplete_toMembers : ∀ members : List (String × Value),
    Node.membersComplete (toMembers members) = true
  | [] => rfl
  | (name,meaning) :: members => by
    rw [toMembers,Node.membersComplete,isComplete_toNode meaning,membersComplete_toMembers members,Bool.and_true]

end

theorem forall₂_of_ofItems {depth : Nat} {items : List Node} {meanings : List Value}
    (means : ofItems depth items = some meanings) :
    List.Forall₂ (fun item meaning => ofNode depth item = some meaning) items meanings := by
  induction items generalizing meanings with
  | nil =>
    obtain rfl := Option.some.inj means
    exact .nil
  | cons item items ih =>
    rw [ofItems] at means
    obtain ⟨meaning,first,rest⟩ := Option.bind_eq_some_iff.mp means
    obtain ⟨meanings,others,same⟩ := Option.bind_eq_some_iff.mp rest
    obtain rfl := Option.some.inj same
    exact .cons first (ih others)

private theorem ofString_string {literal : Literal} (isText : literal.isText = true) :
    Literal.ofString literal.string = literal := by
  obtain ⟨chars,_⟩ := literal
  obtain rfl : _ = true := isText
  rw [Literal.ofString,Literal.string,String.toList_ofList]

def Pairs (depth : Nat) (members : List (String × Node)) (meanings : List (String × Value)) : Prop :=
  List.Forall₂ (fun member meaning => member.1 = meaning.1 ∧ ofNode depth member.2 = some meaning.2) members meanings

private theorem exists_pairs {depth : Nat} {found all : List (String × Value)} {entries : List (Literal × Node)}
    (means : ofMembers depth found entries = some all) :
    ∃ members meanings, entries = named members ∧ Pairs depth members meanings ∧ all = insertAll found meanings := by
  induction entries generalizing found with
  | nil => exact ⟨[],[],rfl,.nil,(Option.some.inj means).symm⟩
  | cons entry entries ih =>
    obtain ⟨key,node⟩ := entry
    rw [ofMembers] at means
    obtain ⟨meaning,first,rest⟩ := Option.bind_eq_some_iff.mp means
    split_ifs at rest with isText
    obtain ⟨members,meanings,rfl,pairs,rfl⟩ := ih rest
    refine ⟨(key.string,node) :: members,(key.string,meaning) :: meanings,?_,.cons ⟨rfl,first⟩ pairs,rfl⟩
    exact congrArg (fun literal => (literal,node) :: named members) (ofString_string isText).symm

/-- The members of an object and those of the value that it is, which are sorted. -/
structure Sorts (depth : Nat) (members : List (String × Node)) (sorted : List (String × Value)) : Prop where
  single : (members.map Prod.fst).Nodup
  single' : (sorted.map Prod.fst).Nodup
  means : ∀ name node, (name,node) ∈ members → ∃ meaning, ofNode depth node = some meaning ∧ (name,meaning) ∈ sorted
  stands : ∀ name meaning, (name,meaning) ∈ sorted → ∃ node, (name,node) ∈ members ∧ ofNode depth node = some meaning

theorem Sorts.isComplete {depth : Nat} {members : List (String × Node)} {sorted : List (String × Value)}
    (sorts : Sorts depth members sorted) : ∀ entry ∈ members, entry.2.isComplete = true := by
  rintro ⟨name,node⟩ member
  obtain ⟨meaning,means,_⟩ := sorts.means name node member
  exact isComplete_of_ofNode means

theorem Pairs.names {depth : Nat} {members : List (String × Node)} {meanings : List (String × Value)}
    (pairs : Pairs depth members meanings) : members.map Prod.fst = meanings.map Prod.fst := by
  induction pairs with
  | nil => rfl
  | cons first _ ih => rw [List.map_cons,List.map_cons,first.1,ih]

theorem Pairs.means {depth : Nat} {members : List (String × Node)} {meanings : List (String × Value)}
    (pairs : Pairs depth members meanings) {name : String} {node : Node} (member : (name,node) ∈ members) :
    ∃ meaning, ofNode depth node = some meaning ∧ (name,meaning) ∈ meanings := by
  induction pairs with
  | nil => cases member
  | @cons entry meant _ _ first _ ih =>
    rcases List.mem_cons.mp member with rfl | later
    · exact ⟨meant.2,first.2,List.mem_cons.mpr (.inl (Prod.ext first.1 rfl))⟩
    · obtain ⟨meaning,means,listed⟩ := ih later
      exact ⟨meaning,means,List.mem_cons_of_mem _ listed⟩

theorem Pairs.stands {depth : Nat} {members : List (String × Node)} {meanings : List (String × Value)}
    (pairs : Pairs depth members meanings) {name : String} {meaning : Value} (member : (name,meaning) ∈ meanings) :
    ∃ node, (name,node) ∈ members ∧ ofNode depth node = some meaning := by
  induction pairs with
  | nil => cases member
  | @cons entry meant _ _ first _ ih =>
    rcases List.mem_cons.mp member with rfl | later
    · exact ⟨entry.2,List.mem_cons.mpr (.inl (Prod.ext first.1.symm rfl)),first.2⟩
    · obtain ⟨node,listed,means⟩ := ih later
      exact ⟨node,List.mem_cons_of_mem _ listed,means⟩

theorem Pairs.sorts {depth : Nat} {members : List (String × Node)} {meanings : List (String × Value)}
    (pairs : Pairs depth members meanings) (single : (members.map Prod.fst).Nodup) :
    Sorts depth members (insertAll [] meanings) := by
  have names : (meanings.map Prod.fst).Nodup := pairs.names ▸ single
  have sorted : (insertAll [] meanings).Perm meanings := by
    have apart : (meanings.map Prod.fst ++ ([] : List (String × Value)).map Prod.fst).Nodup := by
      rwa [List.map_nil,List.append_nil]
    exact (insertAll_perm apart).trans (by rw [List.append_nil])
  refine ⟨single,(sorted.map Prod.fst).nodup_iff.mpr names,fun name node member => ?_,fun name meaning member => ?_⟩
  · obtain ⟨meaning,means,listed⟩ := pairs.means member
    exact ⟨meaning,means,sorted.mem_iff.mpr listed⟩
  · exact pairs.stands (sorted.mem_iff.mp member)

end Value

def Node.keys : Node → List String
  | .object members _ => members.map fun (key,_) => key.string
  | _ => []

def Node.isLeaf : Node → Bool
  | .array .. | .object .. | .broken => false
  | _ => true

namespace Value

/-- A tree with a meaning is no array and no object, and stands for itself; or it is one of them and is closed. -/
theorem cases_of_ofNode {depth : Nat} {node : Node} {meaning : Value} (means : ofNode depth node = some meaning) :
    (node.isLeaf = true ∧ meaning.toNode = node) ∨
    (∃ items meanings deep, node = .array items true ∧ meaning = .array meanings ∧ ofItems deep items = some meanings) ∨
    ∃ entries sorted deep, node = .object entries true ∧ meaning = .object sorted ∧
      ofMembers deep [] entries = some sorted := by
  cases node with
  | null =>
    obtain rfl := Option.some.inj means
    exact .inl ⟨rfl,rfl⟩
  | boolean value =>
    obtain rfl := Option.some.inj means
    exact .inl ⟨rfl,rfl⟩
  | number n =>
    cases n with
    | tooLarge => cases means
    | _ =>
      obtain rfl := Option.some.inj means
      exact .inl ⟨rfl,rfl⟩
  | text literal =>
    rw [ofNode] at means
    split_ifs at means with isText
    obtain rfl := Option.some.inj means
    exact .inl ⟨rfl,congrArg Node.text (ofString_string isText)⟩
  | array items closed =>
    rw [ofNode] at means
    split_ifs at means with whole
    obtain ⟨meanings,each,rfl⟩ := Option.map_eq_some_iff.mp means
    obtain ⟨rfl,_⟩ := Bool.and_eq_true_iff.mp whole
    exact .inr (.inl ⟨items,meanings,_,rfl,rfl,each⟩)
  | object entries closed =>
    rw [ofNode] at means
    split_ifs at means with whole
    obtain ⟨sorted,each,rfl⟩ := Option.map_eq_some_iff.mp means
    obtain ⟨rfl,_⟩ := Bool.and_eq_true_iff.mp whole
    exact .inr (.inr ⟨entries,sorted,_,rfl,rfl,each⟩)
  | broken => cases means

theorem mem_toNodes {sorted : List (String × Value)} {name : String} {node : Node} :
    (name,node) ∈ sorted.map (fun (name,meaning) => (name,meaning.toNode)) ↔
      ∃ meaning, (name,meaning) ∈ sorted ∧ meaning.toNode = node := by
  rw [List.mem_map]
  constructor
  · rintro ⟨⟨_,meaning⟩,listed,same⟩
    obtain ⟨rfl,rfl⟩ := Prod.mk.inj same
    exact ⟨meaning,listed,rfl⟩
  · rintro ⟨meaning,listed,rfl⟩
    exact ⟨(name,meaning),listed,rfl⟩

theorem lookup_eq_some_iff {members : List (String × Value)} (single : (members.map Prod.fst).Nodup) {name : String}
    {meaning : Value} : members.lookup name = some meaning ↔ (name,meaning) ∈ members := by
  rw [List.lookup_eq_some_iff]
  constructor
  · rintro ⟨before,after,rfl,_⟩
    simp
  · intro listed
    obtain ⟨before,after,rfl⟩ := List.append_of_mem listed
    refine ⟨before,after,rfl,fun entry member => bne_iff_ne.mpr ?_⟩
    rintro rfl
    rw [List.map_append,List.nodup_append] at single
    exact single.2.2 _ (List.mem_map_of_mem member) _ (List.mem_cons_self ..) rfl

theorem keys_named (members : List (String × Node)) (closed : Bool) :
    (Node.object (named members) closed).keys = members.map Prod.fst := by
  rw [Node.keys,named,List.map_map]
  exact List.map_congr_left fun entry _ => Codec.string_ofString entry.1

theorem exists_sorts {depth : Nat} {entries : List (Literal × Node)} {sorted : List (String × Value)}
    (means : ofMembers depth [] entries = some sorted) (single : (Node.object entries true).keys.Nodup) :
    ∃ members, entries = named members ∧ Sorts depth members sorted := by
  obtain ⟨members,meanings,rfl,pairs,rfl⟩ := exists_pairs means
  rw [keys_named] at single
  exact ⟨members,rfl,pairs.sorts single⟩

end Value

end PinnedMap.Json
