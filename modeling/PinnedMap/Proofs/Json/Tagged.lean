import PinnedMap.Json.Tagged
import PinnedMap.Proofs.Json.Record

/-! A sum restores its values wherever the tag stands: the members before the tag are put aside, and with those after
it they make the record of the alternative, in whatever order. -/
namespace PinnedMap.Json

variable {α β : Type}

namespace Tagged

def parts (sum : Tagged α) (value : α) : List (List Char) :=
  let written := sum.variants.findSome? fun variant =>
    (variant.members? value).map fun members => member sum.tag (quote variant.name) :: members
  written.getD []

def IsAside (sum : Tagged α) (entry : Literal × Node) : Prop :=
  (∃ name, entry.1.text? = .ok name ∧ name ≠ sum.tag) ∧ setAside entry.2 = .ok ()

private theorem gather_aside {sum : Tagged α} {members : List (Literal × Node)}
    (others : ∀ entry ∈ members, sum.IsAside entry)
    (variant : Option (Variant α)) (aside rest : List (Literal × Node)) :
    sum.gather variant aside (members ++ rest) = sum.gather variant (members.reverse ++ aside) rest := by
  induction members generalizing aside with
  | nil => rfl
  | cons entry members ih =>
    obtain ⟨⟨name,isText,notTag⟩,whole⟩ := others entry (by simp)
    rw [List.cons_append,gather,isText,whole]
    change (if name = sum.tag then _ else sum.gather variant (entry :: aside) (members ++ rest)) = _
    rw [if_neg notTag,ih fun other member => others other (by simp [member])]
    simp

private theorem gather_tag {sum : Tagged α} {variant : Variant α} {node : Node}
    (selects : sum.select node = .ok variant) (aside rest : List (Literal × Node)) :
    sum.gather none aside ((Literal.ofString sum.tag,node) :: rest) = sum.gather (some variant) aside rest := by
  rw [gather,Codec.text?_ofString,selects]
  change (if sum.tag = sum.tag then sum.gather (some variant) aside rest else _) = _
  rw [if_pos rfl]

theorem read_of_tag {sum : Tagged α} {variant : Variant α} {node : Node} (selects : sum.select node = .ok variant)
    {front back : List (Literal × Node)} (others : ∀ entry ∈ front ++ back, sum.IsAside entry) :
    sum.read (.object (front ++ (Literal.ofString sum.tag,node) :: back) true) =
      variant.read (.object (front ++ back) true) := by
  have before := gather_aside (fun entry member => others entry (List.mem_append_left back member)) none []
    ((Literal.ofString sum.tag,node) :: back)
  have after := gather_aside (fun entry member => others entry (List.mem_append_right front member)) (some variant)
    (front.reverse ++ []) []
  rw [List.append_nil back,gather] at after
  rw [read,before,gather_tag selects,after]
  simp [bind,Except.bind]

theorem isAside_of_means (sum : Tagged α) {depth : Nat} (shallow : depth < depthLimit) {members : List (String × Node)}
    {meanings : List (String × Value)} (means : List.Forall₂ (Value.Means depth) members meanings)
    (apart : sum.tag ∉ members.map Prod.fst) : ∀ entry ∈ named members, sum.IsAside entry := by
  induction means with
  | nil => nofun
  | @cons member meaning members meanings first _ ih =>
    rw [List.map_cons,List.mem_cons,not_or] at apart
    intro entry listed
    rcases List.mem_cons.mp listed with rfl | later
    · refine ⟨⟨member.1,Codec.text?_ofString _,fun same => apart.1 same.symm⟩,?_⟩
      change (if (Value.ofNode (depthLimit - 1) member.2).isSome then _ else _) = _
      rw [first.2 (depthLimit - 1) (by omega)]
      rfl
    · exact ih apart.2 entry later

end Tagged

/-- What an alternative is written as, and the trees of its members, which in any order read as the value. -/
structure Variant.Shows (variant : Variant α) (depth : Nat) (value : α) (written : List (List Char))
    (members : List (String × Node)) : Prop where
  writes : variant.members? value = some written
  reads : List.Forall₂ IsMember written (named members)
  means : ∃ meanings, List.Forall₂ (Value.Means depth) members meanings
  read : ∀ others, (named members).Perm others → variant.read (.object others true) = .ok value

def Variant.Restores (variant : Variant α) (depth : Nat) (tag : String) (value : α) : Prop :=
  ∃ written members, variant.Shows depth value written members ∧ tag ∉ members.map Prod.fst

theorem Fields.Restores.variant {fields : Fields β} (apart : fields.isApart = true) {tag : String}
    (noTag : tag ∉ fields.names) {depth : Nat} {name title : String} {build : β → α} {parts? : α → Option β} {value : α}
    {parts : β} (hasParts : parts? value = some parts) (built : build parts = value)
    (restores : fields.Restores depth parts parts) :
    (fields.variant name title build parts?).Restores depth tag value := by
  obtain ⟨members,meanings,written,means,lists,_⟩ := restores.members
  refine ⟨_,members,⟨congrArg (Option.map fields.writeMembers) hasParts,written,⟨meanings,means⟩,fun others perm => ?_⟩,
    fun listed => noTag (lists.sublist.subset listed)⟩
  change (fields.read _ .aside _).map build = _
  rw [lists.read apart perm]
  exact congrArg Except.ok built

/-- Members of which one is the tag read as the value of the alternative that the tag names. -/
theorem Tagged.ofChars_brace {sum : Tagged α} {variant : Variant α}
    (listed : sum.variants.find? (·.name == variant.name) = some variant) {depth : Nat} (shallow : depth < depthLimit)
    {value : α} (restores : variant.Restores depth sum.tag value)
    (chosen : sum.parts value = member sum.tag (quote variant.name) :: (variant.members? value).getD [])
    {texts : List (List Char)} (perm : texts.Perm (sum.parts value)) :
    sum.codec.ofChars (brace texts) = .ok value := by
  obtain ⟨written,members,shows,noTag⟩ := restores
  obtain ⟨meanings,means⟩ := shows.means
  rw [chosen,shows.writes] at perm
  have tag : IsMember (member sum.tag (quote variant.name))
      (Literal.ofString sum.tag,.text (Literal.ofString variant.name)) := ⟨sum.tag,_,rfl,rfl,reads_quote variant.name⟩
  have selects : sum.select (.text (Literal.ofString variant.name)) = .ok variant := by
    rw [select,Codec.text?_ofString]
    simp only [bind,Except.bind,listed]
    rfl
  obtain ⟨entries,reads,order⟩ := List.perm_comp_forall₂ perm (.cons tag shows.reads)
  obtain ⟨front,back,rfl⟩ := List.append_of_mem (order.symm.subset (List.mem_cons_self ..))
  have others : (front ++ back).Perm (named members) := (List.perm_middle.symm.trans order).cons_inv
  have aside := isAside_of_means sum shallow means noTag
  rw [Codec.ofChars_of_reads _ (reads_brace reads)]
  exact (read_of_tag selects fun entry member => aside entry (others.subset member)).trans (shows.read _ others.symm)

end PinnedMap.Json
