import PinnedMap.Proofs.Page.Walk
import Mathlib.Data.List.Nodup
import Mathlib.Data.List.Perm.Subperm
import Mathlib.Logic.Relation

/-! The elements of a page form a forest, whatever is done to the page. Parents and lists of children say
the same, no element stands in two places, and no element hangs below itself. The last of these rests on
the walk up that an append makes: on a forest it always comes to an end within its limit. -/
namespace PinnedMap.Page

variable {page next : Page} {id other goal start parent child : ElementId}

def HangsFrom (page : Page) (child parent : ElementId) : Prop := page.parent child = some parent

structure IsForest (page : Page) : Prop where
  parent_known : ∀ child parent, page.parent child = some parent → (page.element? parent).isSome
  child_known : ∀ parent, ∀ child ∈ page.children parent, (page.element? child).isSome
  parent_iff : ∀ child parent, page.parent child = some parent ↔ child ∈ page.children parent
  nodup : (page.elements.toList.flatMap (·.children)).Nodup
  acyclic : ∀ id, ¬ Relation.TransGen page.HangsFrom id id

private theorem children_of_getElem {place : Nat} (inside : place < page.elements.toList.length) :
    page.children ⟨place⟩ = page.elements.toList[place].children := by
  have bound : place < page.elements.size := by simpa using inside
  simp [children,element?,bound]

theorem nodup_flatMap_children (each : ∀ parent, (page.children parent).Nodup)
    (listed : ∀ child parent, page.parent child = some parent ↔ child ∈ page.children parent) :
    (page.elements.toList.flatMap (·.children)).Nodup := by
  refine List.nodup_flatMap.mpr ⟨?_,?_⟩
  -- An element of two lists would have two parents.
  · intro element member
    obtain ⟨place,inside,rfl⟩ := List.mem_iff_getElem.mp member
    rw [← children_of_getElem inside]
    exact each _
  · rw [List.pairwise_iff_getElem]
    intro i j hi hj before child first second
    have left : child ∈ page.children ⟨i⟩ := (children_of_getElem hi).symm ▸ first
    have right : child ∈ page.children ⟨j⟩ := (children_of_getElem hj).symm ▸ second
    have same := ((listed _ _).mpr left).symm.trans ((listed _ _).mpr right)
    simp only [Option.some.injEq,ElementId.mk.injEq] at same
    omega

theorem IsForest.children_nodup (forest : page.IsForest) (parent : ElementId) :
    (page.children parent).Nodup := by
  unfold children
  cases found : page.element? parent with
  | none => simp
  | some element =>
    have member : element ∈ page.elements.toList := by
      rw [element?] at found
      obtain ⟨bound,rfl⟩ := Array.getElem?_eq_some_iff.mp found
      exact Array.getElem_mem_toList bound
    exact (List.nodup_flatMap.mp forest.nodup).1 element member

private theorem reachesWithin_iff {steps : Nat} {answer : Bool}
    (found : page.reachesWithin goal steps start = some answer) :
    answer = true ↔ Relation.ReflTransGen page.HangsFrom start goal := by
  induction steps generalizing start with
  | zero => simp [reachesWithin] at found
  | succ steps ih =>
    rw [reachesWithin] at found
    by_cases arrived : start = goal
    · subst arrived
      simp only [if_true,Option.some.injEq] at found
      simp [← found,Relation.ReflTransGen.refl]
    · rw [if_neg arrived] at found
      cases above : page.parent start with
      | none =>
        simp only [above,Option.some.injEq] at found
        subst found
        simp only [Bool.false_eq_true,false_iff]
        intro climbed
        rcases climbed.cases_head with equal | ⟨next,up,_⟩
        · exact arrived equal
        · simp [HangsFrom,above] at up
      | some next =>
        simp only [above] at found
        rw [ih found]
        constructor
        · exact fun climbed => climbed.head above
        · intro climbed
          rcases climbed.cases_head with equal | ⟨other,up,rest⟩
          · exact absurd equal arrived
          · have same : next = other := Option.some.inj (above.symm.trans up)
            exact same ▸ rest

private theorem isWalk_reachesWithin (page : Page) (goal : ElementId) :
    IsWalk page.HangsFrom (page.reachesWithin goal) := by
  refine isWalk_of_step (fun _ => rfl) fun start => ?_
  by_cases arrived : start = goal
  · exact .inl ⟨true,fun steps => by rw [reachesWithin,if_pos arrived]⟩
  · cases above : page.parent start with
    | none => exact .inl ⟨false,fun steps => by rw [reachesWithin,if_neg arrived,above]⟩
    | some parent =>
      refine .inr ⟨parent,fun answer => answer,above,fun steps => ?_⟩
      rw [reachesWithin,if_neg arrived,above,Option.map_id']

private theorem nodup_of_isChain (acyclic : ∀ id, ¬ Relation.TransGen page.HangsFrom id id) {path : List ElementId}
    (chain : List.IsChain page.HangsFrom path) : path.Nodup := by
  have climbs : List.IsChain (Relation.TransGen page.HangsFrom) path :=
    chain.imp fun _ _ up => .single up
  apply (List.isChain_iff_pairwise.mp climbs).imp
  intro low high above equal
  exact acyclic low (equal ▸ above)

private theorem exists_hangsFrom_of_isChain {path : List ElementId}
    (chain : List.IsChain page.HangsFrom (start :: path)) :
    ∀ id ∈ path, ∃ below, page.HangsFrom below id := by
  induction path generalizing start with
  | nil => simp
  | cons next path ih =>
    cases chain with
    | cons_cons up rest =>
      intro id member
      rcases List.mem_cons.mp member with rfl | inside
      · exact ⟨start,up⟩
      · exact ih rest id inside

private theorem length_le_of_known {path : List ElementId} (distinct : path.Nodup)
    (known : ∀ id ∈ path, (page.element? id).isSome) : path.length ≤ page.elements.size := by
  have places : (path.map ElementId.index).Nodup :=
    distinct.map fun _ _ same => ElementId.eq_of_index same
  have inside : path.map ElementId.index ⊆ List.range page.elements.size := by
    intro place member
    obtain ⟨id,listed,rfl⟩ := List.mem_map.mp member
    exact List.mem_range.mpr ((isSome_element? page id).mp (known id listed))
  simpa using (List.subperm_of_subset places inside).length_le

theorem IsForest.length_le_of_isChain (forest : page.IsForest) {path : List ElementId}
    (chain : List.IsChain page.HangsFrom (start :: path)) : path.length ≤ page.elements.size := by
  have distinct : path.Nodup := (List.nodup_cons.mp (nodup_of_isChain forest.acyclic chain)).2
  refine length_le_of_known distinct fun id member => ?_
  obtain ⟨below,up⟩ := exists_hangsFrom_of_isChain chain id member
  exact forest.parent_known below id up

theorem IsForest.length_le_of_isChain_down (forest : page.IsForest) {path : List ElementId}
    (chain : List.IsChain (fun parent child => page.HangsFrom child parent) (start :: path)) :
    path.length ≤ page.elements.size := by
  have climb : List.IsChain page.HangsFrom (start :: path).reverse := List.isChain_reverse.mpr chain
  obtain ⟨last,rest,same⟩ := List.exists_cons_of_ne_nil (List.reverse_ne_nil_iff.mpr (List.cons_ne_nil start path))
  have length : path.length = rest.length := by simpa using congrArg List.length same
  rw [same] at climb
  exact length ▸ forest.length_le_of_isChain climb

section Walks
variable {α : Type} {walk : Nat → ElementId → Option α}

theorem IsForest.ends_up (forest : page.IsForest) (isWalk : IsWalk page.HangsFrom walk) (id : ElementId) :
    ∃ found, ∀ steps, page.walkLimit ≤ steps → walk steps id = some found :=
  isWalk.ends_within fun _ chain => Nat.lt_succ_of_le (forest.length_le_of_isChain chain)

theorem IsForest.ends_down (forest : page.IsForest)
    (isWalk : IsWalk (fun parent child => page.HangsFrom child parent) walk) (id : ElementId) :
    ∃ found, ∀ steps, page.walkLimit ≤ steps → walk steps id = some found :=
  isWalk.ends_within fun _ chain => Nat.lt_succ_of_le (forest.length_le_of_isChain_down chain)

end Walks

theorem IsForest.reachesWithin_eq (forest : page.IsForest) {steps : Nat} (enough : page.walkLimit ≤ steps)
    (goal start : ElementId) : page.reachesWithin goal steps start = some (page.reaches start goal) := by
  obtain ⟨answer,found⟩ := forest.ends_up (page.isWalk_reachesWithin goal) start
  rw [reaches,found steps enough,found _ le_rfl,Option.getD_some]

theorem IsForest.reaches_iff (forest : page.IsForest) :
    page.reaches start goal = true ↔ Relation.ReflTransGen page.HangsFrom start goal :=
  reachesWithin_iff (forest.reachesWithin_eq le_rfl goal start)

theorem IsForest.of_same_tree (forest : page.IsForest) (parents : ∀ id, next.parent id = page.parent id)
    (lists : ∀ id, next.children id = page.children id)
    (known : ∀ id, (page.element? id).isSome → (next.element? id).isSome) : next.IsForest := by
  have steps : next.HangsFrom = page.HangsFrom := by
    funext child parent
    simp [HangsFrom,parents]
  have listed : ∀ child parent, next.parent child = some parent ↔ child ∈ next.children parent := by
    intro child parent
    rw [parents,lists]
    exact forest.parent_iff child parent
  refine ⟨?_,?_,listed,?_,?_⟩
  · intro child parent above
    exact known parent (forest.parent_known child parent (parents child ▸ above))
  · intro parent child member
    exact known child (forest.child_known parent child (lists parent ▸ member))
  · refine nodup_flatMap_children (fun parent => ?_) listed
    rw [lists]
    exact forest.children_nodup parent
  · rw [steps]
    exact forest.acyclic

theorem IsForest.update (forest : page.IsForest) (id : ElementId) {change : Element → Element}
    (parents : ∀ element, (change element).parent = element.parent)
    (lists : ∀ element, (change element).children = element.children) : (page.update id change).IsForest := by
  refine forest.of_same_tree (parent_update parents id) (children_update lists id) fun other known => ?_
  rwa [isSome_element?_update]

theorem IsForest.create (forest : page.IsForest) (tag : String) : (page.create tag).2.IsForest :=
  forest.of_same_tree (parent_create page tag) (children_create page tag) fun _ known => isSome_element?_create known tag

theorem IsForest.not_mem_children (forest : page.IsForest) (apart : page.parent child ≠ some parent) :
    child ∉ page.children parent :=
  fun member => apart ((forest.parent_iff child parent).mpr member)

theorem IsForest.mem_children_unlink (forest : page.IsForest) :
    other ∈ (page.unlink child).children parent ↔ other ∈ page.children parent ∧ other ≠ child := by
  rw [children_unlink]
  split_ifs with above
  · simp
  · constructor
    · intro member
      refine ⟨member,?_⟩
      rintro rfl
      exact forest.not_mem_children above member
    · exact fun member => member.1

theorem IsForest.unlink (forest : page.IsForest) (child : ElementId) : (page.unlink child).IsForest := by
  have known (id : ElementId) : ((page.unlink child).element? id).isSome = (page.element? id).isSome := by
    rw [element?_unlink,Option.isSome_map]
  have listed : ∀ other parent, (page.unlink child).parent other = some parent ↔
      other ∈ (page.unlink child).children parent := by
    intro other parent
    rw [forest.mem_children_unlink,← forest.parent_iff,parent_unlink]
    split_ifs with same
    · simp [same]
    · simp [same]
  have steps : ∀ low high, (page.unlink child).HangsFrom low high → page.HangsFrom low high := by
    intro low high up
    rw [HangsFrom,parent_unlink] at up
    split_ifs at up
    exact up
  refine ⟨?_,?_,listed,?_,?_⟩
  · intro low high up
    rw [known]
    exact forest.parent_known low high (steps low high up)
  · intro parent other member
    rw [known]
    exact forest.child_known parent other (forest.mem_children_unlink.mp member).1
  · refine nodup_flatMap_children (fun parent => ?_) listed
    rw [children_unlink]
    split_ifs
    · exact (forest.children_nodup parent).filter _
    · exact forest.children_nodup parent
  · intro id cycle
    exact forest.acyclic id (Relation.TransGen.mono steps id id cycle)

theorem IsForest.mem_children_hang (forest : page.IsForest) (known : (page.element? parent).isSome)
    {above : ElementId} :
    other ∈ (page.hang parent child).children above ↔
      other ∈ page.children above ∧ other ≠ child ∨ above = parent ∧ other = child := by
  rw [children_hang known,List.mem_append,← children_unlink,forest.mem_children_unlink]
  apply or_congr_right
  split_ifs with same <;> simp [same]

private theorem reflTransGen_of_steps {old new : ElementId → ElementId → Prop}
    (steps : ∀ low high, new low high → low ≠ child → old low high)
    (climbed : Relation.ReflTransGen new start child) : Relation.ReflTransGen old start child := by
  induction climbed using Relation.ReflTransGen.head_induction_on with
  | refl => exact .refl
  | @head low high up _ ih =>
    by_cases arrived : low = child
    · exact arrived ▸ .refl
    · exact ih.head (steps low high up arrived)

theorem reflTransGen_or_child {old new : ElementId → ElementId → Prop}
    (steps : ∀ low high, new low high → low ≠ child → old low high)
    (climbed : Relation.ReflTransGen new start goal) :
    Relation.ReflTransGen old start goal ∨ Relation.ReflTransGen old start child := by
  induction climbed using Relation.ReflTransGen.head_induction_on with
  | refl => exact .inl .refl
  | @head low high up _ ih =>
    by_cases arrived : low = child
    · exact .inr (arrived ▸ .refl)
    · have step := steps low high up arrived
      exact ih.imp (·.head step) (·.head step)

/-- A cycle avoids an element, or leads from the element back to it. -/
theorem transGen_or_cycle {old new : ElementId → ElementId → Prop}
    (steps : ∀ low high, new low high → low ≠ child → old low high)
    (climbed : Relation.TransGen new start goal) :
    Relation.TransGen old start goal ∨
      Relation.ReflTransGen new start child ∧ Relation.TransGen new child goal := by
  induction climbed using Relation.TransGen.head_induction_on with
  | @single low up =>
    by_cases here : low = child
    · exact .inr ⟨here ▸ .refl,here ▸ .single up⟩
    · exact .inl (.single (steps _ _ up here))
  | @head low high up rest ih =>
    by_cases here : low = child
    · exact .inr ⟨here ▸ .refl,here ▸ rest.head up⟩
    · rcases ih with direct | ⟨first,second⟩
      · exact .inl (direct.head (steps _ _ up here))
      · exact .inr ⟨first.head up,second⟩

theorem IsForest.acyclic_hang (forest : page.IsForest) (known : (page.element? child).isSome)
    (free : ¬ Relation.ReflTransGen page.HangsFrom parent child) (id : ElementId) :
    ¬ Relation.TransGen (page.hang parent child).HangsFrom id id := by
  have steps :
      ∀ low high, (page.hang parent child).HangsFrom low high → low ≠ child → page.HangsFrom low high := by
    intro low high up apart
    rw [HangsFrom,parent_hang known,if_neg apart] at up
    exact up
  intro cycle
  -- Only the step from the child is new, so a new cycle would lead from its new parent back to it.
  rcases transGen_or_cycle steps cycle with old | ⟨first,second⟩
  · exact forest.acyclic id old
  · have loop : Relation.TransGen (page.hang parent child).HangsFrom child child :=
      Relation.TransGen.trans_left second first
    obtain ⟨above,up,rest⟩ := Relation.TransGen.head'_iff.mp loop
    rw [HangsFrom,parent_hang known,if_pos rfl] at up
    obtain rfl := Option.some.inj up
    exact free (reflTransGen_of_steps steps rest)

theorem IsForest.hang (forest : page.IsForest) (parentKnown : (page.element? parent).isSome)
    (childKnown : (page.element? child).isSome) (free : ¬ Relation.ReflTransGen page.HangsFrom parent child) :
    (page.hang parent child).IsForest := by
  have listed : ∀ other above, (page.hang parent child).parent other = some above ↔
      other ∈ (page.hang parent child).children above := by
    intro other above
    rw [forest.mem_children_hang parentKnown,← forest.parent_iff,parent_hang childKnown]
    split_ifs with same
    · simp [same,eq_comm]
    · simp [same]
  refine ⟨?_,?_,listed,?_,forest.acyclic_hang childKnown free⟩
  · intro low high up
    rw [isSome_element?_hang]
    rw [parent_hang childKnown] at up
    split_ifs at up
    · exact Option.some.inj up ▸ parentKnown
    · exact forest.parent_known low high up
  · intro above other member
    rw [isSome_element?_hang]
    rcases (forest.mem_children_hang parentKnown).mp member with ⟨old,_⟩ | ⟨_,rfl⟩
    · exact forest.child_known above other old
    · exact childKnown
  · refine nodup_flatMap_children (fun above => ?_) listed
    rw [children_hang parentKnown,← children_unlink]
    have before := (forest.unlink child).children_nodup above
    split_ifs with here
    · refine List.nodup_append.mpr ⟨before,List.nodup_singleton _,?_⟩
      intro kept member last singleton
      obtain rfl := List.mem_singleton.mp singleton
      exact (forest.mem_children_unlink.mp member).2
    · simpa using before

end PinnedMap.Page
