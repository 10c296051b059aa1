import PinnedMap.Proofs.Page.Lookup

/-! What layout does not read: the class and the source of an element, and its `left` and `top`. Pages that
differ in nothing else give every element the same size, so an element can be put somewhere without any
other thing moving. -/
namespace PinnedMap

private theorem lookup_cons_of_ne {entries : List (String × String)} {key value query : String}
    (apart : query ≠ key) :
    ((key,value) :: entries).lookup query = entries.lookup query := by
  have differs : (query == key) = false := by simpa using apart
  rw [List.lookup_cons,differs]

private theorem lookup_map_set (entries : List (String × String)) (property text query : String) :
    (entries.map fun entry => if entry.1 == property then (property,text) else entry).lookup query =
      if query = property then (if entries.any (·.1 == property) then some text else none)
      else entries.lookup query := by
  induction entries with
  | nil => simp
  | cons entry entries ih =>
    obtain ⟨key,value⟩ := entry
    rw [List.map_cons]
    by_cases set : key = property
    · subst set
      rw [if_pos (beq_self_eq_true key)]
      by_cases asked : query = key
      · subst asked
        simp
      · rw [lookup_cons_of_ne asked,lookup_cons_of_ne asked,ih,if_neg asked,if_neg asked]
    · have differs : (key == property) = false := by simpa using set
      rw [differs,if_neg (by simp)]
      by_cases found : query = key
      · subst found
        simp [set]
      · rw [lookup_cons_of_ne found,lookup_cons_of_ne found,ih,List.any_cons,differs,Bool.false_or]

private theorem lookup_eq_none_of_any {entries : List (String × String)} {property : String}
    (absent : entries.any (·.1 == property) = false) : entries.lookup property = none := by
  induction entries with
  | nil => rfl
  | cons entry entries ih =>
    obtain ⟨key,value⟩ := entry
    simp only [List.any_cons,Bool.or_eq_false_iff,beq_eq_false_iff_ne] at absent
    rw [lookup_cons_of_ne absent.1.symm,ih absent.2]

theorem Styles.get?_set (styles : Styles) (property text query : String) :
    (styles.set property text).get? query = if query = property then some text else styles.get? query := by
  unfold Styles.set Styles.get?
  cases present : styles.entries.any (·.1 == property) with
  | true =>
    rw [if_pos rfl,lookup_map_set,present]
    simp
  | false =>
    rw [if_neg (by simp),List.lookup_append]
    by_cases asked : query = property
    · subst asked
      simp [lookup_eq_none_of_any present]
    · rw [lookup_cons_of_ne asked,if_neg asked]
      simp

structure Element.LooksAlike (element other : Element) : Prop where
  tag : element.tag = other.tag
  parent : element.parent = other.parent
  children : element.children = other.children
  natural : element.natural = other.natural
  style : ∀ property, property ≠ "left" → property ≠ "top" →
    element.styles.get? property = other.styles.get? property

theorem Element.LooksAlike.refl (element : Element) : element.LooksAlike element :=
  ⟨rfl,rfl,rfl,rfl,fun _ _ _ => rfl⟩

theorem Element.LooksAlike.trans {element middle other : Element} (first : element.LooksAlike middle)
    (second : middle.LooksAlike other) : element.LooksAlike other :=
  ⟨first.tag.trans second.tag,first.parent.trans second.parent,first.children.trans second.children,
    first.natural.trans second.natural,
    fun property notLeft notTop => (first.style property notLeft notTop).trans (second.style property notLeft notTop)⟩

namespace Page

variable {page next other : Page} {id : ElementId}

structure LooksAlike (page other : Page) : Prop where
  viewport : page.viewport = other.viewport
  size : page.elements.size = other.elements.size
  element : ∀ id, Option.Rel Element.LooksAlike (page.element? id) (other.element? id)

theorem LooksAlike.cases (alike : page.LooksAlike other) (id : ElementId) :
    page.element? id = none ∧ other.element? id = none ∨
      ∃ element element', page.element? id = some element ∧ other.element? id = some element' ∧
        element.LooksAlike element' := by
  have related := alike.element id
  cases first : page.element? id <;> cases second : other.element? id <;> rw [first,second] at related
  · exact .inl ⟨rfl,rfl⟩
  · cases related
  · cases related
  · cases related with
    | some same => exact .inr ⟨_,_,rfl,rfl,same⟩

theorem LooksAlike.refl (page : Page) : page.LooksAlike page := by
  refine ⟨rfl,rfl,fun id => ?_⟩
  cases page.element? id with
  | none => exact .none
  | some element => exact .some (.refl element)

theorem LooksAlike.trans {middle : Page} (first : page.LooksAlike middle) (second : middle.LooksAlike other) :
    page.LooksAlike other := by
  refine ⟨first.viewport.trans second.viewport,first.size.trans second.size,fun id => ?_⟩
  rcases first.cases id with ⟨absent,absent'⟩ | ⟨element,element',found,found',same⟩
  · rcases second.cases id with ⟨_,absent''⟩ | ⟨_,_,found,_⟩
    · rw [absent,absent'']
      exact .none
    · simp [absent'] at found
  · rcases second.cases id with ⟨absent,_⟩ | ⟨middle,element'',present,found'',same'⟩
    · simp [absent] at found'
    · obtain rfl := Option.some.inj (found'.symm.trans present)
      rw [found,found'']
      exact .some (same.trans same')

theorem LooksAlike.update (page : Page) (id : ElementId) {change : Element → Element}
    (alike : ∀ element : Element, element.LooksAlike (change element)) :
    page.LooksAlike (page.update id change) := by
  refine ⟨rfl,by simp,fun other => ?_⟩
  rw [element?_update]
  cases page.element? other with
  | none => split_ifs <;> exact .none
  | some element =>
    split_ifs
    · exact .some (alike element)
    · exact .some (.refl element)

theorem LooksAlike.setStyle (page : Page) (id : ElementId) (property text : String)
    (placing : property = "left" ∨ property = "top") :
    page.LooksAlike (page.update id fun element => { element with styles := element.styles.set property text }) := by
  refine .update page id fun element => ⟨rfl,rfl,rfl,rfl,fun query notLeft notTop => ?_⟩
  have apart : query ≠ property := by
    rintro rfl
    exact placing.elim notLeft notTop
  simp [Styles.get?_set,apart]

section Agreement
variable (alike : page.LooksAlike other)
include alike

theorem LooksAlike.parent_eq (id : ElementId) : page.parent id = other.parent id := by
  unfold Page.parent
  rcases alike.cases id with ⟨absent,absent'⟩ | ⟨element,element',found,found',same⟩
  · rw [absent,absent']
  · rw [found,found']
    exact same.parent

theorem LooksAlike.natural_eq (id : ElementId) : page.natural id = other.natural id := by
  unfold Page.natural
  rcases alike.cases id with ⟨absent,absent'⟩ | ⟨element,element',found,found',same⟩
  · rw [absent,absent']
  · rw [found,found']
    exact same.natural

theorem LooksAlike.isSome_eq (id : ElementId) : (page.element? id).isSome = (other.element? id).isSome := by
  rcases alike.cases id with ⟨absent,absent'⟩ | ⟨element,element',found,found',_⟩
  · rw [absent,absent']
  · rw [found,found']
    rfl

theorem LooksAlike.reachesWithin_eq (goal : ElementId) (steps : Nat) (start : ElementId) :
    page.reachesWithin goal steps start = other.reachesWithin goal steps start := by
  induction steps generalizing start with
  | zero => rfl
  | succ steps ih =>
    simp only [reachesWithin,alike.parent_eq start]
    cases other.parent start <;> simp [ih]

theorem LooksAlike.walkLimit_eq : page.walkLimit = other.walkLimit := by
  rw [walkLimit,walkLimit,alike.size]

theorem LooksAlike.isConnected_eq (id : ElementId) : page.isConnected id = other.isConnected id := by
  unfold isConnected reaches
  rw [alike.walkLimit_eq,alike.reachesWithin_eq]

end Agreement

theorem lengthOf_eq {element alike : Element} (same : element.LooksAlike alike) {property : String}
    (notLeft : property ≠ "left") (notTop : property ≠ "top") :
    lengthOf element property = lengthOf alike property := by
  rw [lengthOf,lengthOf,same.style property notLeft notTop]

theorem isOutOfFlow_eq {element alike : Element} (same : element.LooksAlike alike) :
    element.isOutOfFlow = alike.isOutOfFlow := by
  rw [Element.isOutOfFlow,Element.isOutOfFlow,same.style "position" (by simp) (by simp)]

theorem isImage_eq {element alike : Element} (same : element.LooksAlike alike) :
    element.isImage = alike.isImage := by
  rw [Element.isImage,Element.isImage,same.tag]

theorem mapM_filterMap_congr {α β γ : Type} {items : List α} {pick pick' : α → Option β}
    {read read' : β → Option γ} (same : ∀ item ∈ items, (pick item).map read = (pick' item).map read') :
    (items.filterMap pick).mapM read = (items.filterMap pick').mapM read' := by
  induction items with
  | nil => rfl
  | cons item items ih =>
    have head := same item (List.mem_cons_self ..)
    have ih := ih fun other member => same other (List.mem_cons_of_mem item member)
    rw [List.filterMap_cons,List.filterMap_cons]
    cases picked : pick item <;> cases picked' : pick' item <;> simp only [picked,picked',Option.map_none,
      Option.map_some,reduceCtorEq,Option.some.injEq] at head
    · exact ih
    · rw [List.mapM_cons,List.mapM_cons,head,ih]

private theorem inFlow_mapM_eq (alike : page.LooksAlike other) {element element' : Element}
    (same : element.LooksAlike element') {read read' : ElementId × Element → Option Float}
    (each : ∀ (id : ElementId) (child child' : Element), child.LooksAlike child' → read (id,child) = read' (id,child')) :
    (page.inFlow element).mapM read = (other.inFlow element').mapM read' := by
  unfold inFlow
  rw [same.children]
  apply mapM_filterMap_congr
  intro id _
  rcases alike.cases id with ⟨absent,absent'⟩ | ⟨child,child',found,found',same⟩
  · rw [absent,absent']
    rfl
  · rw [found,found']
    dsimp only
    rw [isOutOfFlow_eq same]
    split_ifs
    · rfl
    · simp [each id child child' same]

theorem LooksAlike.contentWidthWithin_eq (alike : page.LooksAlike other) (steps : Nat) (id : ElementId) :
    page.contentWidthWithin steps id = other.contentWidthWithin steps id := by
  induction steps generalizing id with
  | zero => rfl
  | succ steps ih =>
    unfold contentWidthWithin
    rcases alike.cases id with ⟨absent,absent'⟩ | ⟨element,element',found,found',same⟩
    · rw [absent,absent']
    · rw [found,found']
      dsimp only
      rw [isImage_eq same,same.natural]
      congr 2
      apply inFlow_mapM_eq alike same
      intro id child child' alike
      have width : lengthOf child "width" = lengthOf child' "width" := lengthOf_eq alike (by simp) (by simp)
      dsimp only
      rw [width,ih]

theorem LooksAlike.contentWidth_eq (alike : page.LooksAlike other) (id : ElementId) :
    page.contentWidth id = other.contentWidth id := by
  rw [contentWidth,contentWidth,alike.walkLimit_eq,alike.contentWidthWithin_eq]

theorem LooksAlike.wantedWidth_eq (alike : page.LooksAlike other) {element element' : Element}
    (same : element.LooksAlike element') (available : Float) :
    page.wantedWidth id element available = other.wantedWidth id element' available := by
  unfold wantedWidth
  rw [lengthOf_eq same (by simp) (by simp),alike.contentWidth_eq,isImage_eq same,isOutOfFlow_eq same]

theorem limitedWidth_eq {element element' : Element} (same : element.LooksAlike element')
    (available wanted : Float) :
    limitedWidth element available wanted = limitedWidth element' available wanted := by
  unfold limitedWidth
  rw [lengthOf_eq same (by simp) (by simp)]

theorem LooksAlike.widthWithin_eq (alike : page.LooksAlike other) (steps : Nat) (id : ElementId) :
    page.widthWithin steps id = other.widthWithin steps id := by
  induction steps generalizing id with
  | zero => rfl
  | succ steps ih =>
    unfold widthWithin
    rw [alike.viewport]
    rcases alike.cases id with ⟨absent,absent'⟩ | ⟨element,element',found,found',same⟩
    · rw [absent,absent']
    · rw [found,found']
      dsimp only
      rw [same.parent]
      simp only [ih,alike.wantedWidth_eq same,limitedWidth_eq same]

theorem LooksAlike.width_eq (alike : page.LooksAlike other) (id : ElementId) :
    page.width id = other.width id := by
  rw [width,width,alike.walkLimit_eq,alike.widthWithin_eq]

theorem LooksAlike.definiteParentHeight_eq (alike : page.LooksAlike other) {element element' : Element}
    (same : element.LooksAlike element') :
    page.definiteParentHeight element = other.definiteParentHeight element' := by
  unfold definiteParentHeight
  rw [same.parent]
  cases element'.parent with
  | none => rfl
  | some parent =>
    simp only [Option.bind_some]
    rcases alike.cases parent with ⟨absent,absent'⟩ | ⟨above,above',found,found',same⟩
    · rw [absent,absent']
    · have height : lengthOf above "height" = lengthOf above' "height" := lengthOf_eq same (by simp) (by simp)
      rw [found,found',Option.map_some,Option.map_some,height]

theorem LooksAlike.fixedHeight_eq (alike : page.LooksAlike other) {element element' : Element}
    (same : element.LooksAlike element') : page.fixedHeight element = other.fixedHeight element' := by
  unfold fixedHeight
  rw [lengthOf_eq same (by simp) (by simp),alike.definiteParentHeight_eq same]

theorem LooksAlike.imageHeight_eq (alike : page.LooksAlike other) {element element' : Element}
    (same : element.LooksAlike element') : page.imageHeight id element = other.imageHeight id element' := by
  unfold imageHeight
  rw [same.natural,alike.width_eq]

theorem LooksAlike.heightWithin_eq (alike : page.LooksAlike other) (steps : Nat) (id : ElementId) :
    page.heightWithin steps id = other.heightWithin steps id := by
  induction steps generalizing id with
  | zero => rfl
  | succ steps ih =>
    unfold heightWithin
    rw [alike.viewport]
    rcases alike.cases id with ⟨absent,absent'⟩ | ⟨element,element',found,found',same⟩
    · rw [absent,absent']
    · rw [found,found']
      dsimp only
      rw [alike.fixedHeight_eq same,isImage_eq same,alike.imageHeight_eq same]
      split
      · rfl
      · split
        · rfl
        · split
          · rfl
          · congr 1
            exact inFlow_mapM_eq alike same fun id _ _ _ => ih id

theorem LooksAlike.height_eq (alike : page.LooksAlike other) (id : ElementId) :
    page.height id = other.height id := by
  rw [height,height,alike.walkLimit_eq,alike.heightWithin_eq]

theorem LooksAlike.renderedSize_eq (alike : page.LooksAlike other) (id : ElementId) :
    page.renderedSize id = other.renderedSize id := by
  rw [renderedSize,renderedSize,alike.isConnected_eq,alike.width_eq,alike.height_eq]

end Page
end PinnedMap
