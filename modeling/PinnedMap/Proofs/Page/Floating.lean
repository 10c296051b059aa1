import PinnedMap.Proofs.Page.Width

/-! What floats takes no room. A part of a page that hangs in the rest by floating elements alone can be changed in
any way, as long as they go on to float: no width outside of it depends on what is in it. -/
namespace PinnedMap

/-- Elements that differ, for layout, in hidden children alone. -/
structure Element.LooksAlikeBut (hidden : ElementId → Bool) (element other : Element) : Prop where
  look : ({ element with children := [] } : Element).LooksAlike { other with children := [] }
  children : element.children.filter (!hidden ·) = other.children.filter (!hidden ·)

section Elements
variable {hidden : ElementId → Bool} {element other : Element} (same : element.LooksAlikeBut hidden other)
include same

theorem Element.LooksAlikeBut.isImage_eq : element.isImage = other.isImage := by
  have tags := Page.isImage_eq same.look
  exact tags

theorem Element.LooksAlikeBut.isOutOfFlow_eq : element.isOutOfFlow = other.isOutOfFlow := by
  have positions := Page.isOutOfFlow_eq same.look
  exact positions

theorem Element.LooksAlikeBut.lengthOf_eq {property : String} (notLeft : property ≠ "left")
    (notTop : property ≠ "top") : Page.lengthOf element property = Page.lengthOf other property := by
  have lengths := Page.lengthOf_eq same.look notLeft notTop
  exact lengths

end Elements

namespace Page

variable {page other : Page} {hidden : ElementId → Bool} {id child parent : ElementId}

/-- Whatever hangs below a hidden element is hidden, and what hangs hidden from an element that is not floats. -/
structure Hides (hidden : ElementId → Bool) (page : Page) : Prop where
  below : ∀ child parent, page.HangsFrom child parent → hidden parent = true → hidden child = true
  floats : ∀ child parent element, page.HangsFrom child parent → hidden parent = false → hidden child = true →
    page.element? child = some element → element.isOutOfFlow = true

/-- Pages that look alike wherever they are not hidden. -/
structure LooksAlikeBut (hidden : ElementId → Bool) (page other : Page) : Prop where
  hides : page.Hides hidden
  hides' : other.Hides hidden
  viewport : page.viewport = other.viewport
  element : ∀ id, hidden id = false → Option.Rel (Element.LooksAlikeBut hidden) (page.element? id) (other.element? id)

theorem LooksAlikeBut.cases (alike : page.LooksAlikeBut hidden other) (visible : hidden id = false) :
    page.element? id = none ∧ other.element? id = none ∨
      ∃ element element', page.element? id = some element ∧ other.element? id = some element' ∧
        element.LooksAlikeBut hidden element' := by
  have related := alike.element id visible
  cases first : page.element? id <;> cases second : other.element? id <;> rw [first,second] at related
  · exact .inl ⟨rfl,rfl⟩
  · cases related
  · cases related
  · cases related with
    | some same => exact .inr ⟨_,_,rfl,rfl,same⟩

theorem Hides.visible_of_hangsFrom (hides : page.Hides hidden) (hangs : page.HangsFrom child parent)
    (visible : hidden child = false) : hidden parent = false := by
  by_contra within
  have inner := hides.below child parent hangs (by simpa using within)
  rw [visible] at inner
  cases inner

theorem LooksAlikeBut.parent_eq (alike : page.LooksAlikeBut hidden other) (visible : hidden id = false) :
    page.parent id = other.parent id := by
  unfold Page.parent
  rcases alike.cases visible with ⟨absent,absent'⟩ | ⟨element,element',found,found',same⟩
  · rw [absent,absent']
  · rw [found,found']
    exact same.look.parent

theorem LooksAlikeBut.reachesWithin_eq (alike : page.LooksAlikeBut hidden other) (goal : ElementId) (steps : Nat)
    (visible : hidden id = false) : page.reachesWithin goal steps id = other.reachesWithin goal steps id := by
  induction steps generalizing id with
  | zero => rfl
  | succ steps ih =>
    rw [reachesWithin,reachesWithin,← alike.parent_eq visible]
    cases above : page.parent id with
    | none => rfl
    | some next =>
      dsimp only
      rw [ih (alike.hides.visible_of_hangsFrom above visible)]

theorem LooksAlikeBut.isConnected_eq (alike : page.LooksAlikeBut hidden other) (forest : page.IsForest)
    (forest' : other.IsForest) (visible : hidden id = false) : page.isConnected id = other.isConnected id := by
  have walks := alike.reachesWithin_eq body (max page.walkLimit other.walkLimit) visible
  rw [forest.reachesWithin_eq (Nat.le_max_left ..),forest'.reachesWithin_eq (Nat.le_max_right ..)] at walks
  exact Option.some.inj walks

theorem Hides.inFlow_eq (hides : page.Hides hidden) (forest : page.IsForest) (visible : hidden id = false)
    {element : Element} (found : page.element? id = some element) :
    page.inFlow element = page.inFlow { element with children := element.children.filter (!hidden ·) } := by
  unfold inFlow
  dsimp only
  rw [List.filterMap_filter]
  refine List.filterMap_congr fun child listed => ?_
  cases inside : hidden child with
  | false => rfl
  | true =>
    cases present : page.element? child with
    | none => rfl
    | some below =>
      have hangs : page.HangsFrom child id := by
        rw [HangsFrom,forest.parent_iff,children_of_element? found]
        exact listed
      dsimp only
      rw [hides.floats child id below hangs visible inside present]
      rfl

theorem LooksAlikeBut.inFlow_mapM_eq (alike : page.LooksAlikeBut hidden other) (forest : page.IsForest)
    (forest' : other.IsForest) (visible : hidden id = false) {element element' : Element}
    (found : page.element? id = some element) (found' : other.element? id = some element')
    (same : element.LooksAlikeBut hidden element') {read read' : ElementId × Element → Option Float}
    (each : ∀ (id : ElementId) (child child' : Element), hidden id = false → child.LooksAlikeBut hidden child' →
      read (id,child) = read' (id,child')) :
    (page.inFlow element).mapM read = (other.inFlow element').mapM read' := by
  rw [alike.hides.inFlow_eq forest visible found,alike.hides'.inFlow_eq forest' visible found',same.children]
  apply mapM_filterMap_congr
  intro id member
  have visible : hidden id = false := by simpa using (List.mem_filter.mp member).2
  rcases alike.cases visible with ⟨absent,absent'⟩ | ⟨child,child',present,present',same⟩
  · rw [absent,absent']
    rfl
  · have flow := same.isOutOfFlow_eq
    rw [present,present']
    dsimp only
    rw [flow]
    split_ifs
    · rfl
    · simp [each id child child' visible same]

theorem LooksAlikeBut.contentWidthWithin_eq (alike : page.LooksAlikeBut hidden other) (forest : page.IsForest)
    (forest' : other.IsForest) (steps : Nat) (visible : hidden id = false) :
    page.contentWidthWithin steps id = other.contentWidthWithin steps id := by
  induction steps generalizing id with
  | zero => rfl
  | succ steps ih =>
    rcases alike.cases visible with ⟨absent,absent'⟩ | ⟨element,element',found,found',same⟩
    · rw [contentWidthWithin,contentWidthWithin,absent,absent']
    · have tag := same.isImage_eq
      have natural : element.natural = element'.natural := same.look.natural
      cases image : element.isImage with
      | true =>
        rw [contentWidthWithin_image found image,contentWidthWithin_image found' (tag ▸ image),natural]
      | false =>
        rw [contentWidthWithin_succ found image,contentWidthWithin_succ found' (tag ▸ image)]
        refine congrArg (Option.map greatest) (alike.inFlow_mapM_eq forest forest' visible found found' same ?_)
        intro id child child' visible same
        have width : lengthOf child "width" = lengthOf child' "width" := same.lengthOf_eq (by simp) (by simp)
        unfold contentShare
        dsimp only
        rw [width,ih visible]

section Forests
variable (alike : page.LooksAlikeBut hidden other) (forest : page.IsForest) (forest' : other.IsForest)
include alike forest forest'

theorem LooksAlikeBut.contentWidth_eq (visible : hidden id = false) : page.contentWidth id = other.contentWidth id := by
  have walks := alike.contentWidthWithin_eq forest forest' (max page.walkLimit other.walkLimit) visible
  rw [forest.contentWidthWithin_eq (Nat.le_max_left ..),forest'.contentWidthWithin_eq (Nat.le_max_right ..)] at walks
  exact Option.some.inj walks

theorem LooksAlikeBut.wantedWidth_eq (visible : hidden id = false) {element element' : Element}
    (same : element.LooksAlikeBut hidden element') (available : Float) :
    page.wantedWidth id element available = other.wantedWidth id element' available := by
  have width : lengthOf element "width" = lengthOf element' "width" := same.lengthOf_eq (by simp) (by simp)
  have tag := same.isImage_eq
  have flow := same.isOutOfFlow_eq
  unfold wantedWidth
  rw [width,alike.contentWidth_eq forest forest' visible,tag,flow]

theorem LooksAlikeBut.widthWithin_eq (steps : Nat) (visible : hidden id = false) :
    page.widthWithin steps id = other.widthWithin steps id := by
  induction steps generalizing id with
  | zero => rfl
  | succ steps ih =>
    unfold widthWithin
    rw [alike.viewport]
    rcases alike.cases visible with ⟨absent,absent'⟩ | ⟨element,element',found,found',same⟩
    · rw [absent,absent']
    · have above : element.parent = element'.parent := same.look.parent
      have limited (available wanted : Float) :
          limitedWidth element available wanted = limitedWidth element' available wanted :=
        limitedWidth_eq same.look available wanted
      rw [found,found']
      dsimp only
      simp only [limited,alike.wantedWidth_eq forest forest' visible same,← above]
      cases hangs : element.parent with
      | none => rfl
      | some parent =>
        dsimp only
        rw [ih (alike.hides.visible_of_hangsFrom (parent_eq_some.mpr ⟨element,found,hangs⟩) visible)]

theorem LooksAlikeBut.width_eq (visible : hidden id = false) : page.width id = other.width id := by
  have walks := alike.widthWithin_eq forest forest' (max page.walkLimit other.walkLimit) visible
  rw [forest.widthWithin_eq (Nat.le_max_left ..),forest'.widthWithin_eq (Nat.le_max_right ..)] at walks
  exact Option.some.inj walks

omit forest forest' in
theorem LooksAlikeBut.fixedHeight_eq (visible : hidden id = false) {element element' : Element}
    (found : page.element? id = some element) (same : element.LooksAlikeBut hidden element') :
    page.fixedHeight element = other.fixedHeight element' := by
  have height : lengthOf element "height" = lengthOf element' "height" := same.lengthOf_eq (by simp) (by simp)
  have above : element.parent = element'.parent := same.look.parent
  have definite : page.definiteParentHeight element = other.definiteParentHeight element' := by
    unfold definiteParentHeight
    rw [← above]
    cases hangs : element.parent with
    | none => rfl
    | some parent =>
      have outer := alike.hides.visible_of_hangsFrom (parent_eq_some.mpr ⟨element,found,hangs⟩) visible
      simp only [Option.bind_some]
      rcases alike.cases outer with ⟨absent,absent'⟩ | ⟨outer,outer',present,present',same⟩
      · rw [absent,absent']
      · have height : lengthOf outer "height" = lengthOf outer' "height" := same.lengthOf_eq (by simp) (by simp)
        rw [present,present',Option.map_some,Option.map_some,height]
  unfold fixedHeight
  rw [height,definite]

theorem LooksAlikeBut.renderedSize_eq (visible : hidden id = false) {element : Element}
    (found : page.element? id = some element) (image : element.isImage = true) :
    page.renderedSize id = other.renderedSize id := by
  have width := alike.width_eq forest forest' visible
  obtain ⟨element',found',same⟩ : ∃ element', other.element? id = some element' ∧
      element.LooksAlikeBut hidden element' := by
    rcases alike.cases visible with ⟨absent,_⟩ | ⟨own,element',present,found',same⟩
    · cases found.symm.trans absent
    · obtain rfl := Option.some.inj (found.symm.trans present)
      exact ⟨element',found',same⟩
  have tag := same.isImage_eq
  have natural : element.natural = element'.natural := same.look.natural
  have height : page.height id = other.height id := by
    unfold Page.height walkLimit
    rw [heightWithin,heightWithin,alike.viewport,found,found']
    dsimp only
    rw [alike.fixedHeight_eq visible found same,← tag,if_pos image,if_pos image]
    unfold imageHeight
    rw [natural,width]
  rw [renderedSize,renderedSize,alike.isConnected_eq forest forest' visible,width,height]

end Forests

end Page
end PinnedMap
