import PinnedMap.Page.Layout
import Mathlib.Data.List.Basic

/-! What each operation of a page does to what can be looked up in it. All is said through the element
at a place in the store, so that nothing after this module opens the store itself. -/
namespace PinnedMap

theorem ElementId.eq_of_index {id other : ElementId} (same : id.index = other.index) : id = other := by
  cases id
  cases other
  exact congrArg ElementId.mk same

namespace Page

variable {page next : Page} {id other parent child : ElementId}

theorem element?_eq_none (page : Page) (id : ElementId) :
    page.element? id = none ↔ page.elements.size ≤ id.index := by
  simp [element?]

theorem isSome_element? (page : Page) (id : ElementId) :
    (page.element? id).isSome ↔ id.index < page.elements.size := by
  simp [element?]

@[simp] theorem size_update (page : Page) (id : ElementId) (change : Element → Element) :
    (page.update id change).elements.size = page.elements.size := by
  simp [update]

@[simp] theorem viewport_update (page : Page) (id : ElementId) (change : Element → Element) :
    (page.update id change).viewport = page.viewport := rfl

theorem element?_update (page : Page) (id other : ElementId) (change : Element → Element) :
    (page.update id change).element? other =
      if other = id then (page.element? other).map change else page.element? other := by
  simp only [update,element?,Array.getElem?_modify]
  by_cases same : other = id
  · subst same
    simp
  · have apart : ¬ id.index = other.index := fun equal => same (ElementId.eq_of_index equal.symm)
    simp [same,apart]

@[simp] theorem size_setViewport (page : Page) (viewport : Size) :
    (page.setViewport viewport).elements.size = page.elements.size := rfl

@[simp] theorem size_create (page : Page) (tag : String) :
    (page.create tag).2.elements.size = page.elements.size + 1 := by
  simp [create]

@[simp] theorem viewport_create (page : Page) (tag : String) :
    (page.create tag).2.viewport = page.viewport := rfl

theorem element?_create (page : Page) (tag : String) (id : ElementId) :
    (page.create tag).2.element? id =
      if id = (page.create tag).1 then some (Element.ofTag tag) else page.element? id := by
  simp only [create,element?,Array.getElem?_push]
  by_cases same : id = ⟨page.elements.size⟩
  · simp [same]
  · have apart : ¬ id.index = page.elements.size := fun equal => same (ElementId.eq_of_index equal)
    simp [same,apart]

theorem element?_ofViewport (viewport : Size) (id : ElementId) :
    (ofViewport viewport).element? id = if id = body then some (Element.ofTag "body") else none := by
  by_cases same : id = body
  · subst same
    rfl
  · have apart : id.index ≠ 0 := fun equal => same (ElementId.eq_of_index equal)
    have beyond : (ofViewport viewport).element? id = none := by
      rw [element?_eq_none]
      simp [ofViewport]
      omega
    simp [same,beyond]

theorem edit_eq_ok {change : Element → Element} :
    page.edit id change = .ok next ↔ (page.element? id).isSome ∧ next = page.update id change := by
  unfold edit find
  cases page.element? id with
  | none => simp [bind,Except.bind]
  | some element => simp [bind,Except.bind,pure,Except.pure,eq_comm]

def styled (page : Page) (id : ElementId) (table : StyleTable) : Page :=
  page.update id fun element =>
    { element with styles := table.foldl (fun styles (property,value) => styles.set property value.written) element.styles }

theorem setStyles_cons (page : Page) (id : ElementId) (entry : String × StyleValue) (table : StyleTable) :
    page.setStyles id (entry :: table) =
      (page.setStyle id entry.1 entry.2.written).bind (·.setStyles id table) := rfl

theorem update_update (page : Page) (id : ElementId) (first second : Element → Element) :
    (page.update id first).update id second = page.update id (second ∘ first) := by
  simp only [update,mk.injEq,and_true]
  apply Array.ext_getElem?
  intro place
  simp only [Array.getElem?_modify]
  split_ifs
  · simp [Option.map_map]
  · rfl

theorem update_id (page : Page) (id : ElementId) : (page.update id fun element => element) = page := by
  cases page with
  | mk elements viewport =>
    simp only [update,mk.injEq,and_true]
    apply Array.ext_getElem?
    intro place
    rw [Array.getElem?_modify]
    split_ifs <;> simp

theorem setStyles_of_known (known : (page.element? id).isSome) (table : StyleTable) :
    page.setStyles id table = .ok (page.styled id table) := by
  induction table generalizing page with
  | nil => exact congrArg Except.ok (update_id page id).symm
  | cons entry table ih =>
    have first : page.setStyle id entry.1 entry.2.written = .ok (page.update id fun element =>
        { element with styles := element.styles.set entry.1 entry.2.written }) := edit_eq_ok.mpr ⟨known,rfl⟩
    have still : ((page.update id fun element =>
        { element with styles := element.styles.set entry.1 entry.2.written }).element? id).isSome := by
      rw [element?_update,if_pos rfl,Option.isSome_map]
      exact known
    rw [setStyles_cons,first]
    refine (ih still).trans (congrArg Except.ok ?_)
    exact update_update page id _ _

theorem setStyles_eq_ok {entry : String × StyleValue} {table : StyleTable} :
    page.setStyles id (entry :: table) = .ok next ↔
      (page.element? id).isSome ∧ next = page.styled id (entry :: table) := by
  by_cases known : (page.element? id).isSome
  · rw [setStyles_of_known known]
    simp [known,eq_comm]
  · have refused : ¬ ∃ mid, page.setStyle id entry.1 entry.2.written = .ok mid :=
      fun ⟨_,done⟩ => known (edit_eq_ok.mp done).1
    rw [setStyles_cons]
    cases first : page.setStyle id entry.1 entry.2.written with
    | ok mid => exact absurd ⟨mid,first⟩ refused
    | error fault => simp [known,Except.bind]

theorem resolveImage_eq_ok {size : Size} :
    page.resolveImage id size = .ok next ↔
      (∃ element, page.element? id = some element ∧ element.isImage = true) ∧
        next = page.update id fun element => { element with natural := some size } := by
  unfold resolveImage find
  cases page.element? id with
  | none => simp [bind,Except.bind]
  | some element =>
    cases image : element.isImage with
    | false => simp [bind,Except.bind,throw,throwThe,MonadExceptOf.throw,image]
    | true =>
      simp only [bind,Except.bind,pure,Except.pure,image,Bool.not_true,Bool.false_eq_true,if_false,
        Except.ok.injEq,Option.some.injEq,exists_eq_left',true_and]
      exact eq_comm

theorem remove_eq_ok :
    page.remove parent child = .ok next ↔ page.parent child = some parent ∧ next = page.unlink child := by
  unfold remove find Page.parent
  cases page.element? child with
  | none => simp [bind,Except.bind]
  | some element =>
    by_cases own : element.parent = some parent
    · simp only [bind,Except.bind,pure,Except.pure,own,ne_eq,not_true_eq_false,if_false,Except.ok.injEq,
        Option.bind_some,true_and]
      exact eq_comm
    · simp [bind,Except.bind,throw,throwThe,MonadExceptOf.throw,own]

def hang (page : Page) (parent child : ElementId) : Page :=
  ((page.unlink child).update parent fun element => { element with children := element.children ++ [child] }).update
    child fun element => { element with parent := some parent }

theorem append_eq_ok :
    page.append parent child = .ok next ↔
      (page.element? parent).isSome ∧ (page.element? child).isSome ∧ page.reaches parent child = false ∧
        next = page.hang parent child := by
  unfold append find hang
  cases page.element? parent with
  | none => simp [bind,Except.bind]
  | some above =>
    cases page.element? child with
    | none => simp [bind,Except.bind]
    | some below =>
      cases reached : page.reaches parent child <;>
        simp [bind,Except.bind,pure,Except.pure,throw,throwThe,MonadExceptOf.throw,eq_comm]

theorem isSome_element?_update (page : Page) (id other : ElementId) (change : Element → Element) :
    ((page.update id change).element? other).isSome = (page.element? other).isSome := by
  rw [element?_update]
  split_ifs <;> simp

theorem parent_update {change : Element → Element}
    (same : ∀ element, (change element).parent = element.parent)
    (id other : ElementId) : (page.update id change).parent other = page.parent other := by
  unfold Page.parent
  rw [element?_update]
  cases page.element? other <;> split_ifs <;> simp [same]

theorem children_update {change : Element → Element}
    (same : ∀ element, (change element).children = element.children)
    (id other : ElementId) : (page.update id change).children other = page.children other := by
  unfold Page.children
  rw [element?_update]
  cases page.element? other <;> split_ifs <;> simp [same]

@[simp] theorem parent_styled (page : Page) (id other : ElementId) (table : StyleTable) :
    (page.styled id table).parent other = page.parent other :=
  parent_update (by intro element; rfl) id other

@[simp] theorem isSome_element?_styled (page : Page) (id other : ElementId) (table : StyleTable) :
    ((page.styled id table).element? other).isSome = (page.element? other).isSome :=
  isSome_element?_update page id other _

theorem natural_update {change : Element → Element}
    (same : ∀ element, (change element).natural = element.natural)
    (id other : ElementId) : (page.update id change).natural other = page.natural other := by
  unfold natural
  rw [element?_update]
  cases page.element? other <;> split_ifs <;> simp [same]

@[simp] theorem natural_styled (page : Page) (id other : ElementId) (table : StyleTable) :
    (page.styled id table).natural other = page.natural other :=
  natural_update (by intro element; rfl) id other

theorem element?_new (page : Page) (tag : String) : page.element? (page.create tag).1 = none := by
  rw [element?_eq_none]
  exact Nat.le_refl _

theorem ne_new_of_known (known : (page.element? id).isSome) (tag : String) : id ≠ (page.create tag).1 := by
  rintro rfl
  rw [element?_new] at known
  cases known

theorem element?_create_of_known (known : (page.element? id).isSome) (tag : String) :
    (page.create tag).2.element? id = page.element? id := by
  rw [element?_create,if_neg (ne_new_of_known known tag)]

theorem isSome_element?_create (known : (page.element? id).isSome) (tag : String) :
    ((page.create tag).2.element? id).isSome := by
  rwa [element?_create_of_known known]

theorem parent_create (page : Page) (tag : String) (id : ElementId) :
    (page.create tag).2.parent id = page.parent id := by
  unfold Page.parent
  rw [element?_create]
  split_ifs with new
  · rw [new,element?_new]
    rfl
  · rfl

theorem children_create (page : Page) (tag : String) (id : ElementId) :
    (page.create tag).2.children id = page.children id := by
  unfold Page.children
  rw [element?_create]
  split_ifs with new
  · rw [new,element?_new]
    rfl
  · rfl

theorem natural_create (page : Page) (tag : String) (id : ElementId) :
    (page.create tag).2.natural id = page.natural id := by
  unfold natural
  rw [element?_create]
  split_ifs with new
  · rw [new,element?_new]
    rfl
  · rfl

theorem parent_eq_some : page.parent child = some parent ↔
    ∃ element, page.element? child = some element ∧ element.parent = some parent := by
  unfold Page.parent
  cases page.element? child <;> simp

@[simp] theorem size_unlink (page : Page) (child : ElementId) :
    (page.unlink child).elements.size = page.elements.size := by
  unfold unlink
  cases page.parent child <;> simp

@[simp] theorem viewport_unlink (page : Page) (child : ElementId) :
    (page.unlink child).viewport = page.viewport := by
  unfold unlink
  cases page.parent child <;> simp

@[simp] theorem size_hang (page : Page) (parent child : ElementId) :
    (page.hang parent child).elements.size = page.elements.size := by
  simp [hang]

@[simp] theorem viewport_hang (page : Page) (parent child : ElementId) :
    (page.hang parent child).viewport = page.viewport := by
  simp [hang]

theorem element?_unlink (page : Page) (child id : ElementId) :
    (page.unlink child).element? id = (page.element? id).map fun element =>
      { element with
        parent := if id = child then none else element.parent
        children := if page.parent child = some id then element.children.filter (· != child) else element.children } := by
  cases above : page.parent child with
  | none =>
    have same : page.unlink child = page := by simp [unlink,above]
    rw [same]
    cases found : page.element? id with
    | none => rfl
    | some element =>
      by_cases own : id = child
      · subst own
        have orphan : element.parent = none := by simpa [Page.parent,found] using above
        cases element
        simp_all
      · simp [own]
  | some parent =>
    simp only [unlink,above,element?_update]
    cases page.element? id with
    | none => split_ifs <;> rfl
    | some element => split_ifs <;> simp_all

/-- Hanging touches the parent of the child and the children of its old and new parent, and nothing else. -/
theorem element?_hang (page : Page) (parent child id : ElementId) :
    (page.hang parent child).element? id = (page.element? id).map fun element =>
      let kept :=
        if page.parent child = some id then element.children.filter (· != child) else element.children
      { element with
        parent := if id = child then some parent else element.parent
        children := if id = parent then kept ++ [child] else kept } := by
  simp only [hang,element?_update,element?_unlink]
  cases page.element? id with
  | none => split_ifs <;> rfl
  | some element => split_ifs <;> simp_all

theorem isSome_element?_hang (page : Page) (parent child id : ElementId) :
    ((page.hang parent child).element? id).isSome = (page.element? id).isSome := by
  rw [element?_hang,Option.isSome_map]

theorem natural_hang (page : Page) (parent child id : ElementId) :
    (page.hang parent child).natural id = page.natural id := by
  unfold natural
  rw [element?_hang]
  cases page.element? id <;> rfl

theorem parent_unlink (page : Page) (child id : ElementId) :
    (page.unlink child).parent id = if id = child then none else page.parent id := by
  unfold Page.parent
  rw [element?_unlink]
  cases page.element? id with
  | none => split_ifs <;> rfl
  | some element => split_ifs <;> simp_all

theorem children_unlink (page : Page) (child id : ElementId) :
    (page.unlink child).children id =
      if page.parent child = some id then (page.children id).filter (· != child) else page.children id := by
  have opened : (page.unlink child).children id = (((page.unlink child).element? id).map (·.children)).getD [] := rfl
  rw [opened,element?_unlink]
  unfold Page.children
  cases page.element? id with
  | none => split_ifs <;> rfl
  | some element => split_ifs <;> simp_all

theorem parent_hang (known : (page.element? child).isSome) (id : ElementId) :
    (page.hang parent child).parent id = if id = child then some parent else page.parent id := by
  unfold Page.parent
  rw [element?_hang]
  cases found : page.element? id with
  | none =>
    have apart : id ≠ child := by
      rintro rfl
      simp [found] at known
    simp [apart]
  | some element => split_ifs <;> simp_all

theorem children_hang (known : (page.element? parent).isSome) (id : ElementId) :
    (page.hang parent child).children id =
      (if page.parent child = some id then (page.children id).filter (· != child) else page.children id) ++
        if id = parent then [child] else [] := by
  have opened : (page.hang parent child).children id =
      (((page.hang parent child).element? id).map (·.children)).getD [] := rfl
  rw [opened,element?_hang]
  unfold Page.children
  cases found : page.element? id with
  | none =>
    have apart : id ≠ parent := by
      rintro rfl
      simp [found] at known
    simp [apart]
  | some element => split_ifs <;> simp_all

end Page
end PinnedMap
