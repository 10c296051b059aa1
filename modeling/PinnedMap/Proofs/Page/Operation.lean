import PinnedMap.Proofs.Page.Forest
import PinnedMap.Proofs.Page.Look

/-! Everything that can be done to a page, in any order and with any elements, known or not. Elements never
get lost, styles change only where they are set, and the page never stops being a forest. -/
namespace PinnedMap.Page

inductive Operation where
  | create (tag : String)
  | setStyle (id : ElementId) (property text : String)
  | setClass (id : ElementId) (name : String)
  | setSource (id : ElementId) (url : String)
  | append (parent child : ElementId)
  | remove (parent child : ElementId)
  | resolveImage (id : ElementId) (size : Size)
  | setViewport (viewport : Size)
deriving Repr, DecidableEq

def Operation.on (page : Page) : Operation → Except PageFault Page
  | .create tag => .ok (page.create tag).2
  | .setStyle id property text => page.setStyle id property text
  | .setClass id name => page.setClass id name
  | .setSource id url => page.setSource id url
  | .append parent child => page.append parent child
  | .remove parent child => page.remove parent child
  | .resolveImage id size => page.resolveImage id size
  | .setViewport viewport => .ok (page.setViewport viewport)

/-- An operation that is refused leaves the page as it is. -/
def perform (page : Page) (operation : Operation) : Page :=
  match operation.on page with
  | .ok next => next
  | .error _ => page

def performAll (page : Page) (operations : List Operation) : Page := operations.foldl perform page

variable {page next : Page}

theorem Operation.size_le (operation : Operation) (done : operation.on page = .ok next) :
    page.elements.size ≤ next.elements.size := by
  cases operation with
  | create tag =>
    obtain rfl := Except.ok.inj done
    simp
  | setStyle id property text =>
    obtain ⟨_,rfl⟩ := edit_eq_ok.mp done
    simp
  | setClass id name =>
    obtain ⟨_,rfl⟩ := edit_eq_ok.mp done
    simp
  | setSource id url =>
    obtain ⟨_,rfl⟩ := edit_eq_ok.mp done
    simp
  | append parent child =>
    obtain ⟨_,_,_,rfl⟩ := append_eq_ok.mp done
    simp
  | remove parent child =>
    obtain ⟨_,rfl⟩ := remove_eq_ok.mp done
    simp
  | resolveImage id size =>
    obtain ⟨_,rfl⟩ := resolveImage_eq_ok.mp done
    simp
  | setViewport viewport =>
    obtain rfl := Except.ok.inj done
    simp

theorem isSome_element?_perform {id : ElementId} (known : (page.element? id).isSome) (operation : Operation) :
    ((page.perform operation).element? id).isSome := by
  unfold perform
  cases done : operation.on page with
  | error fault => exact known
  | ok next =>
    have grown := operation.size_le done
    rw [isSome_element?] at known ⊢
    dsimp only
    omega

private theorem style_update {id other : ElementId} {property : String} {change : Element → Element}
    (same : other = id → ∀ element, (change element).styles.get? property = element.styles.get? property) :
    (page.update id change).style other property = page.style other property := by
  unfold style
  rw [element?_update]
  split_ifs with own
  · cases page.element? other with
    | none => rfl
    | some element => exact same own element
  · rfl

theorem Operation.style_eq {id : ElementId} {property : String} (operation : Operation)
    (known : (page.element? id).isSome) (done : operation.on page = .ok next)
    (other : ∀ text, operation ≠ .setStyle id property text) :
    next.style id property = page.style id property := by
  cases operation with
  | create tag =>
    obtain rfl := Except.ok.inj done
    rw [style,element?_create_of_known known]
    rfl
  | setStyle target name text =>
    obtain ⟨_,rfl⟩ := edit_eq_ok.mp done
    apply style_update
    intro own element
    have apart : property ≠ name := by
      rintro rfl
      exact other text (by rw [own])
    rw [Styles.get?_set,if_neg apart]
  | setClass target name =>
    obtain ⟨_,rfl⟩ := edit_eq_ok.mp done
    exact style_update fun _ _ => rfl
  | setSource target url =>
    obtain ⟨_,rfl⟩ := edit_eq_ok.mp done
    exact style_update fun _ _ => rfl
  | append parent child =>
    obtain ⟨_,_,_,rfl⟩ := append_eq_ok.mp done
    rw [style,element?_hang]
    cases found : page.element? id <;> simp [style,found]
  | remove parent child =>
    obtain ⟨_,rfl⟩ := remove_eq_ok.mp done
    rw [style,element?_unlink]
    cases found : page.element? id <;> simp [style,found]
  | resolveImage target size =>
    obtain ⟨_,rfl⟩ := resolveImage_eq_ok.mp done
    exact style_update fun _ _ => rfl
  | setViewport viewport =>
    obtain rfl := Except.ok.inj done
    rfl

theorem style_perform {id : ElementId} {property : String} (known : (page.element? id).isSome)
    (operation : Operation) (other : ∀ text, operation ≠ .setStyle id property text) :
    (page.perform operation).style id property = page.style id property := by
  unfold perform
  cases done : operation.on page with
  | error fault => rfl
  | ok next => exact operation.style_eq known done other

theorem isForest_ofViewport (viewport : Size) : (ofViewport viewport).IsForest := by
  have orphan (id : ElementId) : (ofViewport viewport).parent id = none := by
    rw [parent,element?_ofViewport]
    split_ifs <;> rfl
  have childless (id : ElementId) : (ofViewport viewport).children id = [] := by
    rw [children,element?_ofViewport]
    split_ifs <;> rfl
  have listed : ∀ child parent, (ofViewport viewport).parent child = some parent ↔
      child ∈ (ofViewport viewport).children parent := by
    intro child parent
    simp [orphan,childless]
  refine ⟨?_,?_,listed,?_,?_⟩
  · intro child parent above
    simp [orphan] at above
  · intro parent child member
    simp [childless] at member
  · exact nodup_flatMap_children (fun parent => by simp [childless]) listed
  · intro id cycle
    obtain ⟨above,up,_⟩ := Relation.TransGen.head'_iff.mp cycle
    simp [HangsFrom,orphan] at up

/-- The step: no operation makes two parents disagree with their lists, repeats a child or closes a loop. -/
theorem IsForest.on (forest : page.IsForest) (operation : Operation) (done : operation.on page = .ok next) :
    next.IsForest := by
  cases operation with
  | create tag =>
    obtain rfl := Except.ok.inj done
    exact forest.create tag
  | setStyle id property text =>
    obtain ⟨_,rfl⟩ := edit_eq_ok.mp done
    exact forest.update id (fun _ => rfl) fun _ => rfl
  | setClass id name =>
    obtain ⟨_,rfl⟩ := edit_eq_ok.mp done
    exact forest.update id (fun _ => rfl) fun _ => rfl
  | setSource id url =>
    obtain ⟨_,rfl⟩ := edit_eq_ok.mp done
    exact forest.update id (fun _ => rfl) fun _ => rfl
  | append parent child =>
    obtain ⟨parentKnown,childKnown,unreached,rfl⟩ := append_eq_ok.mp done
    have free : ¬ Relation.ReflTransGen page.HangsFrom parent child := by
      rw [← forest.reaches_iff,unreached]
      simp
    exact forest.hang parentKnown childKnown free
  | remove parent child =>
    obtain ⟨_,rfl⟩ := remove_eq_ok.mp done
    exact forest.unlink child
  | resolveImage id size =>
    obtain ⟨_,rfl⟩ := resolveImage_eq_ok.mp done
    exact forest.update id (fun _ => rfl) fun _ => rfl
  | setViewport viewport =>
    obtain rfl := Except.ok.inj done
    exact forest.of_same_tree (fun _ => rfl) (fun _ => rfl) fun _ known => known

theorem IsForest.perform (forest : page.IsForest) (operation : Operation) :
    (page.perform operation).IsForest := by
  unfold Page.perform
  cases done : operation.on page with
  | ok next => exact forest.on operation done
  | error fault => exact forest

theorem IsForest.performAll (forest : page.IsForest) (operations : List Operation) :
    (page.performAll operations).IsForest := by
  induction operations generalizing page with
  | nil => exact forest
  | cons operation operations ih => exact ih (forest.perform operation)

/-- Whatever is done to a new page, it is a forest afterwards. -/
theorem isForest_performAll (viewport : Size) (operations : List Operation) :
    ((ofViewport viewport).performAll operations).IsForest :=
  (isForest_ofViewport viewport).performAll operations

/-- An element that is moved twice stands in one place, and does not hang below its own child. -/
example :
    let page := (ofViewport Size.zero).performAll
      [.create "div",.create "p",.append body ⟨1⟩,.append body ⟨2⟩,.append ⟨1⟩ ⟨2⟩,.append ⟨2⟩ ⟨1⟩]
    (page.children body,page.children ⟨1⟩,page.parent ⟨1⟩) = ([⟨1⟩],[⟨2⟩],some body) := by
  decide

end PinnedMap.Page
