import PinnedMap.Proofs.ImageMap.Editing
import PinnedMap.Proofs.Page.Operation

/-! Operations as they are carried out, change by change on one store of elements, where each change may find that its
element is unknown. On a forest none of them stops halfway: what is refused is refused before the first change. -/
namespace PinnedMap.Page

variable {page next : Page} {id parent child : ElementId}

def look (id : ElementId) : Editing Element := do
  match (← get).find id with
  | .ok element => return element
  | .error fault => throw (.page fault)

def change (id : ElementId) (becomes : Element → Element) : Editing Unit := Editing.step (·.edit id becomes)

def detach (child : ElementId) : Editing Unit := do
  match (← look child).parent with
  | none => return
  | some above =>
    change above fun element => { element with children := element.children.filter (· != child) }
    change child fun element => { element with parent := none }

def hangInPlace (parent child : ElementId) : Editing Unit := do
  detach child
  change parent fun element => { element with children := element.children ++ [child] }
  change child fun element => { element with parent := some parent }

def appendInPlace (parent child : ElementId) : Editing Unit := do
  let _ ← look parent
  let _ ← look child
  if (← get).reaches parent child then throw (.page (.ownSubtree child parent))
  hangInPlace parent child

def removeInPlace (parent child : ElementId) : Editing Unit := do
  let element ← look child
  if element.parent ≠ some parent then throw (.page (.notAChild child parent))
  detach child

def resolveInPlace (id : ElementId) (size : Size) : Editing Unit := do
  let element ← look id
  if !element.isImage then throw (.page (.notAnImage id element.tag))
  change id fun element => { element with natural := some size }

def setStylesInPlace (id : ElementId) (table : StyleTable) : Editing Unit :=
  table.forM fun (property,value) => Editing.step (·.setStyle id property value.written)

def Operation.inPlace : Operation → Editing Unit
  | .append parent child => appendInPlace parent child
  | .remove parent child => removeInPlace parent child
  | .resolveImage id size => resolveInPlace id size
  | operation => Editing.step operation.on

private theorem look_bind (id : ElementId) {α : Type} (rest : Element → Editing α) (page : Page) :
    (look id >>= rest) page = match page.element? id with
      | some element => rest element page
      | none => (.error (.page (.unknownElement id)),page) := by
  rw [Editing.bind_apply,look,Editing.get_bind_apply,find]
  cases page.element? id <;> rfl

private theorem change_of_known (known : (page.element? id).isSome) (becomes : Element → Element) :
    change id becomes page = (.ok (),page.update id becomes) :=
  Editing.step_eq_ok.mpr (edit_eq_ok.mpr ⟨known,rfl⟩)

theorem IsForest.detach_apply (forest : page.IsForest) (known : (page.element? child).isSome) :
    detach child page = (.ok (),page.unlink child) := by
  obtain ⟨element,found⟩ := Option.isSome_iff_exists.mp known
  have above : page.parent child = element.parent := by rw [Page.parent,found,Option.bind_some]
  rw [detach,look_bind,found]
  dsimp only
  rw [Page.unlink,above]
  cases up : element.parent with
  | none => rfl
  | some old =>
    have oldKnown : (page.element? old).isSome := forest.parent_known child old (above.trans up)
    dsimp only
    rw [Editing.bind_apply,change_of_known oldKnown]
    exact change_of_known (by rwa [isSome_element?_update]) _

/-- None of the changes fails: the old parent is known, and no change makes an element unknown. -/
theorem IsForest.hangInPlace_apply (forest : page.IsForest) (parentKnown : (page.element? parent).isSome)
    (childKnown : (page.element? child).isSome) :
    hangInPlace parent child page = (.ok (),page.hang parent child) := by
  have parentKnown' : ((page.unlink child).element? parent).isSome := by rwa [element?_unlink,Option.isSome_map]
  have childKnown' : ((page.unlink child).element? child).isSome := by rwa [element?_unlink,Option.isSome_map]
  rw [hangInPlace,Editing.bind_apply,forest.detach_apply childKnown]
  dsimp only
  rw [Editing.bind_apply,change_of_known parentKnown']
  exact change_of_known (by rwa [isSome_element?_update]) _

theorem IsForest.appendInPlace_apply (forest : page.IsForest) (parent child : ElementId) :
    appendInPlace parent child page = Editing.step (·.append parent child) page := by
  rw [appendInPlace,look_bind]
  cases parentFound : page.element? parent with
  | none =>
    rw [Editing.step,Page.append,find,parentFound]
    rfl
  | some above =>
    have parentKnown : (page.element? parent).isSome := by rw [parentFound,Option.isSome_some]
    dsimp only
    rw [look_bind]
    cases childFound : page.element? child with
    | none =>
      rw [Editing.step,Page.append,find,find,parentFound,childFound]
      rfl
    | some below =>
      have childKnown : (page.element? child).isSome := by rw [childFound,Option.isSome_some]
      dsimp only
      rw [Editing.get_bind_apply]
      cases reached : page.reaches parent child with
      | true =>
        rw [Editing.step,Page.append,find,find,parentFound,childFound,reached]
        rfl
      | false =>
        rw [if_neg Bool.false_ne_true,forest.hangInPlace_apply parentKnown childKnown]
        exact (Editing.step_eq_ok.mpr (append_eq_ok.mpr ⟨parentKnown,childKnown,reached,rfl⟩)).symm

theorem IsForest.removeInPlace_apply (forest : page.IsForest) (parent child : ElementId) :
    removeInPlace parent child page = Editing.step (·.remove parent child) page := by
  rw [removeInPlace,look_bind]
  cases found : page.element? child with
  | none =>
    rw [Editing.step,Page.remove,find,found]
    rfl
  | some element =>
    have childKnown : (page.element? child).isSome := by rw [found,Option.isSome_some]
    dsimp only
    by_cases own : element.parent = some parent
    · have above : page.parent child = some parent := parent_eq_some.mpr ⟨element,found,own⟩
      rw [if_neg (not_not.mpr own),forest.detach_apply childKnown]
      exact (Editing.step_eq_ok.mpr (remove_eq_ok.mpr ⟨above,rfl⟩)).symm
    · have refused : page.remove parent child = .error (.notAChild child parent) := by
        rw [Page.remove,find,found]
        exact if_pos own
      rw [if_pos own,Editing.step,refused]
      rfl

private theorem resolveInPlace_apply (id : ElementId) (size : Size) (page : Page) :
    resolveInPlace id size page = Editing.step (·.resolveImage id size) page := by
  rw [resolveInPlace,look_bind,Editing.step,resolveImage,find]
  cases found : page.element? id with
  | none => rfl
  | some element =>
    dsimp only [bind,Except.bind]
    cases image : element.isImage with
    | false => rfl
    | true => exact change_of_known (by rw [found,Option.isSome_some]) _

private theorem setStylesInPlace_of_done {table : StyleTable} (done : page.setStyles id table = .ok next) :
    setStylesInPlace id table page = (.ok (),next) := by
  induction table generalizing page with
  | nil =>
    obtain rfl := Except.ok.inj done
    rfl
  | cons entry table ih =>
    rw [setStyles_cons] at done
    cases first : page.setStyle id entry.1 entry.2.written with
    | error fault =>
      rw [first] at done
      cases done
    | ok middle =>
      rw [first] at done
      exact Editing.forM_cons_eq_ok.mpr ⟨middle,Editing.step_eq_ok.mpr first,ih done⟩

private theorem setStylesInPlace_apply (id : ElementId) (table : StyleTable) (page : Page) :
    setStylesInPlace id table page = Editing.step (·.setStyles id table) page := by
  cases found : page.element? id with
  | some element =>
    have done := setStyles_of_known (by rw [found,Option.isSome_some]) table
    rw [Editing.step_eq_ok.mpr done,setStylesInPlace_of_done done]
  | none =>
    cases table with
    | nil => rfl
    | cons entry table =>
      have refused : page.setStyle id entry.1 entry.2.written = .error (.unknownElement id) := by
        rw [setStyle,edit,find,found]
        rfl
      have first : Editing.step (·.setStyle id entry.1 entry.2.written) page =
          (.error (.page (.unknownElement id)),page) := by rw [Editing.step,refused]
      change (Editing.step (·.setStyle id entry.1 entry.2.written) >>= fun _ => setStylesInPlace id table) page = _
      rw [Editing.bind_apply,first,Editing.step,setStyles_cons,refused]
      rfl

theorem IsForest.inPlace_apply (forest : page.IsForest) (operation : Operation) :
    operation.inPlace page = Editing.step operation.on page := by
  cases operation with
  | append parent child => exact forest.appendInPlace_apply parent child
  | remove parent child => exact forest.removeInPlace_apply parent child
  | resolveImage id size => exact resolveInPlace_apply id size page
  | _ => rfl

private theorem eq_of_step_error {operation : Page → Except PageFault Page} {fault : MapFault}
    (refused : Editing.step operation page = (.error fault,next)) : next = page := by
  unfold Editing.step at refused
  cases outcome : operation page with
  | ok last =>
    rw [outcome] at refused
    cases refused
  | error fault =>
    rw [outcome] at refused
    exact (Prod.mk.inj refused).2.symm

def Operation.Suits (page : Page) : Operation → Prop
  | .append parent child => (page.element? parent).isSome ∧ (page.element? child).isSome ∧ child ≠ parent ∧
      ¬ Relation.TransGen page.HangsFrom parent child
  | .remove parent child => (page.element? child).isSome ∧ page.parent child = some parent
  | .resolveImage id _ => ∃ element, page.element? id = some element ∧ element.tag = "img"
  | .setStyle id _ _ | .setClass id _ | .setSource id _ => (page.element? id).isSome
  | .create _ | .setViewport _ => True

theorem IsForest.unreached_iff (forest : page.IsForest) : page.reaches parent child = false ↔
    child ≠ parent ∧ ¬ Relation.TransGen page.HangsFrom parent child := by
  rw [← Bool.not_eq_true,forest.reaches_iff,Relation.reflTransGen_iff_eq_or_transGen,not_or]

theorem IsForest.on_eq_ok_iff (forest : page.IsForest) (operation : Operation) :
    (∃ next, operation.on page = .ok next) ↔ operation.Suits page := by
  have edited (id : ElementId) (becomes : Element → Element) :
      (∃ next, page.edit id becomes = .ok next) ↔ (page.element? id).isSome := by simp [edit_eq_ok]
  cases operation with
  | append parent child =>
    simp only [Operation.on,Operation.Suits,append_eq_ok,forest.unreached_iff,exists_and_left,exists_eq,and_true]
  | remove parent child =>
    have known (above : page.parent child = some parent) : (page.element? child).isSome := by
      obtain ⟨element,found,_⟩ := parent_eq_some.mp above
      rw [found,Option.isSome_some]
    simpa only [Operation.on,Operation.Suits,remove_eq_ok,exists_and_left,exists_eq,and_true] using
      (and_iff_right_of_imp known).symm
  | resolveImage id size =>
    simp only [Operation.on,Operation.Suits,resolveImage_eq_ok,exists_and_left,exists_eq,and_true,Element.isImage,
      beq_iff_eq]
  | setStyle id property text => exact edited id _
  | setClass id name => exact edited id _
  | setSource id url => exact edited id _
  | create tag => exact iff_of_true ⟨_,rfl⟩ trivial
  | setViewport viewport => exact iff_of_true ⟨_,rfl⟩ trivial

/-- A page after an append. -/
structure IsAppended (page : Page) (parent child : ElementId) (next : Page) : Prop where
  last : next.children parent = (page.children parent).filter (· ≠ child) ++ [child]
  left : ∀ old, page.parent child = some old → old ≠ parent → next.children old = (page.children old).filter (· ≠ child)
  lists : ∀ id, id ≠ parent → page.parent child ≠ some id → next.children id = page.children id
  hangs : next.parent child = some parent
  parents : ∀ id, id ≠ child → next.parent id = page.parent id
  content : ∀ id, next.element? id = (page.element? id).map fun element =>
    { element with parent := next.parent id, children := next.children id }
  viewport : next.viewport = page.viewport

theorem IsForest.filter_children (forest : page.IsForest) (apart : page.parent child ≠ some id) :
    (page.children id).filter (· ≠ child) = page.children id := by
  refine List.filter_eq_self.mpr fun other member => decide_eq_true ?_
  rintro rfl
  exact forest.not_mem_children apart member

theorem IsForest.children_appended (forest : page.IsForest) (known : (page.element? parent).isSome) (id : ElementId) :
    (page.hang parent child).children id =
      (page.children id).filter (· ≠ child) ++ if id = parent then [child] else [] := by
  rw [children_hang known]
  by_cases above : page.parent child = some id
  · rw [if_pos above]
    congr 1
    exact List.filter_congr fun other _ => by simp [bne,beq_eq_decide]
  · rw [if_neg above,forest.filter_children above]

theorem IsForest.isAppended (forest : page.IsForest) (done : page.append parent child = .ok next) :
    IsAppended page parent child next := by
  obtain ⟨parentKnown,childKnown,_,rfl⟩ := append_eq_ok.mp done
  have lists (id : ElementId) : (page.hang parent child).children id = _ := forest.children_appended parentKnown id
  refine ⟨?_,?_,?_,?_,?_,fun id => ?_,viewport_hang page parent child⟩
  · rw [lists,if_pos rfl]
  · intro old _ apart
    rw [lists,if_neg apart,List.append_nil]
  · intro id apart other
    rw [lists,if_neg apart,List.append_nil,forest.filter_children other]
  · rw [parent_hang childKnown,if_pos rfl]
  · intro id apart
    rw [parent_hang childKnown,if_neg apart]
  · have hung := Page.element?_hang page parent child id
    cases found : page.element? id with
    | none =>
      rw [hung,found]
      rfl
    | some element =>
      rw [found,Option.map_some] at hung
      rw [Option.map_some,Page.parent,children,hung]
      rfl

/-- What is left of a page by operations, those that fail included. -/
def editAll (page : Page) (operations : List Operation) : Page :=
  operations.foldl (fun page operation => (operation.inPlace page).2) page

theorem IsForest.editAll_eq (forest : page.IsForest) (operations : List Operation) :
    page.editAll operations = page.performAll operations := by
  induction operations generalizing page with
  | nil => rfl
  | cons operation operations ih =>
    have first : (operation.inPlace page).2 = page.perform operation := by
      rw [forest.inPlace_apply,Editing.step,Page.perform]
      cases operation.on page <;> rfl
    rw [editAll,List.foldl_cons,first]
    exact ih (forest.perform operation)

/-- Whatever was done to a page before, an operation on it is carried out as a whole or changes nothing, and it is carried
out just if it suits the page. A child that is appended becomes the last of its parent, and all else stays. -/
theorem atomic_editAll (viewport : Size) (operations : List Operation) :
    let page := (ofViewport viewport).editAll operations
    (∀ operation : Operation, operation.inPlace page = Editing.step operation.on page ∧
      ((∃ next, operation.on page = .ok next) ↔ operation.Suits page) ∧
      ∀ fault next, operation.inPlace page = (.error fault,next) → next = page) ∧
    (∀ id table, setStylesInPlace id table page = Editing.step (·.setStyles id table) page ∧
      ((∃ next, page.setStyles id table = .ok next) ↔ table = [] ∨ (page.element? id).isSome) ∧
      ∀ fault next, setStylesInPlace id table page = (.error fault,next) → next = page) ∧
    ∀ parent child next, page.append parent child = .ok next → IsAppended page parent child next := by
  have forest := isForest_performAll viewport operations
  rw [← (isForest_ofViewport viewport).editAll_eq] at forest
  intro page
  refine ⟨fun operation => ⟨forest.inPlace_apply operation,forest.on_eq_ok_iff operation,?_⟩,
    fun id table => ⟨setStylesInPlace_apply id table page,?_,?_⟩,fun _ _ _ => forest.isAppended⟩
  · intro fault next refused
    rw [forest.inPlace_apply] at refused
    exact eq_of_step_error refused
  · cases table with
    | nil => exact iff_of_true ⟨_,rfl⟩ (.inl rfl)
    | cons entry table => simp [setStyles_eq_ok]
  · intro fault next refused
    rw [setStylesInPlace_apply] at refused
    exact eq_of_step_error refused

/-- The body is not hung below its own child, and a child that is appended again comes last. -/
theorem atomic_editAll_of_siblings :
    let page := (ofViewport Size.zero).editAll [.create "div",.create "p",.append body ⟨1⟩,.append body ⟨2⟩]
    ((Operation.append ⟨1⟩ body).inPlace page).2 = page ∧
      ∃ next, page.append body ⟨1⟩ = .ok next ∧ next.children body = [⟨2⟩,⟨1⟩] ∧ IsAppended page body ⟨1⟩ next := by
  intro page
  obtain ⟨operations,_,append⟩ :=
    atomic_editAll Size.zero [.create "div",.create "p",.append body ⟨1⟩,.append body ⟨2⟩]
  have refused : (Operation.append ⟨1⟩ body).inPlace page = (.error (.page (.ownSubtree body ⟨1⟩)),page) := rfl
  have done : page.append body ⟨1⟩ = .ok (page.hang body ⟨1⟩) := rfl
  exact ⟨(congrArg Prod.snd refused).trans ((operations _).2.2 _ _ refused),_,done,by decide,append _ _ _ done⟩

end PinnedMap.Page
