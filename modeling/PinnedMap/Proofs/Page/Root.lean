import PinnedMap.Proofs.Page.Operation

/-! The body as the root of its page. An element is connected just if it is the body or its parent is connected, on
every page; what contains a connected element is connected as well, as long as the body itself hangs nowhere. Only an
append moves an element, and the body can be moved into whatever is not connected. -/
namespace PinnedMap.Page

variable {page next : Page} {id above parent : ElementId}

private theorem isConnected_body (page : Page) : page.isConnected body = true := by
  unfold isConnected reaches walkLimit
  rw [reachesWithin,if_pos rfl,Option.getD_some]

theorem IsForest.isConnected_iff (forest : page.IsForest) : page.isConnected id = true ↔
    id = body ∨ ∃ above, page.parent id = some above ∧ page.isConnected above = true := by
  unfold isConnected
  rw [forest.reaches_iff,Relation.ReflTransGen.cases_head_iff]
  simp only [forest.reaches_iff,HangsFrom]

theorem IsForest.isConnected_of_climb (forest : page.IsForest) (orphan : page.parent body = none)
    (climbed : Relation.ReflTransGen page.HangsFrom id above) (connected : page.isConnected id = true) :
    page.isConnected above = true := by
  induction climbed with
  | refl => exact connected
  | tail _ up ih =>
    rcases forest.isConnected_iff.mp ih with rfl | ⟨parent,hangs,rest⟩
    · cases orphan.symm.trans up
    · exact Option.some.inj (hangs.symm.trans up) ▸ rest

theorem IsForest.isConnected_of_hangs_body (forest : page.IsForest) (hangs : page.parent body = some above) :
    page.isConnected above = false := by
  rw [Bool.eq_false_iff,ne_eq,isConnected,forest.reaches_iff]
  exact fun climbed => forest.acyclic body (.head' hangs climbed)

theorem IsForest.orphan_body_iff (forest : page.IsForest) : page.parent body = none ↔
    ∀ id above, page.isConnected id = true → Relation.ReflTransGen page.HangsFrom id above →
      page.isConnected above = true := by
  constructor
  · exact fun orphan id above connected climbed => forest.isConnected_of_climb orphan climbed connected
  · intro upward
    cases hangs : page.parent body with
    | none => rfl
    | some above =>
      have connected := upward body above page.isConnected_body (.single hangs)
      rw [forest.isConnected_of_hangs_body hangs] at connected
      cases connected

theorem append_body_iff (known : (page.element? body).isSome) :
    (∃ next, page.append parent body = .ok next) ↔
      (page.element? parent).isSome ∧ page.isConnected parent = false := by
  constructor
  · rintro ⟨next,appended⟩
    obtain ⟨parentKnown,_,unreached,_⟩ := append_eq_ok.mp appended
    exact ⟨parentKnown,unreached⟩
  · rintro ⟨parentKnown,unreached⟩
    exact ⟨_,append_eq_ok.mpr ⟨parentKnown,known,unreached,rfl⟩⟩

def Operation.moved : Operation → Option ElementId
  | .append _ child => some child
  | _ => none

private theorem parent_perform_of_spared (orphan : page.parent id = none) {operation : Operation}
    (spared : operation.moved ≠ some id) : (page.perform operation).parent id = none := by
  unfold perform
  cases done : operation.on page with
  | error fault => exact orphan
  | ok next =>
    dsimp only
    cases operation with
    | create tag =>
      obtain rfl := Except.ok.inj done
      rw [parent_create,orphan]
    | setStyle | setClass | setSource =>
      obtain ⟨_,rfl⟩ := edit_eq_ok.mp done
      rw [parent_update (by intro element; rfl),orphan]
    | append parent child =>
      obtain ⟨_,known,_,rfl⟩ := append_eq_ok.mp done
      have apart : id ≠ child := fun same => spared (congrArg some same.symm)
      rw [parent_hang known,if_neg apart,orphan]
    | remove parent child =>
      obtain ⟨_,rfl⟩ := remove_eq_ok.mp done
      rw [parent_unlink,orphan,ite_self]
    | resolveImage =>
      obtain ⟨_,rfl⟩ := resolveImage_eq_ok.mp done
      rw [parent_update (by intro element; rfl),orphan]
    | setViewport viewport =>
      obtain rfl := Except.ok.inj done
      exact orphan

private theorem update_of_unknown (unknown : page.element? id = none) (change : Element → Element) :
    page.update id change = page := by
  have same : page.elements.modify id.index change = page.elements := by
    apply Array.ext_getElem?
    intro place
    rw [Array.getElem?_modify]
    split_ifs with own
    · rw [← own]
      exact (congrArg (Option.map change) unknown).trans unknown.symm
    · rfl
  rw [update,same]

private theorem perform_setStyle (page : Page) (id : ElementId) (property text : String) :
    page.perform (.setStyle id property text) =
      page.update id fun element => { element with styles := element.styles.set property text } := by
  unfold perform
  cases done : Operation.on page (.setStyle id property text) with
  | ok next => exact (edit_eq_ok.mp done).2
  | error fault =>
    have unknown : page.element? id = none := by
      by_contra known
      have edited : page.setStyle id property text = .ok _ :=
        edit_eq_ok.mpr ⟨Option.isSome_iff_ne_none.mpr known,rfl⟩
      cases edited.symm.trans done
    exact (update_of_unknown unknown _).symm

/-- From one page to another by operations that move nothing but what may be moved. -/
def EditsTo (movable : ElementId → Prop) (page next : Page) : Prop :=
  ∃ operations : List Operation, (∀ operation ∈ operations, ∀ child ∈ operation.moved, movable child) ∧
    page.performAll operations = next

namespace EditsTo

variable {movable : ElementId → Prop} {last : Page}

theorem refl (page : Page) : EditsTo movable page page := ⟨[],nofun,rfl⟩

theorem trans (edits : EditsTo movable page next) (later : EditsTo movable next last) : EditsTo movable page last := by
  obtain ⟨operations,moved,rfl⟩ := edits
  obtain ⟨others,moved',rfl⟩ := later
  exact ⟨operations ++ others,List.forall_mem_append.mpr ⟨moved,moved'⟩,List.foldl_append ..⟩

theorem perform (page : Page) (operation : Operation) (moved : ∀ child ∈ operation.moved, movable child) :
    EditsTo movable page (page.perform operation) :=
  ⟨[operation],List.forall_mem_singleton.mpr moved,rfl⟩

theorem on (operation : Operation) (done : operation.on page = .ok next)
    (moved : ∀ child ∈ operation.moved, movable child) : EditsTo movable page next := by
  have edits := perform page operation moved
  rwa [Page.perform,done] at edits

theorem styled (page : Page) (id : ElementId) (table : StyleTable) : EditsTo movable page (page.styled id table) := by
  induction table generalizing page with
  | nil =>
    have same : page.styled id [] = page := update_id page id
    rw [same]
    exact refl page
  | cons entry table ih =>
    have first : EditsTo movable page _ := perform page (.setStyle id entry.1 entry.2.written) nofun
    rw [perform_setStyle] at first
    have rest := ih (page.update id fun element =>
      { element with styles := element.styles.set entry.1 entry.2.written })
    rw [Page.styled,update_update] at rest
    exact first.trans rest

/-- What every operation keeps that moves nothing but what may be moved. -/
theorem induct (holds : Page → Prop)
    (step : ∀ page operation, (∀ child ∈ operation.moved, movable child) → holds page → holds (page.perform operation))
    (edits : EditsTo movable page next) (before : holds page) : holds next := by
  obtain ⟨operations,moved,rfl⟩ := edits
  induction operations generalizing page with
  | nil => exact before
  | cons operation operations ih =>
    obtain ⟨own,rest⟩ := List.forall_mem_cons.mp moved
    exact ih (step page operation own before) rest

theorem isForest (edits : EditsTo movable page next) (forest : page.IsForest) : next.IsForest :=
  edits.induct IsForest (fun _ operation _ forest => forest.perform operation) forest

theorem known (edits : EditsTo movable page next) (known : (page.element? id).isSome) : (next.element? id).isSome :=
  edits.induct (fun page => (page.element? id).isSome)
    (fun _ operation _ known => isSome_element?_perform known operation) known

theorem orphan (edits : EditsTo movable page next) (orphan : page.parent id = none) (spared : ¬ movable id) :
    next.parent id = none := by
  refine edits.induct (fun page => page.parent id = none) (fun page operation moved orphan => ?_) orphan
  exact parent_perform_of_spared orphan fun own => spared (moved id own)

end EditsTo

end PinnedMap.Page
