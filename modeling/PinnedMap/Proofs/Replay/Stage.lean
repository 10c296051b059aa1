import PinnedMap.Proofs.ImageMap.Staging
import PinnedMap.Replay

/-! The stage of a replay can always be set, whatever the settings. -/
namespace PinnedMap.Replay

variable {page last : Page} {map : ImageMap}

/-- New elements are in the store and hang nowhere; what was there before stays as it is. -/
theorem createAll_spec (tag : String) (count : Nat) (page : Page) :
    (createAll tag count page).1.length = count ∧
      (∀ id ∈ (createAll tag count page).1, page.element? id = none ∧
        ((createAll tag count page).2.element? id).isSome ∧ (createAll tag count page).2.parent id = none) ∧
      ∀ id, (page.element? id).isSome → (createAll tag count page).2.element? id = page.element? id := by
  induction count generalizing page with
  | zero => exact ⟨rfl,by simp [createAll],fun _ _ => rfl⟩
  | succ count ih =>
    obtain ⟨length,each,kept⟩ := ih (page.create tag).2
    refine ⟨congrArg Nat.succ length,fun id member => ?_,fun id known => ?_⟩
    · rcases List.mem_cons.mp member with rfl | later
      · have new : (page.create tag).2.element? (page.create tag).1 = some (Element.ofTag tag) := by
          rw [Page.element?_create,if_pos rfl]
        have found :
            (createAll tag count (page.create tag).2).2.element? (page.create tag).1 = some (Element.ofTag tag) :=
          (kept _ (Option.isSome_iff_exists.mpr ⟨_,new⟩)).trans new
        refine ⟨Page.element?_new page tag,Option.isSome_iff_exists.mpr ⟨_,found⟩,?_⟩
        exact congrArg (fun element => element.bind Element.parent) found
      · obtain ⟨absent,known,orphan⟩ := each id later
        refine ⟨?_,known,orphan⟩
        rw [Page.element?_eq_none] at absent ⊢
        rw [Page.size_create] at absent
        omega
    · exact (kept id (Page.isSome_element?_create known tag)).trans (Page.element?_create_of_known known tag)

private theorem viewport_createAll (tag : String) (count : Nat) (page : Page) :
    (createAll tag count page).2.viewport = page.viewport := by
  induction count generalizing page with
  | zero => rfl
  | succ count ih => exact (ih (page.create tag).2).trans (Page.viewport_create page tag)

theorem exists_contained (viewport : Size) :
    ∃ contained,
      ((Page.ofViewport viewport).create "div").2.append Page.body ((Page.ofViewport viewport).create "div").1 =
        .ok contained ∧ (contained.element? Page.body).isSome ∧ contained.parent Page.body = none ∧
      contained.parent ((Page.ofViewport viewport).create "div").1 = some Page.body ∧
      contained.viewport = viewport := by
  have bodyKnown : (((Page.ofViewport viewport).create "div").2.element? Page.body).isSome := by rfl
  have childKnown : (((Page.ofViewport viewport).create "div").2.element?
      ((Page.ofViewport viewport).create "div").1).isSome := by rfl
  have orphan : ((Page.ofViewport viewport).create "div").2.parent Page.body = none := by rfl
  have apart : Page.body ≠ ((Page.ofViewport viewport).create "div").1 := by
    intro same
    cases same
  refine ⟨_,Page.append_eq_ok.mpr ⟨bodyKnown,childKnown,Page.reaches_of_orphan orphan apart,rfl⟩,?_,?_,?_,?_⟩
  · rwa [Page.isSome_element?_hang]
  · rw [Page.parent_hang childKnown,if_neg apart]
    exact orphan
  · rw [Page.parent_hang childKnown,if_pos rfl]
  · rw [Page.viewport_hang]
    rfl

private theorem exists_create {pins : List ElementId} {container : ElementId} (id : Uuid) (plan : MapPlan)
    (options : LayoutOptions)
    (each : ∀ pin ∈ pins, (page.element? pin).isSome ∧ page.parent pin = none ∧ pin ≠ Page.body)
    (count : pins.length = plan.gates.length) (bodyKnown : (page.element? Page.body).isSome)
    (body : page.parent Page.body = none) (above : page.parent container = some Page.body) :
    ∃ map staged, ImageMap.create page id plan pins container options = .ok (map,staged) ∧
      map.id = id ∧ map.plan = plan ∧ map.options = options ∧ map.IsStaged staged ∧
      staged.viewport = page.viewport := by
  have new : (page.create "img").2.element? (page.create "img").1 = some (Element.ofTag "img") := by
    rw [Page.element?_create,if_pos rfl]
  have known : ((page.create "img").2.element? (page.create "img").1).isSome :=
    Option.isSome_iff_exists.mpr ⟨_,new⟩
  let styled := (page.create "img").2.styled (page.create "img").1 imageStyles
  let sourced := styled.update (page.create "img").1 fun element =>
    { element with source := some plan.image, natural := none }
  have parents (other : ElementId) : sourced.parent other = page.parent other := by
    rw [Page.parent_update (by intro element; rfl),Page.parent_styled,Page.parent_create]
  have kept {other : ElementId} (known : (page.element? other).isSome) : (sourced.element? other).isSome := by
    rw [Page.isSome_element?_update,Page.isSome_element?_styled]
    exact Page.isSome_element?_create known "img"
  have image : ∃ element, sourced.element? (page.create "img").1 = some element ∧ element.isImage = true := by
    simp only [sourced,styled,Page.styled,Page.element?_update,if_true,new,Option.map_some]
    have isImage : (Element.ofTag "img").isImage = true := by decide
    exact ⟨_,rfl,isImage⟩
  have created : ImageMap.create page id plan pins container options =
      .ok ({ id, plan, options, pins, container, image := (page.create "img").1 },sourced) := by
    have sets : styled.setSource (page.create "img").1 plan.image = .ok sourced := by
      refine Page.edit_eq_ok.mpr ⟨?_,rfl⟩
      rwa [Page.isSome_element?_styled]
    have both : ((page.create "img").2.setStyles (page.create "img").1 imageStyles).bind
        (·.setSource (page.create "img").1 plan.image) = .ok sourced := by
      rw [Page.setStyles_of_known known]
      exact sets
    unfold ImageMap.create
    rw [if_neg (by omega)]
    dsimp only
    rw [both]
  refine ⟨_,sourced,created,rfl,rfl,rfl,
    ⟨rfl,image,fun pin member => kept (each pin member).1,kept bodyKnown,?_,?_,?_⟩,rfl⟩
  · exact (parents container).trans above
  · exact (parents Page.body).trans body
  · intro other member
    rw [parents]
    rcases List.mem_cons.mp member with rfl | pin
    · refine ⟨?_,(Page.ne_new_of_known bodyKnown "img").symm⟩
      rw [Page.parent,Page.element?_new]
      rfl
    · exact (each other pin).2

theorem exists_stage (id : Uuid) (settings : Settings) :
    ∃ map page, stage id settings = .ok (map,page) ∧ map.id = id ∧ map.plan = settings.plan ∧
      map.options = settings.layout ∧ map.IsStaged page ∧ page.viewport = settings.viewport.initial := by
  obtain ⟨contained,appended,bodyKnown,body,above,viewport⟩ := exists_contained settings.viewport.initial
  obtain ⟨count,each,kept⟩ := createAll_spec "button" settings.plan.gates.length contained
  have parents {id : ElementId} (known : (contained.element? id).isSome) :
      (createAll "button" settings.plan.gates.length contained).2.parent id = contained.parent id :=
    congrArg (fun element => element.bind Element.parent) (kept id known)
  have containerKnown : (contained.element? ((Page.ofViewport settings.viewport.initial).create "div").1).isSome := by
    obtain ⟨element,found,_⟩ := Page.parent_eq_some.mp above
    exact Option.isSome_iff_exists.mpr ⟨element,found⟩
  obtain ⟨map,staged,created,sameId,samePlan,sameOptions,isStaged,same⟩ :=
    exists_create id settings.plan settings.layout
    (fun pin (member : pin ∈ (createAll "button" settings.plan.gates.length contained).1) => by
      obtain ⟨absent,known,orphan⟩ := each pin member
      refine ⟨known,orphan,?_⟩
      rintro rfl
      rw [absent] at bodyKnown
      cases bodyKnown)
    count (by rw [kept _ bodyKnown]; exact bodyKnown) ((parents bodyKnown).trans body) ((parents containerKnown).trans above)
  refine ⟨map,staged,?_,sameId,samePlan,sameOptions,isStaged,?_⟩
  swap
  · rw [same,viewport_createAll,viewport]
  unfold stage
  dsimp only
  rw [appended]
  exact created

end PinnedMap.Replay
