import PinnedMap.Proofs.ImageMap.Attaching
import PinnedMap.Proofs.Page.Viewport

/-! A map on a page that is ready for it attaches whenever its image can be scaled, and the viewport has a say
in nothing but the scale. -/
namespace PinnedMap.ImageMap

variable {map : ImageMap} {page last : Page} {wrapper : ElementId}

/-- The container hangs from the body; the image and the pins wait beside it. -/
structure IsStaged (map : ImageMap) (page : Page) : Prop where
  loading : map.phase = .loading
  image : ∃ element, page.element? map.image = some element ∧ element.isImage = true
  known : ∀ pin ∈ map.pins, (page.element? pin).isSome
  bodyKnown : (page.element? Page.body).isSome
  container : page.parent map.container = some Page.body
  body : page.parent Page.body = none
  orphan : ∀ id ∈ map.image :: map.pins, page.parent id = none ∧ id ≠ Page.body

theorem IsStaged.resolveImage (staged : map.IsStaged page) (natural : Size) :
    ∃ resolved, page.resolveImage map.image natural = .ok resolved ∧ map.IsStaged resolved ∧
      resolved.natural map.image = some natural ∧ resolved.viewport = page.viewport := by
  obtain ⟨element,found,isImage⟩ := staged.image
  have parents : ∀ id, (page.update map.image fun element => { element with natural := some natural }).parent id =
      page.parent id := Page.parent_update (by intro element; rfl) map.image
  refine ⟨_,Page.resolveImage_eq_ok.mpr ⟨⟨element,found,isImage⟩,rfl⟩,⟨staged.loading,?_,?_,?_,?_,?_,?_⟩,?_,rfl⟩
  · rw [Page.element?_update,if_pos rfl,found]
    exact ⟨_,rfl,isImage⟩
  · intro pin member
    rw [Page.isSome_element?_update]
    exact staged.known pin member
  · rw [Page.isSome_element?_update]
    exact staged.bodyKnown
  · rw [parents]
    exact staged.container
  · rw [parents]
    exact staged.body
  · intro id member
    rw [parents]
    exact staged.orphan id member
  · rw [Page.natural,Page.element?_update,if_pos rfl,found]
    rfl

/-- A wrapper that can be filled, and then hung off the container. -/
structure Awaits (map : ImageMap) (wrapper : ElementId) (page : Page) : Prop where
  notBody : wrapper ≠ Page.body
  known : (page.element? wrapper).isSome
  orphan : page.parent wrapper = none
  container : page.parent map.container = some Page.body
  body : page.parent Page.body = none

theorem Awaits.update (awaits : map.Awaits wrapper page) (id : ElementId) {change : Element → Element}
    (same : ∀ element, (change element).parent = element.parent) :
    map.Awaits wrapper (page.update id change) := by
  refine ⟨awaits.notBody,?_,?_,?_,?_⟩
  · rw [Page.isSome_element?_update]
    exact awaits.known
  · rw [Page.parent_update same]
    exact awaits.orphan
  · rw [Page.parent_update same]
    exact awaits.container
  · rw [Page.parent_update same]
    exact awaits.body

theorem Awaits.styled (awaits : map.Awaits wrapper page) (id : ElementId) (table : StyleTable) :
    map.Awaits wrapper (page.styled id table) :=
  awaits.update id (by intro element; rfl)

theorem Awaits.append (awaits : map.Awaits wrapper page) {child : ElementId}
    (known : (page.element? child).isSome) (apart : wrapper ≠ child ∧ map.container ≠ child ∧ Page.body ≠ child) :
    page.append wrapper child = .ok (page.hang wrapper child) ∧
    map.Awaits wrapper (page.hang wrapper child) := by
  obtain ⟨notWrapper,notContainer,notBody⟩ := apart
  refine ⟨?_,awaits.notBody,?_,?_,?_,?_⟩
  · exact Page.append_eq_ok.mpr ⟨awaits.known,known,Page.reaches_of_orphan awaits.orphan notWrapper,rfl⟩
  · rw [Page.isSome_element?_hang]
    exact awaits.known
  · rw [Page.parent_hang known,if_neg notWrapper]
    exact awaits.orphan
  · rw [Page.parent_hang known,if_neg notContainer]
    exact awaits.container
  · rw [Page.parent_hang known,if_neg notBody]
    exact awaits.body

theorem Awaits.forM_bindPin (awaits : map.Awaits wrapper page) {pins : List ElementId}
    (each : ∀ pin ∈ pins, (page.element? pin).isSome ∧ wrapper ≠ pin ∧ map.container ≠ pin ∧ Page.body ≠ pin) :
    ∃ bound, pins.forM (bindPin wrapper) page = (.ok (),bound) ∧ map.Awaits wrapper bound := by
  induction pins generalizing page with
  | nil => exact ⟨page,rfl,awaits⟩
  | cons pin pins ih =>
    obtain ⟨known,apart⟩ := each pin (by simp)
    obtain ⟨appended,next⟩ := awaits.append known apart
    obtain ⟨bound,rest,done⟩ := ih (next.styled pin bindingStyles) fun other member => by
      obtain ⟨known,apart⟩ := each other (by simp [member])
      refine ⟨?_,apart⟩
      rwa [Page.isSome_element?_styled,Page.isSome_element?_hang]
    exact ⟨bound,Editing.forM_cons_eq_ok.mpr ⟨_,bindPin_eq_ok.mpr ⟨_,appended,rfl⟩,rest⟩,done⟩

/-- The walk from the container goes to the body and ends there. -/
theorem Awaits.reaches_container (awaits : map.Awaits wrapper page) :
    page.reaches map.container wrapper = false := by
  have notContainer : map.container ≠ wrapper := by
    intro same
    have above := awaits.container
    rw [same,awaits.orphan] at above
    cases above
  obtain ⟨steps,enough⟩ : ∃ steps, page.walkLimit = steps + 2 := by
    have some := (Page.isSome_element? page wrapper).mp awaits.known
    exact ⟨page.elements.size - 1,by unfold Page.walkLimit; omega⟩
  unfold Page.reaches
  rw [enough,Page.reachesWithin,if_neg notContainer,awaits.container]
  dsimp only
  rw [Page.reachesWithin,if_neg awaits.notBody.symm,awaits.body]
  rfl

theorem IsStaged.awaits (staged : map.IsStaged page) (tag : String) :
    map.Awaits (page.create tag).1 (page.create tag).2 := by
  refine ⟨(Page.ne_new_of_known staged.bodyKnown tag).symm,?_,?_,?_,?_⟩
  · rw [Page.element?_create,if_pos rfl]
    rfl
  · rw [Page.parent_create,Page.parent,Page.element?_new]
    rfl
  · rw [Page.parent_create]
    exact staged.container
  · rw [Page.parent_create]
    exact staged.body

theorem IsStaged.apart (staged : map.IsStaged page) (tag : String) {id : ElementId}
    (member : id ∈ map.image :: map.pins) :
    (page.element? id).isSome ∧ (page.create tag).1 ≠ id ∧ map.container ≠ id ∧ Page.body ≠ id := by
  have known : (page.element? id).isSome := by
    rcases List.mem_cons.mp member with rfl | pin
    · obtain ⟨element,found,_⟩ := staged.image
      rw [found]
      rfl
    · exact staged.known id pin
  obtain ⟨orphan,notBody⟩ := staged.orphan id member
  refine ⟨known,(Page.ne_new_of_known known tag).symm,?_,notBody.symm⟩
  rintro rfl
  rw [staged.container] at orphan
  cases orphan

theorem IsStaged.exists_wrap (staged : map.IsStaged page) :
    ∃ wrapped, map.wrap (page.create "div").1 (page.create "div").2 = (.ok (),wrapped) := by
  have awaits := staged.awaits "div"
  have apart := fun {id : ElementId} (member : id ∈ map.image :: map.pins) => staged.apart "div" member
  have grown := fun {id : ElementId} (known : (page.element? id).isSome) =>
    Page.isSome_element?_create known "div"
  generalize (page.create "div").1 = wrapper at *
  generalize (page.create "div").2 = start at *
  let named := start.update wrapper fun element => { element with className := map.options.className }
  have namedAwaits : map.Awaits wrapper named := awaits.update wrapper (by intro element; rfl)
  let dressed := named.styled wrapper (wrapperStyles map.options.maxWidth)
  have dressedAwaits : map.Awaits wrapper dressed := namedAwaits.styled wrapper _
  have kept (id : ElementId) : (dressed.element? id).isSome = (start.element? id).isSome := by
    rw [Page.isSome_element?_styled,Page.isSome_element?_update]
  obtain ⟨imageKnown,imageApart⟩ := apart (List.mem_cons_self ..)
  obtain ⟨filled,filledAwaits⟩ := dressedAwaits.append (by rw [kept]; exact grown imageKnown) imageApart
  obtain ⟨bound,binds,boundAwaits⟩ := filledAwaits.forM_bindPin fun pin (member : pin ∈ map.pins) => by
    obtain ⟨known,others⟩ := apart (List.mem_cons_of_mem _ member)
    refine ⟨?_,others⟩
    rw [Page.isSome_element?_hang,kept]
    exact grown known
  have containerKnown : (bound.element? map.container).isSome := by
    obtain ⟨element,found,_⟩ := Page.parent_eq_some.mp boundAwaits.container
    rw [found]
    rfl
  refine ⟨bound.hang map.container wrapper,wrap_eq_ok.mpr ⟨named,dressed,_,bound,?_,?_,filled,binds,?_⟩⟩
  · exact Page.edit_eq_ok.mpr ⟨awaits.known,rfl⟩
  · exact Page.setStyles_of_known namedAwaits.known _
  · exact Page.append_eq_ok.mpr ⟨containerKnown,boundAwaits.known,boundAwaits.reaches_container,rfl⟩

private theorem natural_forM_bindPin {pins : List ElementId} {done : Unit}
    (bound : pins.forM (bindPin wrapper) page = (.ok done,last)) (id : ElementId) :
    last.natural id = page.natural id := by
  induction pins generalizing page with
  | nil =>
    cases bound
    rfl
  | cons pin pins ih =>
    obtain ⟨next,head,rest⟩ := Editing.forM_cons_eq_ok.mp bound
    obtain ⟨moved,appended,rfl⟩ := bindPin_eq_ok.mp head
    obtain ⟨_,_,_,rfl⟩ := Page.append_eq_ok.mp appended
    rw [ih rest,Page.natural_styled,Page.natural_hang]

theorem natural_wrap {done : Unit} (wrapped : map.wrap wrapper page = (.ok done,last)) (id : ElementId) :
    last.natural id = page.natural id := by
  obtain ⟨named,dressed,filled,pinned,first,second,third,binds,fifth⟩ := wrap_eq_ok.mp wrapped
  obtain ⟨_,rfl⟩ := Page.edit_eq_ok.mp first
  obtain ⟨_,rfl⟩ := Page.setStyles_eq_ok.mp second
  obtain ⟨_,_,_,rfl⟩ := Page.append_eq_ok.mp third
  obtain ⟨_,_,_,rfl⟩ := Page.append_eq_ok.mp fifth
  rw [Page.natural_hang,natural_forM_bindPin binds,Page.natural_hang,Page.natural_styled,
    Page.natural_update (by intro element; rfl)]

private theorem forM_bindPin_setViewport {pins : List ElementId} {done : Unit} (viewport : Size)
    (bound : pins.forM (bindPin wrapper) page = (.ok done,last)) :
    pins.forM (bindPin wrapper) (page.setViewport viewport) = (.ok (),last.setViewport viewport) := by
  induction pins generalizing page with
  | nil =>
    cases bound
    rfl
  | cons pin pins ih =>
    obtain ⟨next,head,rest⟩ := Editing.forM_cons_eq_ok.mp bound
    obtain ⟨moved,appended,rfl⟩ := bindPin_eq_ok.mp head
    refine Editing.forM_cons_eq_ok.mpr ⟨_,?_,ih rest⟩
    exact bindPin_eq_ok.mpr ⟨_,Page.append_setViewport appended viewport,rfl⟩

private theorem wrap_setViewport {done : Unit} (wrapped : map.wrap wrapper page = (.ok done,last)) (viewport : Size) :
    map.wrap wrapper (page.setViewport viewport) = (.ok (),last.setViewport viewport) := by
  obtain ⟨named,dressed,filled,pinned,first,second,third,binds,fifth⟩ := wrap_eq_ok.mp wrapped
  refine wrap_eq_ok.mpr ⟨named.setViewport viewport,dressed.setViewport viewport,filled.setViewport viewport,
    pinned.setViewport viewport,?_,?_,?_,?_,?_⟩
  · exact Page.setClass_setViewport first viewport
  · exact Page.setStyles_setViewport second viewport
  · exact Page.append_setViewport third viewport
  · exact forM_bindPin_setViewport viewport binds
  · exact Page.append_setViewport fifth viewport

theorem attachable_of_natural {natural : Size} (loading : map.phase = .loading)
    (loaded : page.natural map.image = some natural) :
    map.attachable page =
      ((Ratio.between natural natural map.options.scaleMode).mapError MapFault.scale).map fun _ => () := by
  unfold attachable naturalSize
  rw [loaded,if_neg (by simp [loading])]
  cases scaled : Ratio.between natural natural map.options.scaleMode <;>
    simp [bind,Except.bind,pure,Except.pure,Except.mapError,Except.map,scaled]

theorem ratio_of_natural {natural : Size} (loaded : page.natural map.image = some natural) :
    map.ratio page = (Ratio.between (page.renderedSize map.image) natural map.options.scaleMode).mapError .scale := by
  unfold ratio naturalSize
  rw [loaded]
  rfl

theorem ratio_eq_ok {natural : Size} {ratio : Ratio} (loaded : page.natural map.image = some natural) :
    map.ratio page = .ok ratio ↔
      Ratio.between (page.renderedSize map.image) natural map.options.scaleMode = .ok ratio := by
  rw [ratio_of_natural loaded]
  cases Ratio.between (page.renderedSize map.image) natural map.options.scaleMode <;> simp [Except.mapError]

theorem between_isOk {natural : Size} {mode : ScaleMode} {ratio : Ratio}
    (usable : Ratio.between natural natural mode = .ok ratio) (rendered : Size) :
    ∃ ratio, Ratio.between rendered natural mode = .ok ratio := by
  unfold Ratio.between at usable ⊢
  cases width : isUsable natural.width with
  | false => simp [width] at usable
  | true =>
    cases mode with
    | uniform => exact ⟨_,rfl⟩
    | perAxis =>
      cases height : isUsable natural.height with
      | false => simp [width,height] at usable
      | true => exact ⟨_,rfl⟩

theorem attach_of_unusable {natural : Size} {fault : ScaleFault} (loading : map.phase = .loading)
    (loaded : page.natural map.image = some natural)
    (unusable : Ratio.between natural natural map.options.scaleMode = .error fault) :
    map.attach page = ⟨map,page,.error (.scale fault)⟩ := by
  have refused := attachable_of_natural loading loaded
  rw [unusable] at refused
  unfold attach
  rw [refused]
  rfl

/-- A map whose layout passes succeed, whatever the layout. -/
structure CanPass (map : ImageMap) (page : Page) : Prop where
  attached : map.phase = .attached
  known : ∀ pin ∈ map.pins, (page.element? pin).isSome
  usable : ∃ natural ratio, page.natural map.image = some natural ∧
    Ratio.between natural natural map.options.scaleMode = .ok ratio

theorem CanPass.setViewport (can : map.CanPass page) (viewport : Size) :
    map.CanPass (page.setViewport viewport) :=
  ⟨can.attached,can.known,can.usable⟩

theorem CanPass.of_alike {other : Page} (can : map.CanPass page) (alike : page.LooksAlike other) :
    map.CanPass other := by
  obtain ⟨natural,ratio,loaded,usable⟩ := can.usable
  refine ⟨can.attached,fun pin member => ?_,natural,ratio,?_,usable⟩
  · rw [← alike.isSome_eq]
    exact can.known pin member
  · rw [← alike.natural_eq]
    exact loaded

theorem CanPass.exists_reposition (can : map.CanPass page) :
    ∃ ratio placed, map.ratio page = .ok ratio ∧
    map.reposition page = (.ok ⟨ratio,map.placements ratio⟩,placed) ∧
      page.LooksAlike placed := by
  obtain ⟨natural,_,loaded,usable⟩ := can.usable
  obtain ⟨ratio,between⟩ := between_isOk usable (page.renderedSize map.image)
  have found : map.ratio page = .ok ratio := by
    rw [ratio_of_natural loaded,between]
    rfl
  exact ⟨ratio,_,found,reposition_of_ratio can.attached found can.known,Page.putAll_looksAlike page _⟩

theorem CanPass.result_eq {other : Page} (can : map.CanPass page) (alike : page.LooksAlike other) :
    (map.reposition other).1 = (map.reposition page).1 := by
  obtain ⟨ratio,placed,found,pass,_⟩ := can.exists_reposition
  obtain ⟨ratio',placed',found',pass',_⟩ := (can.of_alike alike).exists_reposition
  have same := Except.ok.inj (found.symm.trans ((ratio_eq alike).trans found'))
  rw [pass,pass',same]

/-- One wrapped page serves every viewport: what the first pass then does depends on its layout alone. -/
theorem IsStaged.exists_attach (staged : map.IsStaged page) {natural : Size} {ratio : Ratio}
    (loaded : page.natural map.image = some natural)
    (usable : Ratio.between natural natural map.options.scaleMode = .ok ratio) :
    ∃ (attached : ImageMap) (wrapped : Page), attached.id = map.id ∧ attached.CanPass wrapped ∧
      ∀ viewport, map.attach (page.setViewport viewport) =
        ⟨attached,(attached.reposition (wrapped.setViewport viewport)).2,
          (attached.reposition (wrapped.setViewport viewport)).1⟩ := by
  obtain ⟨wrapped,wraps⟩ := staged.exists_wrap
  have natural_eq : wrapped.natural map.image = some natural :=
    (natural_wrap wraps map.image).trans ((Page.natural_create page "div" map.image).trans loaded)
  refine ⟨map.wrappedIn (page.create "div").1,wrapped,rfl,⟨rfl,wrap_known wraps,natural,ratio,natural_eq,usable⟩,
    fun viewport => ?_⟩
  have loaded : (page.setViewport viewport).natural map.image = some natural := loaded
  have ready : map.attachable (page.setViewport viewport) = .ok () := by
    rw [attachable_of_natural staged.loading loaded,usable]
    rfl
  exact attach_of_wrap ready (wrap_setViewport wraps viewport)

end PinnedMap.ImageMap
