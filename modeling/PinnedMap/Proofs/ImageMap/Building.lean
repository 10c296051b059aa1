import PinnedMap.Proofs.ImageMap.Overwriting
import PinnedMap.Proofs.ImageMap.Placing
import PinnedMap.Proofs.Page.Gathering

/-! What attaching builds. The wrapper is new, it is the last child of the container, and it holds the image and the
pins; of everything else no more changes than that the image and the pins are gone from where they stood. -/
namespace PinnedMap

def Styles.bound (styles : Styles) : Styles :=
  (styles.set "position" "absolute").set "transform" "translate(-50%, -50%)"

theorem Styles.bound_bound (styles : Styles) : styles.bound.bound = styles.bound :=
  styles.set_pair_twice (by decide) ..

def Element.pinned (element : Element) (id wrapper : ElementId) (pins : List ElementId) : Element :=
  { element.gathered id wrapper pins with styles := if id ∈ pins then element.styles.bound else element.styles }

theorem Element.pinned_cons (element : Element) (id wrapper pin : ElementId) (pins : List ElementId) :
    (element.pinned id wrapper [pin]).pinned id wrapper pins = element.pinned id wrapper (pin :: pins) := by
  have places := element.gathered_cons id wrapper pin pins
  have styles : (if id ∈ pins then (if id ∈ [pin] then element.styles.bound else element.styles).bound
      else if id ∈ [pin] then element.styles.bound else element.styles) =
        if id ∈ pin :: pins then element.styles.bound else element.styles := by
    by_cases again : id ∈ pins <;> by_cases own : id = pin <;> simp [again,own,Styles.bound_bound]
  simp only [gathered,mk.injEq,true_and,and_true] at places
  simp only [pinned,gathered,mk.injEq,true_and,and_true]
  exact ⟨styles,places⟩

namespace ImageMap

variable {map : ImageMap} {page last : Page} {wrapper : ElementId}

private theorem element?_bindPin (forest : page.IsForest) {pin : ElementId} {done : Unit}
    (bound : bindPin wrapper pin page = (.ok done,last)) (id : ElementId) :
    last.element? id = (page.element? id).map (·.pinned id wrapper [pin]) := by
  obtain ⟨_,appended,rfl⟩ := bindPin_eq_ok.mp bound
  obtain ⟨_,_,_,rfl⟩ := Page.append_eq_ok.mp appended
  rw [Page.styled,Page.element?_update,forest.element?_hang]
  by_cases own : id = pin
  · rw [if_pos own,Option.map_map]
    congr 1
    funext element
    simp [Element.pinned,own,Styles.bound,bindingStyles,StyleValue.written,Element.gathered]
  · rw [if_neg own]
    congr 1
    funext element
    simp [Element.pinned,own,Element.gathered]

private theorem isForest_bindPin (forest : page.IsForest) {pin : ElementId} {done : Unit}
    (bound : bindPin wrapper pin page = (.ok done,last)) : last.IsForest := by
  obtain ⟨_,appended,rfl⟩ := bindPin_eq_ok.mp bound
  exact (forest.append appended).styled pin _

private theorem element?_forM_bindPin (forest : page.IsForest) {pins : List ElementId} {done : Unit}
    (bound : pins.forM (bindPin wrapper) page = (.ok done,last)) :
    last.IsForest ∧ ∀ id, last.element? id = (page.element? id).map (·.pinned id wrapper pins) := by
  induction pins generalizing page with
  | nil =>
    cases bound
    refine ⟨forest,fun id => ?_⟩
    simp [Element.pinned,Element.gathered_nil]
  | cons pin pins ih =>
    obtain ⟨next,head,rest⟩ := Editing.forM_cons_eq_ok.mp bound
    obtain ⟨kept,elements⟩ := ih (isForest_bindPin forest head) rest
    refine ⟨kept,fun id => ?_⟩
    rw [elements,element?_bindPin forest head,Option.map_map]
    congr 1
    funext element
    exact element.pinned_cons id wrapper pin pins

def layer (map : ImageMap) : Element :=
  { tag := "div"
    className := map.options.className
    styles := ⟨(wrapperStyles map.options.maxWidth).map fun (property,value) => (property,value.written)⟩
    parent := some map.container
    children := map.contents.dedup }

/-- What becomes of an element when a map is built around its wrapper. -/
def around (map : ImageMap) (id wrapper : ElementId) (element : Element) : Element :=
  { element with
    parent := if id ∈ map.contents then some wrapper else element.parent
    children := element.children.filter (· ∉ map.contents) ++ if id = map.container then [wrapper] else []
    styles := if id ∈ map.pins then element.styles.bound else element.styles }

private theorem around_eq (map : ImageMap) {id wrapper : ElementId} (element : Element) (apart : id ≠ wrapper)
    (fresh : wrapper ∉ element.children) :
    ((element.gathered id wrapper [map.image]).pinned id wrapper map.pins).gathered id map.container [wrapper] =
      map.around id wrapper element := by
  have places := element.gathered_cons id wrapper map.image map.pins
  simp only [Element.gathered,if_neg apart,List.append_nil,Element.mk.injEq,true_and,and_true] at places
  have stay : (element.children.filter (· ∉ map.contents)).filter (· ∉ [wrapper]) =
      element.children.filter (· ∉ map.contents) := by
    refine filter_notMem_of_disjoint fun item member listed => fresh ?_
    exact List.mem_singleton.mp member ▸ List.mem_of_mem_filter listed
  simp only [Element.pinned,Element.gathered,around,if_neg apart,List.append_nil,places,Element.mk.injEq,true_and,
    and_true]
  refine ⟨if_neg (by simpa using apart),?_⟩
  exact congrArg₂ _ stay (by simp)

private theorem layer_eq (map : ImageMap) {wrapper : ElementId} (fresh : wrapper ∉ map.contents)
    (apart : wrapper ≠ map.container) :
    ((({ map.layer with parent := none, children := [] } : Element).gathered wrapper wrapper [map.image]).pinned wrapper
      wrapper map.pins).gathered wrapper map.container [wrapper] = map.layer := by
  have places := ({ map.layer with parent := none, children := [] } : Element).gathered_cons wrapper wrapper map.image
    map.pins
  simp only [Element.gathered,if_true,List.filter_nil,List.nil_append,Element.mk.injEq,true_and,and_true] at places
  have stay : map.contents.dedup.filter (· ∉ [wrapper]) = map.contents.dedup := by
    refine filter_notMem_of_disjoint fun item member listed => fresh ?_
    exact List.mem_singleton.mp member ▸ List.mem_dedup.mp listed
  have unbound : wrapper ∉ map.pins := fun member => fresh (List.mem_cons_of_mem _ member)
  simp only [Element.pinned,Element.gathered,if_neg unbound,if_neg apart,if_true,List.filter_nil,List.nil_append,places]
  simp only [layer,Element.mk.injEq,true_and,and_true]
  exact ⟨if_pos (List.mem_singleton_self wrapper),(List.append_nil _).trans stay⟩

theorem element?_wrap (forest : page.IsForest) (container : (page.element? map.container).isSome)
    (known : ∀ id ∈ map.contents, (page.element? id).isSome) {done : Unit}
    (wraps : map.wrap (page.create "div").1 (page.create "div").2 = (.ok done,last)) (id : ElementId) :
    last.element? id = if id = (page.create "div").1 then some map.layer
      else (page.element? id).map (map.around id (page.create "div").1) := by
  have fresh := Page.element?_new page "div"
  have grown := forest.create "div"
  have elements := Page.element?_create page "div"
  generalize (page.create "div").1 = wrapper at *
  generalize (page.create "div").2 = start at *
  obtain ⟨named,dressed,filled,pinned,first,second,third,fourth,fifth⟩ := wrap_eq_ok.mp wraps
  have outside (id : ElementId) (known : (page.element? id).isSome) : wrapper ≠ id := by
    rintro rfl
    rw [fresh] at known
    cases known
  have empty : dressed.IsForest ∧ ∀ id, dressed.element? id =
      if id = wrapper then some { map.layer with parent := none, children := [] } else page.element? id := by
    obtain ⟨_,rfl⟩ := Page.edit_eq_ok.mp first
    obtain ⟨_,rfl⟩ := Page.setStyles_eq_ok.mp second
    refine ⟨(grown.update wrapper ?_ ?_).styled wrapper _,fun id => ?_⟩
    · exact fun _ => rfl
    · exact fun _ => rfl
    · rw [Page.styled,Page.element?_update,Page.element?_update,elements]
      split_ifs
      · have tag : (Element.ofTag "div").tag = "div" := rfl
        simp only [Option.map_some,tag]
        simp [layer,Element.ofTag,wrapperStyles,Styles.set]
      · rfl
  obtain ⟨dressedForest,elements⟩ := empty
  have filledForest := dressedForest.append third
  obtain ⟨_,_,_,rfl⟩ := Page.append_eq_ok.mp third
  obtain ⟨pinnedForest,bound⟩ := element?_forM_bindPin filledForest fourth
  obtain ⟨_,_,_,rfl⟩ := Page.append_eq_ok.mp fifth
  rw [pinnedForest.element?_hang,bound,dressedForest.element?_hang,elements]
  split_ifs with new
  · subst new
    exact congrArg some (map.layer_eq (fun member => outside id (known id member) rfl) (outside _ container))
  · cases found : page.element? id with
    | none => rfl
    | some element =>
      refine congrArg some (map.around_eq element new fun listed => ?_)
      have lists : page.children id = element.children := by simp [Page.children,found]
      exact outside wrapper (forest.child_known id wrapper (lists ▸ listed)) rfl

private theorem size_wrap {done : Unit} (wraps : map.wrap wrapper page = (.ok done,last)) :
    last.elements.size = page.elements.size := by
  obtain ⟨named,dressed,filled,pinned,first,second,third,fourth,fifth⟩ := wrap_eq_ok.mp wraps
  obtain ⟨_,rfl⟩ := Page.edit_eq_ok.mp first
  obtain ⟨_,rfl⟩ := Page.setStyles_eq_ok.mp second
  obtain ⟨_,_,_,rfl⟩ := Page.append_eq_ok.mp third
  obtain ⟨_,_,_,rfl⟩ := Page.append_eq_ok.mp fifth
  rw [Page.size_hang,(forM_bindPin_known fourth).1,Page.size_hang,Page.styled,Page.size_update,Page.size_update]

private theorem isKept_viewport (viewport : Size) : Page.IsKept (·.viewport = viewport) :=
  ⟨fun _ _ _ _ _ same => same,fun page parent child same => (Page.viewport_hang page parent child).trans same,
    fun page child same => (Page.viewport_unlink page child).trans same,fun _ _ same => same⟩

private theorem attachable_iff : map.attachable page = .ok () ↔ map.phase = .loading ∧ ∃ natural,
    page.natural map.image = some natural ∧ isUsable natural.width = true ∧
      (map.options.scaleMode = .perAxis → isUsable natural.height = true) := by
  rw [attachable_eq_ok]
  refine and_congr_right fun _ => exists_congr fun natural => ?_
  constructor
  · rintro ⟨ratio,loaded,between⟩
    obtain ⟨width,height,_⟩ := Ratio.between_eq_ok.mp between
    exact ⟨loaded,width,height⟩
  · rintro ⟨loaded,width,height⟩
    exact ⟨⟨_,_⟩,loaded,Ratio.between_eq_ok.mpr ⟨width,height,rfl,rfl⟩⟩

private theorem written_bound (place : Placement) (styles : Styles) (property : String) :
    (place.written property).or (styles.bound.get? property) =
      (((bindingStyles ++ placeStyles place.left place.top).lookup property).map (·.written)).or
        (styles.get? property) := by
  rw [Styles.bound,Styles.get?_set,Styles.get?_set]
  by_cases left : property = "left"
  · subst left
    rfl
  by_cases top : property = "top"
  · subst top
    rfl
  by_cases position : property = "position"
  · subst position
    rfl
  by_cases transform : property = "transform"
  · subst transform
    rfl
  have absent : (bindingStyles ++ placeStyles place.left place.top).lookup property = none :=
    List.lookup_eq_none_iff.mpr (by simp [bindingStyles,placeStyles,left,top,position,transform])
  rw [absent,if_neg transform,if_neg position,Placement.written,if_neg left,if_neg top]
  rfl

/-- What attaching makes of a page, and what it tells of that. -/
structure IsBuilt (map : ImageMap) (page : Page) (wrapper : ElementId) (update : Reposition) (next : Page) : Prop where
  size : next.elements.size = page.elements.size + 1
  viewport : next.viewport = page.viewport
  layer : next.element? wrapper = some
    { tag := "div"
      className := map.options.className
      styles := ⟨(wrapperStyles map.options.maxWidth).map fun (property,value) => (property,value.written)⟩
      parent := some map.container
      children := map.image :: map.pins.dedup }
  hung : next.children map.container = (page.children map.container).filter (· ∉ map.contents) ++ [wrapper]
  parent : ∀ id, (page.element? id).isSome →
    next.parent id = if id ∈ map.contents then some wrapper else page.parent id
  children : ∀ id, (page.element? id).isSome → id ≠ map.container →
    next.children id = (page.children id).filter (· ∉ map.contents)
  bound : ∀ pin ∈ map.pins, ∃ earlier place later, update.placements = earlier ++ place :: later ∧
    place.element = pin ∧ (∀ other ∈ later, other.element ≠ pin) ∧ ∀ property, next.style pin property =
      (((bindingStyles ++ placeStyles place.left place.top).lookup property).map (·.written)).or
        (page.style pin property)
  kept : ∀ id element, page.element? id = some element → ∃ parent children styles,
    next.element? id = some { element with parent, children, styles } ∧ (id ∉ map.pins → styles = element.styles)
  untouched : ∀ id element, page.element? id = some element → id ∉ map.contents → id ≠ map.container →
    (∀ item ∈ map.contents, page.parent item ≠ some id) → next.element? id = some element
  settled : (map.wrappedIn wrapper).reposition next = (.ok update,next)

/-- The first pass writes styles of pins, and all else is as wrapping has left it. -/
theorem elements_of_attach (forest : page.IsForest) {update : Reposition}
    (attached : (map.attach page).result = .ok update) :
    (map.attach page).page.element? (page.create "div").1 = some map.layer ∧
      ∀ id element, page.element? id = some element → ∃ styles,
        (map.attach page).page.element? id = some { map.around id (page.create "div").1 element with styles } ∧
          (id ∉ map.pins → styles = element.styles) := by
  obtain ⟨container,known,_⟩ := (fits_iff forest).mp ((attach_isOk_iff map forest).mp (by rw [attached]; rfl)).2
  obtain ⟨wrapped,wraps,_,placed⟩ := attach_eq_ok attached
  obtain ⟨told,written⟩ := reposition_eq_ok placed
  have elements := element?_wrap forest container known wraps
  have moved : wrapped.MovesOnly map.pins (map.attach page).page := by
    rw [written,told]
    exact Page.movesOnly_putAll wrapped fun place member => element_mem_pins member
  have fresh (id : ElementId) (known : (page.element? id).isSome) : id ≠ (page.create "div").1 :=
    Page.ne_new_of_known known "div"
  constructor
  · have unpinned : (page.create "div").1 ∉ map.pins := fun member =>
      fresh _ (known _ (List.mem_cons_of_mem _ member)) rfl
    rw [moved.others _ unpinned,elements,if_pos rfl]
  · intro id element found
    have before : wrapped.element? id = some (map.around id (page.create "div").1 element) := by
      rw [elements,if_neg (fresh id (by rw [found]; rfl)),found]
      rfl
    by_cases pin : id ∈ map.pins
    · obtain ⟨styles,after,_⟩ := moved.moved id pin _ before
      exact ⟨styles,after,fun other => absurd pin other⟩
    · refine ⟨element.styles,(moved.others id pin).trans (before.trans ?_),fun _ => rfl⟩
      simp [around,pin]

theorem parent_of_attach (forest : page.IsForest) {update : Reposition}
    (attached : (map.attach page).result = .ok update) {id : ElementId} (known : (page.element? id).isSome) :
    (map.attach page).page.parent id = if id ∈ map.contents then some (page.create "div").1 else page.parent id := by
  obtain ⟨element,found⟩ := Option.isSome_iff_exists.mp known
  obtain ⟨styles,after,_⟩ := (elements_of_attach forest attached).2 id element found
  simp [Page.parent,found,after,around]

theorem children_of_attach (forest : page.IsForest) {update : Reposition}
    (attached : (map.attach page).result = .ok update) {id : ElementId} (known : (page.element? id).isSome) :
    (map.attach page).page.children id = (page.children id).filter (· ∉ map.contents) ++
      if id = map.container then [(page.create "div").1] else [] := by
  obtain ⟨element,found⟩ := Option.isSome_iff_exists.mp known
  obtain ⟨styles,after,_⟩ := (elements_of_attach forest attached).2 id element found
  simp [Page.children,found,after,around]

private theorem style_of_attach (forest : page.IsForest) (paired : map.plan.gates.length = map.pins.length)
    {update : Reposition} (attached : (map.attach page).result = .ok update) {pin : ElementId} (member : pin ∈ map.pins) :
    ∃ earlier place later, update.placements = earlier ++ place :: later ∧ place.element = pin ∧
      (∀ other ∈ later, other.element ≠ pin) ∧ ∀ property, (map.attach page).page.style pin property =
        (((bindingStyles ++ placeStyles place.left place.top).lookup property).map (·.written)).or
          (page.style pin property) := by
  obtain ⟨container,known,_⟩ := (fits_iff forest).mp ((attach_isOk_iff map forest).mp (by rw [attached]; rfl)).2
  obtain ⟨wrapped,wraps,_,placed⟩ := attach_eq_ok attached
  obtain ⟨(told : update.placements = map.placements update.ratio),written⟩ := reposition_eq_ok placed
  obtain ⟨earlier,place,later,parts,own,others,last⟩ := exists_last_placement update.ratio paired member
  refine ⟨earlier,place,later,told.trans parts,own,others,fun property => ?_⟩
  have before := known pin (List.mem_cons_of_mem _ member)
  obtain ⟨element,found⟩ := Option.isSome_iff_exists.mp before
  have plain : page.style pin property = element.styles.get? property := by rw [Page.style,found]; rfl
  have dressed : wrapped.style pin property = element.styles.bound.get? property := by
    rw [Page.style,element?_wrap forest container known wraps,if_neg (Page.ne_new_of_known before "div"),found]
    simp [around,member]
  rw [written,told,Page.style_putAll (wrap_known wraps pin member),last,dressed,plain]
  exact written_bound place element.styles property

private theorem isBuilt_of_attach (forest : page.IsForest) (paired : map.plan.gates.length = map.pins.length)
    (apart : map.image ∉ map.pins) {update : Reposition} (attached : (map.attach page).result = .ok update) :
    map.IsBuilt page (page.create "div").1 update (map.attach page).page := by
  have container := ((fits_iff forest).mp ((attach_isOk_iff map forest).mp (by rw [attached]; rfl)).2).1
  obtain ⟨wrapped,wraps,_,placed⟩ := attach_eq_ok attached
  obtain ⟨layer,others⟩ := elements_of_attach forest attached
  have viewport := (isKept_viewport page.viewport).attach map rfl
  have size := size_reposition (map.wrappedIn (page.create "div").1) wrapped
  rw [placed,size_wrap wraps,Page.size_create] at size
  have distinct : map.contents.dedup = map.image :: map.pins.dedup := List.dedup_cons_of_notMem apart
  refine ⟨size,viewport,?_,?_,fun id known => parent_of_attach forest attached known,fun id known other => ?_,
    fun pin member => style_of_attach forest paired attached member,fun id element found => ?_,
    fun id element found outside other empty => ?_,?_⟩
  · rw [layer,ImageMap.layer,distinct]
  · rw [children_of_attach forest attached container,if_pos rfl]
  · rw [children_of_attach forest attached known,if_neg other,List.append_nil]
  · obtain ⟨styles,after,same⟩ := others id element found
    exact ⟨_,_,styles,after,same⟩
  · obtain ⟨styles,after,same⟩ := others id element found
    have lists : page.children id = element.children := by simp [Page.children,found]
    have stay : element.children.filter (· ∉ map.contents) = element.children :=
      filter_notMem_of_disjoint fun item member => lists ▸ forest.not_mem_children (empty item member)
    rw [after,same fun pin => outside (List.mem_cons_of_mem _ pin)]
    simp only [around,stay,if_neg outside,if_neg other,List.append_nil]
  · have again := reposition_reposition (map.wrappedIn (page.create "div").1) wrapped
    rwa [placed] at again

/-- Attaching succeeds just where the image has a size that can be divided by and the container is not inside anything
that goes into the wrapper. What it then builds is one layer, and it moves nothing but the image and the pins. -/
theorem attach_builds (forest : page.IsForest) (loading : map.phase = .loading)
    (paired : map.plan.gates.length = map.pins.length) (container : (page.element? map.container).isSome)
    (pins : ∀ pin ∈ map.pins, (page.element? pin).isSome) (apart : map.image ∉ map.pins) :
    ((map.attach page).result.isOk = true ↔
        (∃ natural, page.natural map.image = some natural ∧ isUsable natural.width = true ∧
          (map.options.scaleMode = .perAxis → isUsable natural.height = true)) ∧
        ∀ id ∈ map.image :: map.pins, ¬ Relation.ReflTransGen page.HangsFrom map.container id) ∧
      ∀ update, (map.attach page).result = .ok update →
        (map.attach page).map = map.wrappedIn (page.create "div").1 ∧
          map.IsBuilt page (page.create "div").1 update (map.attach page).page := by
  refine ⟨?_,fun update attached => ⟨?_,isBuilt_of_attach forest paired apart attached⟩⟩
  · rw [attach_isOk_iff map forest,attachable_iff,fits_iff forest]
    constructor
    · rintro ⟨⟨_,usable⟩,_,_,outside⟩
      exact ⟨usable,fun id member inside => outside ⟨id,member,inside⟩⟩
    · rintro ⟨usable,outside⟩
      have image := image_known_of_attachable (attachable_iff.mpr ⟨loading,usable⟩)
      refine ⟨⟨loading,usable⟩,container,List.forall_mem_cons.mpr ⟨image,pins⟩,?_⟩
      exact fun ⟨id,member,inside⟩ => outside id member inside
  · obtain ⟨_,_,own,_⟩ := attach_eq_ok attached
    exact own

/-- One pin is in the other, both are in the container, and one of them is bound to two gates. -/
theorem attach_builds_nested :
    let page := (Page.ofViewport ⟨800,600⟩).performAll [.create "div",.append Page.body ⟨1⟩,.create "button",
      .append ⟨1⟩ ⟨2⟩,.create "span",.append ⟨2⟩ ⟨3⟩,.create "p",.append ⟨1⟩ ⟨4⟩,.create "img",
      .resolveImage ⟨5⟩ ⟨1000,500⟩]
    let gates : List Gate := [⟨100,50,none⟩,⟨20,30,none⟩,⟨300,400,none⟩]
    let map : ImageMap := ⟨⟨7⟩,⟨"plan.png",gates⟩,{},[⟨3⟩,⟨2⟩,⟨3⟩],⟨1⟩,⟨5⟩,none,.loading⟩
    ∃ update next, map.attach page = ⟨map.wrappedIn ⟨6⟩,next,.ok update⟩ ∧ map.IsBuilt page ⟨6⟩ update next ∧
      next.children ⟨1⟩ = [⟨4⟩,⟨6⟩] ∧ next.children ⟨6⟩ = [⟨5⟩,⟨2⟩,⟨3⟩] ∧ next.children ⟨2⟩ = [] ∧
      next.style ⟨3⟩ "left" = some "240px" := by
  intro page gates map
  have forest : page.IsForest := (Page.isForest_ofViewport ⟨800,600⟩).performAll _
  have outside : ∀ id ∈ map.image :: map.pins, ¬ Relation.ReflTransGen page.HangsFrom map.container id := by
    intro id member inside
    have unreached : ∀ id ∈ map.image :: map.pins, page.reaches map.container id = false := by decide +kernel
    cases (forest.reaches_iff.mpr inside).symm.trans (unreached id member)
  obtain ⟨succeeds,built⟩ := @attach_builds map page forest rfl rfl (by decide +kernel) (by decide +kernel)
    (by decide +kernel)
  have done := succeeds.mpr ⟨⟨⟨1000,500⟩,by decide +kernel,by decide +kernel,nofun⟩,outside⟩
  cases result : (map.attach page).result with
  | error fault =>
    rw [result] at done
    cases done
  | ok update =>
    obtain ⟨(own : (map.attach page).map = map.wrappedIn ⟨6⟩),layer⟩ := built update result
    refine ⟨update,(map.attach page).page,?_,layer,by decide +kernel,by decide +kernel,by decide +kernel,by decide +kernel⟩
    rw [← result,← own]

end ImageMap
end PinnedMap
