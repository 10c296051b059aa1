import PinnedMap.Proofs.ImageMap.Life

/-! What it takes to fill a wrapper and hang it off its container. A map fits a page that knows its container and its
pins and on which the container is neither the image, nor a pin, nor inside one of them. Attaching finds out
about that only as it goes: a map that does not fit is refused after some of its elements were moved. -/
namespace PinnedMap

namespace Page

variable {page next : Page} {id other : ElementId}

/-- Every element of the page is still where it was, with the children and the styles that it had. -/
def LeavesTree (page next : Page) : Prop :=
  ∀ id, (page.element? id).isSome →
    next.parent id = page.parent id ∧ next.children id = page.children id ∧
      (next.element? id).map (·.styles) = (page.element? id).map (·.styles)

theorem LeavesTree.refl (page : Page) : page.LeavesTree page := fun _ _ => ⟨rfl,rfl,rfl⟩

private theorem reaches_self (page : Page) (id : ElementId) : page.reaches id id = true := by
  unfold reaches walkLimit
  rw [reachesWithin,if_pos rfl]
  rfl

private theorem hangsFrom_update {change : Element → Element}
    (same : ∀ element, (change element).parent = element.parent) (id : ElementId) :
    (page.update id change).HangsFrom = page.HangsFrom := by
  funext child parent
  rw [HangsFrom,parent_update same,HangsFrom]

private theorem hangsFrom_create (page : Page) (tag : String) : (page.create tag).2.HangsFrom = page.HangsFrom := by
  funext child parent
  rw [HangsFrom,parent_create,HangsFrom]

theorem IsForest.styled (forest : page.IsForest) (id : ElementId) (table : StyleTable) :
    (page.styled id table).IsForest :=
  forest.update id (fun _ => rfl) fun _ => rfl

theorem IsForest.append {parent child : ElementId} (forest : page.IsForest)
    (appended : page.append parent child = .ok next) : next.IsForest :=
  forest.on (.append parent child) appended

theorem holds_putAll {holds : Page → Prop} (styled : ∀ page id table, holds page → holds (page.styled id table))
    (places : List Placement) (before : holds page) : holds (page.putAll places) := by
  induction places generalizing page with
  | nil => exact before
  | cons place places ih => exact ih (styled page place.element _ before)

theorem IsForest.putAll (forest : page.IsForest) (places : List Placement) : (page.putAll places).IsForest :=
  holds_putAll (fun _ id table forest => forest.styled id table) places forest

end Page

namespace ImageMap

variable {map : ImageMap} {page next origin : Page} {wrapper item : ElementId} {items : List ElementId}

def contents (map : ImageMap) : List ElementId := map.image :: map.pins

/-- Whether everything is known, and the container is not in anything that goes into the wrapper. -/
def fits (map : ImageMap) (page : Page) : Bool :=
  (page.element? map.container).isSome && map.contents.all fun id =>
    (page.element? id).isSome && !page.reaches map.container id

/-- The way up from the container meets something that goes into the wrapper. -/
def IsInside (map : ImageMap) (page : Page) : Prop :=
  ∃ id ∈ map.contents, Relation.ReflTransGen page.HangsFrom map.container id

theorem fits_iff (forest : page.IsForest) :
    map.fits page = true ↔ (page.element? map.container).isSome ∧
      (∀ id ∈ map.contents, (page.element? id).isSome) ∧ ¬ map.IsInside page := by
  unfold fits IsInside
  simp only [Bool.and_eq_true,List.all_eq_true,Bool.not_eq_true',← Bool.not_eq_true,forest.reaches_iff]
  constructor
  · rintro ⟨container,each⟩
    exact ⟨container,fun id member => (each id member).1,fun ⟨id,member,inside⟩ => (each id member).2 inside⟩
  · rintro ⟨container,known,apart⟩
    exact ⟨container,fun id member => ⟨known id member,fun inside => apart ⟨id,member,inside⟩⟩⟩

/-- A wrapper that was new on a page is being filled: nothing but what belongs there is in it, and what is not in
it is still to come. Whether the container is inside is as it was. -/
structure Filling (map : ImageMap) (wrapper : ElementId) (origin : Page) (items : List ElementId)
    (page : Page) : Prop where
  forest : page.IsForest
  orphan : page.parent wrapper = none
  known : ∀ id, (page.element? id).isSome ↔ (origin.element? id).isSome ∨ id = wrapper
  ahead : items ⊆ map.contents
  only : ∀ id, page.parent id = some wrapper → id ∈ map.contents
  filled : ∀ id ∈ map.contents, id ∈ items ∨ page.parent id = some wrapper
  inside : map.IsInside page ↔ map.IsInside origin

theorem Filling.of_create (forest : origin.IsForest) :
    map.Filling (origin.create "div").1 origin map.contents (origin.create "div").2 := by
  refine ⟨forest.create "div",?_,fun id => ?_,fun _ member => member,fun id up => ?_,fun _ member => .inl member,?_⟩
  · rw [Page.parent_create,Page.parent,Page.element?_new]
    rfl
  · rw [Page.element?_create]
    split_ifs with new <;> simp [new]
  · rw [Page.parent_create] at up
    have known := forest.parent_known id _ up
    rw [Page.element?_new] at known
    cases known
  · unfold IsInside
    rw [Page.hangsFrom_create]

theorem Filling.update (filling : map.Filling wrapper origin items page) (id : ElementId)
    {change : Element → Element} (parents : ∀ element, (change element).parent = element.parent)
    (lists : ∀ element, (change element).children = element.children) :
    map.Filling wrapper origin items (page.update id change) := by
  refine ⟨filling.forest.update id parents lists,?_,fun other => ?_,filling.ahead,fun other up => ?_,
    fun other member => ?_,?_⟩
  · rw [Page.parent_update parents]
    exact filling.orphan
  · rw [Page.isSome_element?_update]
    exact filling.known other
  · rw [Page.parent_update parents] at up
    exact filling.only other up
  · rw [Page.parent_update parents]
    exact filling.filled other member
  · unfold IsInside
    rw [Page.hangsFrom_update parents]
    exact filling.inside

theorem Filling.wrapper_known (filling : map.Filling wrapper origin items page) :
    (page.element? wrapper).isSome :=
  (filling.known wrapper).mpr (.inr rfl)

theorem Filling.append (filling : map.Filling wrapper origin (item :: items) page)
    (appended : page.append wrapper item = .ok next) :
    map.Filling wrapper origin items next ∧ (origin.element? item).isSome ∧ next.parent item = some wrapper := by
  have forest := filling.forest.append appended
  obtain ⟨_,known,unreached,rfl⟩ := Page.append_eq_ok.mp appended
  have apart : wrapper ≠ item := by
    rintro rfl
    rw [Page.reaches_self] at unreached
    cases unreached
  have belongs : item ∈ map.contents := filling.ahead (List.mem_cons_self ..)
  have up (id : ElementId) : (page.hang wrapper item).parent id = if id = item then some wrapper else page.parent id :=
    Page.parent_hang known id
  refine ⟨⟨forest,?_,fun id => ?_,fun id member => filling.ahead (List.mem_cons_of_mem item member),fun id => ?_,
    fun id member => ?_,?_⟩,?_,?_⟩
  · rw [up,if_neg apart]
    exact filling.orphan
  · rw [Page.isSome_element?_hang]
    exact filling.known id
  · rw [up]
    split_ifs with here
    · exact fun _ => here ▸ belongs
    · exact filling.only id
  · rw [up]
    split_ifs with here
    · exact .inr rfl
    · exact (filling.filled id member).imp_left fun later => (List.mem_cons.mp later).resolve_left here
  -- Only the way up from the item is new, so a climb that is lost or gained goes by way of the item.
  · rw [← filling.inside]
    have old : ∀ low high, (page.hang wrapper item).HangsFrom low high → low ≠ item → page.HangsFrom low high := by
      intro low high step other
      rwa [Page.HangsFrom,up,if_neg other] at step
    have new : ∀ low high, page.HangsFrom low high → low ≠ item → (page.hang wrapper item).HangsFrom low high := by
      intro low high step other
      rwa [Page.HangsFrom,up,if_neg other]
    constructor
    · rintro ⟨id,member,climbed⟩
      rcases Page.reflTransGen_or_child old climbed with same | through
      · exact ⟨id,member,same⟩
      · exact ⟨item,belongs,through⟩
    · rintro ⟨id,member,climbed⟩
      rcases Page.reflTransGen_or_child new climbed with same | through
      · exact ⟨id,member,same⟩
      · exact ⟨item,belongs,through⟩
  · exact ((filling.known item).mp known).resolve_right apart.symm
  · rw [up,if_pos rfl]

theorem Filling.append_of_known (filling : map.Filling wrapper origin items page)
    (fresh : origin.element? wrapper = none) (known : (origin.element? item).isSome) :
    ∃ next, page.append wrapper item = .ok next := by
  have apart : wrapper ≠ item := by
    rintro rfl
    rw [fresh] at known
    cases known
  exact ⟨_,Page.append_eq_ok.mpr ⟨filling.wrapper_known,(filling.known item).mpr (.inl known),
    Page.reaches_of_orphan filling.orphan apart,rfl⟩⟩

/-- The full wrapper can be hung off the container if and only if the map fitted the page from which it was filled. -/
theorem Filling.append_container_iff (filling : map.Filling wrapper origin [] page) (forest : origin.IsForest)
    (fresh : origin.element? wrapper = none) :
    (∃ next, page.append map.container wrapper = .ok next) ↔ map.fits origin = true := by
  have hung (id : ElementId) (member : id ∈ map.contents) : page.parent id = some wrapper :=
    (filling.filled id member).resolve_left (List.not_mem_nil)
  rw [fits_iff forest,← filling.inside]
  constructor
  · rintro ⟨next,appended⟩
    obtain ⟨container,_,unreached,_⟩ := Page.append_eq_ok.mp appended
    have outside : ¬ Relation.ReflTransGen page.HangsFrom map.container wrapper := by
      rw [← filling.forest.reaches_iff,unreached]
      decide
    have old (id : ElementId) (known : (page.element? id).isSome) (apart : id ≠ wrapper) :
        (origin.element? id).isSome :=
      ((filling.known id).mp known).resolve_right apart
    refine ⟨old _ container ?_,fun id member => old id ?_ ?_,?_⟩
    · rintro same
      exact outside (same ▸ .refl)
    · obtain ⟨element,found,_⟩ := Page.parent_eq_some.mp (hung id member)
      rw [found]
      rfl
    · rintro rfl
      have loop := hung id member
      rw [filling.orphan] at loop
      cases loop
    · rintro ⟨id,member,climbed⟩
      exact outside (climbed.tail (hung id member))
  · rintro ⟨container,_,outside⟩
    have unreached : page.reaches map.container wrapper = false := by
      rw [← Bool.not_eq_true,filling.forest.reaches_iff]
      intro climbed
      rcases climbed.cases_tail with same | ⟨id,below,up⟩
      · rw [← same,fresh] at container
        cases container
      · exact outside ⟨id,filling.only id up,below⟩
    exact ⟨_,Page.append_eq_ok.mpr ⟨(filling.known _).mpr (.inl container),filling.wrapper_known,unreached,rfl⟩⟩

def Begun (map : ImageMap) (wrapper : ElementId) (origin : Page) (items : List ElementId) (page : Page) : Prop :=
  map.Filling wrapper origin items page ∧ ∃ id, (origin.element? id).isSome ∧ page.parent id = some wrapper

/-- Wrapping was refused after the wrapper had taken an element in. -/
structure Stopped (map : ImageMap) (wrapper : ElementId) (origin page : Page) : Prop where
  forest : page.IsForest
  orphan : page.parent wrapper = none
  unfit : map.fits origin = false
  taken : ∃ id, (origin.element? id).isSome ∧ page.parent id = some wrapper

private theorem leads_bindPin (forest : origin.IsForest) (fresh : origin.element? wrapper = none) (pin : ElementId)
    (pins : List ElementId) :
    Editing.Leads (bindPin wrapper pin) (map.Begun wrapper origin (pin :: pins))
      (fun _ => map.Begun wrapper origin pins) (map.Stopped wrapper origin) := by
  have moved : Editing.Leads (Editing.step (·.append wrapper pin)) (map.Begun wrapper origin (pin :: pins))
      (fun _ page => map.Filling wrapper origin pins page ∧ (origin.element? pin).isSome ∧
        page.parent pin = some wrapper)
      (map.Stopped wrapper origin) := by
    refine Editing.leads_step (fun page next ⟨filling,_⟩ appended => filling.append appended) ?_
    rintro page fault ⟨filling,taken⟩ failed
    refine ⟨filling.forest,filling.orphan,?_,taken⟩
    rw [← Bool.not_eq_true,fits_iff forest]
    rintro ⟨_,known,_⟩
    obtain ⟨next,appended⟩ := filling.append_of_known fresh (known pin (filling.ahead (List.mem_cons_self ..)))
    cases failed.symm.trans appended
  refine moved.bind fun _ => Editing.leads_step ?_ ?_
  · rintro page next ⟨filling,known,hung⟩ dressed
    obtain ⟨_,rfl⟩ := Page.setStyles_eq_ok.mp dressed
    refine ⟨filling.update pin (fun _ => rfl) fun _ => rfl,pin,known,?_⟩
    rw [Page.parent_styled]
    exact hung
  · rintro page fault ⟨filling,known,_⟩ failed
    have still := (filling.known pin).mpr (.inl known)
    cases failed.symm.trans (Page.setStyles_of_known still bindingStyles)

/-- Wrapping succeeds just for a map that fits, and else stops with the wrapper partly filled. -/
theorem leads_wrap (forest : origin.IsForest) (image : (origin.element? map.image).isSome) :
    Editing.Leads (map.wrap (origin.create "div").1) (· = (origin.create "div").2)
      (fun _ page => page.IsForest ∧ map.fits origin = true) (map.Stopped (origin.create "div").1 origin) := by
  have start : map.Filling (origin.create "div").1 origin map.contents (origin.create "div").2 := .of_create forest
  have fresh := Page.element?_new origin "div"
  generalize (origin.create "div").1 = wrapper at *
  generalize (origin.create "div").2 = grown at *
  -- Until the image goes in the wrapper is empty, and no step before that can be refused.
  let Empty (page : Page) := map.Filling wrapper origin map.contents page
  have named : Editing.Leads (Editing.step (·.setClass wrapper map.options.className)) (· = grown)
      (fun _ => Empty) (map.Stopped wrapper origin) := by
    refine Editing.leads_step ?_ ?_
    · rintro page next rfl done
      obtain ⟨_,rfl⟩ := Page.edit_eq_ok.mp done
      exact start.update wrapper (fun _ => rfl) fun _ => rfl
    · rintro page fault rfl failed
      cases failed.symm.trans (Page.edit_eq_ok.mpr ⟨start.wrapper_known,rfl⟩)
  have dressed : Editing.Leads (Editing.step (·.setStyles wrapper (wrapperStyles map.options.maxWidth))) Empty
      (fun _ => Empty) (map.Stopped wrapper origin) := by
    refine Editing.leads_step ?_ ?_
    · rintro page next filling done
      obtain ⟨_,rfl⟩ := Page.setStyles_eq_ok.mp done
      exact Filling.update filling wrapper (fun _ => rfl) fun _ => rfl
    · rintro page fault filling failed
      cases failed.symm.trans (Page.setStyles_of_known (Filling.wrapper_known filling) _)
  have framed : Editing.Leads (Editing.step (·.append wrapper map.image)) Empty
      (fun _ => map.Begun wrapper origin map.pins) (map.Stopped wrapper origin) := by
    refine Editing.leads_step ?_ ?_
    · intro page next filling appended
      obtain ⟨rest,hung⟩ := Filling.append filling appended
      exact ⟨rest,map.image,hung⟩
    · intro page fault filling failed
      obtain ⟨next,appended⟩ := Filling.append_of_known filling fresh image
      cases failed.symm.trans appended
  have pinned : Editing.Leads (map.pins.forM (bindPin wrapper)) (map.Begun wrapper origin map.pins)
      (fun _ => map.Begun wrapper origin []) (map.Stopped wrapper origin) :=
    Editing.leads_forM (leads_bindPin forest fresh) map.pins
  have hung : Editing.Leads (Editing.step (·.append map.container wrapper)) (map.Begun wrapper origin [])
      (fun _ page => page.IsForest ∧ map.fits origin = true) (map.Stopped wrapper origin) := by
    refine Editing.leads_step ?_ ?_
    · rintro page next ⟨filling,_⟩ appended
      exact ⟨filling.forest.append appended,(filling.append_container_iff forest fresh).mp ⟨next,appended⟩⟩
    · rintro page fault ⟨filling,taken⟩ failed
      refine ⟨filling.forest,filling.orphan,?_,taken⟩
      rw [← Bool.not_eq_true,← filling.append_container_iff forest fresh]
      rintro ⟨next,appended⟩
      cases failed.symm.trans appended
  exact named.bind fun _ => dressed.bind fun _ => framed.bind fun _ => pinned.bind fun _ => hung

theorem image_known_of_attachable {done : Unit} (ready : map.attachable page = .ok done) :
    (page.element? map.image).isSome := by
  obtain ⟨_,natural,_,loaded,_⟩ := attachable_eq_ok.mp ready
  rw [Page.natural] at loaded
  cases found : page.element? map.image with
  | none =>
    rw [found] at loaded
    cases loaded
  | some element => rfl

theorem attach_cases_of_isForest (map : ImageMap) (forest : page.IsForest) :
    (∃ fault, map.attachable page = .error fault ∧ map.attach page = ⟨map,page,.error fault⟩) ∨
      (∃ fault, map.attachable page = .ok () ∧ (map.attach page).result = .error fault ∧
        map.Stopped (page.create "div").1 page (map.attach page).page) ∨
      map.attachable page = .ok () ∧ map.fits page = true ∧ (map.attach page).page.IsForest ∧
        ∃ update, (map.attach page).result = .ok update := by
  rcases attach_cases map page with refused | ⟨ready,⟨fault,edited,stops,stopped⟩ | ⟨wrapped,ratio,wraps,attached⟩⟩
  · exact .inl refused
  · have led := leads_wrap forest (image_known_of_attachable ready) _ rfl
    rw [stops] at led
    rw [stopped]
    exact .inr (.inl ⟨fault,ready,rfl,led⟩)
  · have led := leads_wrap forest (image_known_of_attachable ready) _ rfl
    rw [wraps] at led
    obtain ⟨kept,fitting⟩ := led
    rw [attached]
    exact .inr (.inr ⟨ready,fitting,kept.putAll _,_,rfl⟩)

private theorem leads_reposition (map : ImageMap) {holds : Page → Prop}
    (keeps : ∀ page id table, holds page → holds (page.styled id table)) :
    Editing.Leads map.reposition holds (fun _ => holds) holds := by
  intro page before
  by_cases phase : map.phase = .attached
  · cases found : map.ratio page with
    | error fault =>
      rw [reposition_of_fault phase found]
      exact before
    | ok ratio =>
      let left (_ : List Placement) : Page → Prop := holds
      have placing (place : Placement) (places : List Placement) :
          Editing.Leads (Editing.step (·.setStyles place.element (placeStyles place.left place.top)))
            (left (place :: places)) (fun _ => left places) holds := by
        refine Editing.leads_step (fun page next holding done => ?_) fun page fault holding _ => holding
        obtain ⟨_,rfl⟩ := Page.setStyles_eq_ok.mp done
        exact keeps page _ _ holding
      have placed := (Editing.leads_forM placing (map.placements ratio)).bind fun _ =>
        Editing.leads_pure (Reposition.mk ratio (map.placements ratio)) fun _ => left []
      unfold reposition
      rw [if_neg (by simp [phase])]
      beta_reduce
      rw [Editing.get_bind_apply,Editing.bind_apply,Editing.liftExcept_apply,found]
      exact placed page before
  · rw [reposition_of_phase phase]
    exact before

theorem holds_reposition (map : ImageMap) (holds : Page → Prop)
    (keeps : ∀ page id table, holds page → holds (page.styled id table)) (before : holds page) :
    holds (map.reposition page).2 := by
  have led := leads_reposition map keeps page before
  cases pass : map.reposition page with
  | mk result next =>
    rw [pass] at led
    cases result <;> exact led

theorem isForest_attach (map : ImageMap) (forest : page.IsForest) : (map.attach page).page.IsForest := by
  rcases attach_cases_of_isForest map forest with ⟨_,_,refused⟩ | ⟨_,_,_,stopped⟩ | ⟨_,_,kept,_⟩
  · rw [refused]
    exact forest
  · exact stopped.forest
  · exact kept

theorem isForest_reposition (map : ImageMap) (forest : page.IsForest) : (map.reposition page).2.IsForest :=
  holds_reposition map Page.IsForest (fun _ id table forest => forest.styled id table) forest

theorem size_reposition (map : ImageMap) (page : Page) :
    (map.reposition page).2.elements.size = page.elements.size :=
  holds_reposition map (fun other => other.elements.size = page.elements.size)
    (fun _ _ _ same => (Page.size_update ..).trans same) rfl

theorem isForest_unhung (map : ImageMap) (forest : page.IsForest) : (map.unhung page).IsForest := by
  rcases unhung_cases map page with same | ⟨wrapper,_,same⟩
  · rwa [same]
  · rw [same]
    exact forest.unlink wrapper

theorem size_unhung (map : ImageMap) (page : Page) : (map.unhung page).elements.size = page.elements.size := by
  rcases unhung_cases map page with same | ⟨wrapper,_,same⟩
  · rw [same]
  · rw [same,Page.size_unlink]

theorem parent_unhung (own : map.wrapper = some wrapper) (page : Page) :
    (map.unhung page).parent wrapper ≠ some map.container := by
  unfold unhung
  rw [own]
  dsimp only
  split_ifs with hung
  · rw [Page.parent_unlink,if_pos rfl]
    nofun
  · exact hung

theorem Stopped.not_leavesTree {tag : String} (stopped : map.Stopped (page.create tag).1 page next)
    (forest : page.IsForest) : ¬ page.LeavesTree next := by
  intro same
  obtain ⟨id,known,hung⟩ := stopped.taken
  rw [(same id known).1] at hung
  have wrapper := forest.parent_known id _ hung
  rw [Page.element?_new] at wrapper
  cases wrapper

/-- Attaching succeeds for a map that is loading, can be scaled and fits, and for no other. -/
theorem attach_isOk_iff (map : ImageMap) (forest : page.IsForest) :
    (map.attach page).result.isOk = true ↔ map.attachable page = .ok () ∧ map.fits page = true := by
  rcases attach_cases_of_isForest map forest with
    ⟨_,unready,refused⟩ | ⟨_,_,failed,stopped⟩ | ⟨ready,fitting,_,_,attached⟩
  · rw [unready,refused]
    simp [Except.isOk,Except.toBool]
  · rw [failed,stopped.unfit]
    simp [Except.isOk,Except.toBool]
  · rw [attached]
    simp [Except.isOk,Except.toBool,ready,fitting]

/-- An attachment that fails leaves the page alone if the map fits. In general the tree is left alone just where
the image was found unusable before the first edit. -/
theorem leavesTree_of_refused (map : ImageMap) (forest : page.IsForest) {fault : MapFault}
    (failed : (map.attach page).result = .error fault) :
    (map.fits page = true → (map.attach page).page = page) ∧
      (page.LeavesTree (map.attach page).page ↔ map.attachable page ≠ .ok ()) := by
  rcases attach_cases_of_isForest map forest with ⟨_,unready,refused⟩ | ⟨_,ready,_,stopped⟩ | ⟨_,_,_,_,attached⟩
  · rw [refused,unready]
    exact ⟨fun _ => rfl,⟨fun _ => nofun,fun _ => .refl page⟩⟩
  · rw [ready]
    refine ⟨fun fitting => ?_,fun left => absurd left (stopped.not_leavesTree forest),fun unready => absurd rfl unready⟩
    rw [stopped.unfit] at fitting
    cases fitting
  · cases failed.symm.trans attached

/-- The image has no width. -/
theorem leavesTree_of_flat_image :
    let page := (Page.ofViewport ⟨800,600⟩).performAll
      [.create "div",.append Page.body ⟨1⟩,.create "button",.create "img",.resolveImage ⟨3⟩ ⟨0,50⟩]
    let map : ImageMap := ⟨⟨7⟩,⟨"plan.png",[⟨100,50,none⟩]⟩,{},[⟨2⟩],⟨1⟩,⟨3⟩,none,.loading⟩
    page.IsForest ∧ (map.attach page).result = .error (.scale (.unusableWidth 0)) ∧ map.fits page = true ∧
      (map.attach page).page = page ∧ page.LeavesTree (map.attach page).page := by
  intro page map
  have forest : page.IsForest := (Page.isForest_ofViewport ⟨800,600⟩).performAll _
  have failed : (map.attach page).result = .error (.scale (.unusableWidth 0)) := by decide +kernel
  have fitting : map.fits page = true := by decide +kernel
  have unready : map.attachable page ≠ .ok () := by decide +kernel
  obtain ⟨same,left⟩ := leavesTree_of_refused map forest failed
  exact ⟨forest,failed,fitting,same fitting,left.mpr unready⟩

/-- The second pin is the container: the image and both pins are in the new wrapper when that is found out. -/
theorem not_leavesTree_of_pinned_container :
    let page := (Page.ofViewport ⟨800,600⟩).performAll [.create "div",.append Page.body ⟨1⟩,.create "button"]
    let map : ImageMap :=
      ⟨⟨7⟩,⟨"plan.png",[⟨10,20,none⟩,⟨30,40,none⟩]⟩,{},[⟨2⟩,⟨1⟩],⟨1⟩,⟨3⟩,none,.loading⟩
    ∃ start, create page map.id map.plan map.pins map.container map.options = .ok (map,start) ∧
      let loaded := start.perform (.resolveImage map.image ⟨100,50⟩)
      (map.attach loaded).result = .error (.page (.ownSubtree ⟨4⟩ ⟨1⟩)) ∧
        loaded.parent ⟨1⟩ = some Page.body ∧ (map.attach loaded).page.parent ⟨1⟩ = some ⟨4⟩ ∧
        ¬ loaded.LeavesTree (map.attach loaded).page := by
  intro page map
  refine ⟨_,rfl,?_⟩
  intro loaded
  have before : loaded.parent ⟨1⟩ = some Page.body := by decide +kernel
  have after : (map.attach loaded).page.parent ⟨1⟩ = some ⟨4⟩ := by decide +kernel
  refine ⟨by decide +kernel,before,after,fun left => ?_⟩
  have same := (left ⟨1⟩ (by decide +kernel)).1
  rw [before,after] at same
  cases same

end ImageMap
end PinnedMap
