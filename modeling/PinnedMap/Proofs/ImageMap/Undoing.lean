import PinnedMap.Proofs.ImageMap.Building
import PinnedMap.Proofs.ImageMap.Sizing

/-! What detaching takes back. The wrapper goes as it came, with everything that is in it, so that the container and all
else are as if the pins had been taken out one by one. Between the two any number of calls may have been made, as long
as none of them moves an element. -/
namespace PinnedMap

namespace Page

variable {page next last : Page}

/-- Every element has the parent and the children that it has on the other page. -/
structure SameTree (page next : Page) : Prop where
  parent : ∀ id, next.parent id = page.parent id
  children : ∀ id, next.children id = page.children id

theorem SameTree.refl (page : Page) : page.SameTree page := ⟨fun _ => rfl,fun _ => rfl⟩

theorem SameTree.trans (first : page.SameTree next) (second : next.SameTree last) : page.SameTree last :=
  ⟨fun id => (second.parent id).trans (first.parent id),fun id => (second.children id).trans (first.children id)⟩

private theorem sameTree_update (page : Page) (id : ElementId) {change : Element → Element}
    (parents : ∀ element, (change element).parent = element.parent)
    (lists : ∀ element, (change element).children = element.children) : page.SameTree (page.update id change) :=
  ⟨parent_update parents id,children_update lists id⟩

private theorem sameTree_create (page : Page) (tag : String) : page.SameTree (page.create tag).2 :=
  ⟨parent_create page tag,children_create page tag⟩

def Operation.keepsTree : Operation → Bool
  | .append _ _ | .remove _ _ => false
  | .create _ | .setStyle _ _ _ | .setClass _ _ | .setSource _ _ | .resolveImage _ _ | .setViewport _ => true

private theorem sameTree_perform (page : Page) {operation : Operation} (keeps : operation.keepsTree = true) :
    page.SameTree (page.perform operation) := by
  unfold perform
  cases done : operation.on page with
  | error fault => exact .refl page
  | ok next =>
    cases operation with
    | create tag =>
      obtain rfl := Except.ok.inj done
      exact sameTree_create page tag
    | setStyle id property text =>
      obtain ⟨_,rfl⟩ := edit_eq_ok.mp done
      exact sameTree_update page id (fun _ => rfl) fun _ => rfl
    | setClass id name =>
      obtain ⟨_,rfl⟩ := edit_eq_ok.mp done
      exact sameTree_update page id (fun _ => rfl) fun _ => rfl
    | setSource id url =>
      obtain ⟨_,rfl⟩ := edit_eq_ok.mp done
      exact sameTree_update page id (fun _ => rfl) fun _ => rfl
    | resolveImage id size =>
      obtain ⟨_,rfl⟩ := resolveImage_eq_ok.mp done
      exact sameTree_update page id (fun _ => rfl) fun _ => rfl
    | setViewport viewport =>
      obtain rfl := Except.ok.inj done
      exact ⟨fun _ => rfl,fun _ => rfl⟩
    | append => cases keeps
    | remove => cases keeps

end Page

namespace ImageMap

variable {map : ImageMap} {page last : Page} {wrapper : ElementId}

private theorem sameTree_reposition (map : ImageMap) (page : Page) : page.SameTree (map.reposition page).2 :=
  holds_reposition map page.SameTree
    (fun other id _ same => same.trans (Page.sameTree_update other id (fun _ => rfl) fun _ => rfl)) (.refl page)

namespace Life

variable {life : Life}

def Call.keepsTree : Call → Bool
  | .reposition | .markFailed => true
  | .edit operation => operation.keepsTree
  | .attach | .detach => false

private theorem sameTree_after (life : Life) {call : Call} (keeps : call.keepsTree = true) :
    life.page.SameTree (life.after call).page := by
  cases call with
  | reposition => exact sameTree_reposition life.map life.page
  | markFailed => exact .refl life.page
  | edit operation => exact Page.sameTree_perform life.page keeps
  | attach => cases keeps
  | detach => cases keeps

private theorem map_after_of_attached (attached : life.map.phase = .attached) {call : Call}
    (keeps : call.keepsTree = true) : (life.after call).map = life.map := by
  cases call with
  | reposition | edit => rfl
  | markFailed =>
    unfold after markFailed
    rw [attached]
    rfl
  | attach => cases keeps
  | detach => cases keeps

/-- An attached map and the tree are as they were after any number of such calls. -/
theorem sameTree_afterAll (attached : life.map.phase = .attached) {calls : List Call}
    (keep : ∀ call ∈ calls, call.keepsTree = true) :
    (life.afterAll calls).map = life.map ∧ life.page.SameTree (life.afterAll calls).page := by
  induction calls generalizing life with
  | nil => exact ⟨rfl,.refl life.page⟩
  | cons call calls ih =>
    have first := keep call (List.mem_cons_self ..)
    have own := map_after_of_attached attached first
    obtain ⟨own',same⟩ := ih (own ▸ attached) fun other member => keep other (List.mem_cons_of_mem call member)
    exact ⟨own'.trans own,(sameTree_after life first).trans same⟩

end Life

/-- What is left of an attachment when the map is detached. -/
structure IsUndone (map : ImageMap) (page : Page) (wrapper : ElementId) (last : Page) : Prop where
  parent : ∀ id, (page.element? id).isSome → id ∉ map.contents → last.parent id = page.parent id
  children : ∀ id, (page.element? id).isSome → last.children id = (page.children id).filter (· ∉ map.pins)
  untouched : ∀ id, (page.element? id).isSome → id ∉ map.contents →
    (∀ pin ∈ map.pins, page.parent pin ≠ some id) →
      last.parent id = page.parent id ∧ last.children id = page.children id
  orphan : last.parent wrapper = none
  layer : last.children wrapper = map.image :: map.pins
  held : ∀ id ∈ map.contents, last.parent id = some wrapper
  away : ∀ id ∈ wrapper :: map.contents, last.isConnected id = false

private theorem isUndone_of_attach (forest : page.IsForest) (body : (page.element? Page.body).isSome)
    (orphan : page.parent map.image = none) (distinct : map.contents.Nodup) (apart : Page.body ∉ map.contents)
    {update : Reposition} (attached : (map.attach page).result = .ok update) {still : Page}
    (same : (map.attach page).page.SameTree still) (stillForest : still.IsForest) :
    map.IsUndone page (page.create "div").1 ((map.wrappedIn (page.create "div").1).unhung still) := by
  have parents (id : ElementId) (known : (page.element? id).isSome) := parent_of_attach forest attached known
  have lists (id : ElementId) (known : (page.element? id).isSome) := children_of_attach forest attached known
  obtain ⟨container,known,_⟩ := (fits_iff forest).mp ((attach_isOk_iff map forest).mp (by rw [attached]; rfl)).2
  obtain ⟨layer,_⟩ := elements_of_attach forest attached
  have lastForest := isForest_unhung (map.wrappedIn (page.create "div").1) stillForest
  have fresh (id : ElementId) (known : (page.element? id).isSome) : id ≠ (page.create "div").1 :=
    Page.ne_new_of_known known "div"
  generalize (page.create "div").1 = wrapper at *
  generalize (map.attach page).page = next at *
  have hung : still.parent wrapper = some map.container := by
    rw [same.parent,Page.parent,layer]
    rfl
  have last : (map.wrappedIn wrapper).unhung still = still.unlink wrapper := if_pos hung
  rw [last] at lastForest ⊢
  have parent (id : ElementId) (known : (page.element? id).isSome) :
      (still.unlink wrapper).parent id = if id ∈ map.contents then some wrapper else page.parent id := by
    rw [Page.parent_unlink,if_neg (fresh id known),same.parent,parents id known]
  have removed : (still.unlink wrapper).parent wrapper = none := by
    rw [Page.parent_unlink,if_pos rfl]
  have children (id : ElementId) (known : (page.element? id).isSome) :
      (still.unlink wrapper).children id = (page.children id).filter (· ∉ map.pins) := by
    have bare : (page.children id).filter (· ∉ map.contents) = (page.children id).filter (· ∉ map.pins) := by
      refine List.filter_congr fun child member => ?_
      have other : child ≠ map.image := by
        rintro rfl
        cases orphan.symm.trans ((forest.parent_iff map.image id).mpr member)
      simp [contents,other]
    have old : ((page.children id).filter (· ∉ map.pins)).filter (· != wrapper) = (page.children id).filter (· ∉ map.pins) :=
      List.filter_eq_self.mpr fun child member => by
        simpa using fresh child (forest.child_known id child (List.mem_of_mem_filter member))
    rw [Page.children_unlink,hung,same.children,lists id known,bare]
    by_cases here : id = map.container
    · rw [if_pos (congrArg some here.symm),if_pos here,List.filter_append,old]
      simp
    · rw [if_neg fun own => here (Option.some.inj own).symm,if_neg here,List.append_nil]
  refine ⟨fun id known outside => ?_,children,fun id known outside empty => ⟨?_,?_⟩,removed,?_,fun id member => ?_,?_⟩
  · rw [parent id known,if_neg outside]
  · rw [parent id known,if_neg outside]
  · rw [children id known]
    exact filter_notMem_of_disjoint fun pin member => forest.not_mem_children (empty pin member)
  · have own : still.children wrapper = map.contents := by
      rw [same.children,Page.children,layer]
      exact List.dedup_eq_self.mpr distinct
    rw [Page.children_unlink,hung,own,if_neg fun own => fresh _ container (Option.some.inj own)]
    rfl
  · rw [parent id (known id member),if_pos member]
  · have lost : ¬ Relation.ReflTransGen (still.unlink wrapper).HangsFrom wrapper Page.body := by
      intro climbed
      rcases climbed.cases_head with own | ⟨above,up,_⟩
      · exact fresh _ body own.symm
      · cases removed.symm.trans up
    intro id member
    rw [← Bool.not_eq_true,Page.isConnected,lastForest.reaches_iff]
    rcases List.mem_cons.mp member with rfl | inside
    · exact lost
    · intro climbed
      rcases climbed.cases_head with rfl | ⟨above,up,climbed⟩
      · exact apart inside
      · have hangs := (parent id (known id inside)).trans (if_pos inside)
        exact lost (Option.some.inj (up.symm.trans hangs) ▸ climbed)

/-- Detaching takes back what attaching did, whatever was done to the map and to its page before, and however often the
page was resized and styled and the pins were placed in between. -/
theorem detach_undoes_attach {viewport : Size} {operations : List Page.Operation} {start : Page} {id : Uuid}
    {plan : MapPlan} {pins : List ElementId} {container : ElementId} {options : LayoutOptions} {map : ImageMap}
    (created : create ((Page.ofViewport viewport).performAll operations) id plan pins container options =
      .ok (map,start))
    (before : List Life.Call) :
    let life := (Life.mk map start).afterAll before
    life.map.phase = .loading → life.page.parent map.image = none → (life.map.attach life.page).result.isOk = true →
      pins.Nodup → Page.body ∉ pins → map.image ∉ pins →
      ∀ between : List Life.Call, (∀ call ∈ between, call.keepsTree = true) →
        map.IsUndone life.page (life.page.create "div").1
          (((life.after .attach).afterAll between).after .detach).page := by
  intro life loading orphan succeeds distinct bodyApart imageApart between keep
  have stands : life.Stands map.image := (Life.stands_of_reached created).afterAll before
  obtain ⟨⟨wrapper,phase,same⟩,_⟩ := (Life.carries_of_created created).afterAll before
  have own : map.pins = pins := by rw [(create_eq_ok created).2]
  have image : life.map.image = map.image := by rw [same]
  have contents : life.map.contents = map.image :: pins := by rw [same,← own]; rfl
  obtain ⟨body,hasBody,bodyTag⟩ := stands.bodyTag
  obtain ⟨element,hasImage,imageTag⟩ := stands.imageTag
  have apart : Page.body ∉ life.map.contents := by
    rw [contents,List.mem_cons]
    rintro (here | pin)
    · rw [← here,hasBody] at hasImage
      rw [← Option.some.inj hasImage,bodyTag] at imageTag
      exact absurd imageTag (by decide)
    · exact bodyApart pin
  cases attached : (life.map.attach life.page).result with
  | error fault =>
    rw [attached] at succeeds
    cases succeeds
  | ok update =>
    obtain ⟨_,_,wrapped,_⟩ := attach_eq_ok attached
    have phase : (life.after .attach).map.phase = .attached := by rw [Life.after,wrapped]; rfl
    obtain ⟨still,tree⟩ := Life.sameTree_afterAll phase keep
    have forest := ((stands.afterAll [.attach]).afterAll between).forest
    have undone := isUndone_of_attach stands.forest (by rw [hasBody]; rfl) (image ▸ orphan)
      (contents ▸ List.nodup_cons.mpr ⟨imageApart,distinct⟩) apart attached tree forest
    have gone : (((life.after .attach).afterAll between).after .detach).page =
        (life.map.wrappedIn (life.page.create "div").1).unhung ((life.after .attach).afterAll between).page := by
      change (detach _ _).page = _
      rw [detach_eq,still]
      exact congrArg (fun own => own.unhung ((life.after .attach).afterAll between).page) wrapped
    rw [gone]
    change life.map = _ at same
    rw [same] at undone ⊢
    exact ⟨undone.parent,undone.children,undone.untouched,undone.orphan,undone.layer,undone.held,undone.away⟩

/-- One pin is in the other, and both are in the container. -/
theorem detach_undoes_attach_nested :
    let operations : List Page.Operation := [.create "div",.append Page.body ⟨1⟩,.create "button",.append ⟨1⟩ ⟨2⟩,
      .create "span",.append ⟨2⟩ ⟨3⟩,.create "p",.append ⟨1⟩ ⟨4⟩]
    let page := (Page.ofViewport ⟨800,600⟩).performAll operations
    let map : ImageMap := ⟨⟨7⟩,⟨"plan.png",[⟨100,50,none⟩,⟨20,30,none⟩]⟩,{},[⟨3⟩,⟨2⟩],⟨1⟩,⟨5⟩,none,.loading⟩
    let start := page.performAll [.create "img",.setStyle ⟨5⟩ "width" "100%",.setStyle ⟨5⟩ "height" "100%",
      .setStyle ⟨5⟩ "left" "0",.setStyle ⟨5⟩ "top" "0",.setSource ⟨5⟩ "plan.png"]
    let life := (Life.mk map start).afterAll [.edit (.resolveImage ⟨5⟩ ⟨1000,500⟩)]
    let between : List Life.Call := [.edit (.setViewport ⟨500,600⟩),.reposition,.edit (.setStyle ⟨4⟩ "width" "50%")]
    let last := (((life.after .attach).afterAll between).after .detach).page
    create page ⟨7⟩ map.plan [⟨3⟩,⟨2⟩] ⟨1⟩ {} = .ok (map,start) ∧ map.IsUndone life.page ⟨6⟩ last ∧
      life.page.children ⟨1⟩ = [⟨2⟩,⟨4⟩] ∧ last.children ⟨1⟩ = [⟨4⟩] ∧ last.children ⟨6⟩ = [⟨5⟩,⟨3⟩,⟨2⟩] ∧
      last.style ⟨3⟩ "left" = some "50px" := by
  intro operations page map start life between last
  have created : create page ⟨7⟩ map.plan [⟨3⟩,⟨2⟩] ⟨1⟩ {} = .ok (map,start) := by decide +kernel
  have wrapper : (life.page.create "div").1 = ⟨6⟩ := by decide +kernel
  have undone := detach_undoes_attach created [.edit (.resolveImage ⟨5⟩ ⟨1000,500⟩)] rfl (by decide +kernel)
    (by decide +kernel) (by decide) (by decide) (by decide) between (by decide)
  rw [← wrapper]
  exact ⟨created,undone,by decide +kernel,by decide +kernel,by decide +kernel,by decide +kernel⟩

end ImageMap
end PinnedMap
