import PinnedMap.Proofs.ImageMap.Keeping
import PinnedMap.Proofs.Page.Root

/-! A page and all the maps on it. The calls of a map do nothing to the page that could not be done to it directly, and
move nothing but what the map was made with and what they create; so that what is known of operations on a page holds
with any number of maps on it. -/
namespace PinnedMap

open Page (EditsTo Operation body)

variable {movable : ElementId → Prop}

namespace ImageMap

variable {page start : Page}

private theorem editsTo_attach (map : ImageMap) (page : Page)
    (own : ∀ id ∈ (page.create "div").1 :: map.contents, movable id) : EditsTo movable page (map.attach page).page := by
  have styled (other : Page) (id : ElementId) (table : StyleTable) (edits : EditsTo movable page other) :
      EditsTo movable page (other.styled id table) := edits.trans (.styled other id table)
  have created : EditsTo movable page (page.create "div").2 := .on (.create "div") rfl nofun
  refine holds_attach map styled created (leads_wrap_of_closed map _ styled ?_ ?_) (.refl page)
  · exact fun _ _ name edits done => edits.trans (.on (.setClass _ name) done nofun)
  · intro other next parent child member edits done
    refine edits.trans (.on (.append parent child) done fun moved same => ?_)
    exact Option.some.inj same ▸ own child member

private theorem editsTo_reposition (map : ImageMap) (page : Page) : EditsTo movable page (map.reposition page).2 :=
  holds_reposition map (EditsTo movable page) (fun other id table edits => edits.trans (.styled other id table))
    (.refl page)

private theorem editsTo_unhung (map : ImageMap) (page : Page) : EditsTo movable page (map.unhung page) := by
  rcases unhung_cases map page with same | ⟨wrapper,hung,same⟩
  · rw [same]
    exact .refl page
  · rw [same]
    exact .on (.remove map.container wrapper) (Page.remove_eq_ok.mpr ⟨hung,rfl⟩) nofun

private theorem editsTo_create {id : Uuid} {plan : MapPlan} {pins : List ElementId} {container : ElementId}
    {options : LayoutOptions} {map : ImageMap} (created : create page id plan pins container options = .ok (map,start)) :
    EditsTo movable page start := by
  have image : map.image = (page.create "img").1 := by rw [(create_eq_ok created).2]
  have known : (((page.create "img").2.styled map.image imageStyles).element? map.image).isSome := by
    rw [Page.isSome_element?_styled,image,Page.element?_create,if_pos rfl]
    rfl
  rw [page_of_created created]
  exact ((EditsTo.on (.create "img") rfl nofun).trans (.styled _ map.image imageStyles)).trans
    (.on (.setSource map.image plan.image) (Page.edit_eq_ok.mpr ⟨known,rfl⟩) nofun)

end ImageMap

namespace ImageMap.Life

def Call.moved : Call → Option ElementId
  | .edit operation => operation.moved
  | _ => none

private theorem editsTo_after (life : Life) (call : Call)
    (own : ∀ id ∈ (life.page.create "div").1 :: life.map.contents, movable id)
    (moved : ∀ child ∈ call.moved, movable child) : EditsTo movable life.page (life.after call).page := by
  cases call with
  | attach => exact editsTo_attach life.map life.page own
  | reposition => exact editsTo_reposition life.map life.page
  | markFailed => exact .refl life.page
  | detach =>
    rw [after,detach_eq]
    exact editsTo_unhung life.map life.page
  | edit operation => exact .perform life.page operation moved

private theorem contents_after (life : Life) (call : Call) : (life.after call).map.contents = life.map.contents := by
  cases call with
  | attach =>
    rcases attach_cases life.map life.page with ⟨_,_,refused⟩ | ⟨_,⟨_,_,_,refused⟩ | ⟨_,_,_,attached⟩⟩
    · rw [after,refused]
    · rw [after,refused]
    · rw [after,attached]
      rfl
  | reposition | edit => rfl
  | markFailed =>
    unfold after markFailed
    split_ifs <;> rfl
  | detach =>
    rw [after,detach_eq]
    rfl

end ImageMap.Life

structure Gallery where
  page : Page
  maps : List ImageMap

namespace Gallery

variable {gallery : Gallery}

inductive Call where
  | construct (id : Uuid) (plan : MapPlan) (pins : List ElementId) (container : ElementId) (options : LayoutOptions)
  | onMap (number : Nat) (call : ImageMap.Life.Call)
  | edit (operation : Operation)
deriving Repr, DecidableEq

def after (gallery : Gallery) : Call → Gallery
  | .construct id plan pins container options =>
    match ImageMap.create gallery.page id plan pins container options with
    | .ok (map,page) => ⟨page,gallery.maps ++ [map]⟩
    | .error _ => gallery
  | .onMap number call =>
    match gallery.maps[number]? with
    | some map =>
      let life := (ImageMap.Life.mk map gallery.page).after call
      ⟨life.page,gallery.maps.set number life.map⟩
    | none => gallery
  | .edit operation => { gallery with page := gallery.page.perform operation }

def afterAll (gallery : Gallery) (calls : List Call) : Gallery := calls.foldl after gallery

def ofViewport (viewport : Size) : Gallery := ⟨.ofViewport viewport,[]⟩

def Call.moved : Call → List ElementId
  | .construct _ _ pins _ _ => pins
  | .onMap _ call => call.moved.toList
  | .edit operation => operation.moved.toList

/-- The body is known, and all that the maps have to move may be moved. -/
structure Grants (gallery : Gallery) (movable : ElementId → Prop) : Prop where
  known : (gallery.page.element? body).isSome
  own : ∀ map ∈ gallery.maps, ∀ id ∈ map.contents, movable id

theorem Grants.new (grants : gallery.Grants movable) (free : ∀ id, id ≠ body → movable id) (tag : String) :
    movable (gallery.page.create tag).1 := free _ (Page.ne_new_of_known grants.known tag).symm

theorem Grants.after (grants : gallery.Grants movable) (free : ∀ id, id ≠ body → movable id) (call : Call)
    (moved : ∀ id ∈ call.moved, movable id) :
    EditsTo movable gallery.page (gallery.after call).page ∧ (gallery.after call).Grants movable := by
  suffices step : EditsTo movable gallery.page (gallery.after call).page ∧
      ∀ map ∈ (gallery.after call).maps, ∀ id ∈ map.contents, movable id from
    ⟨step.1,step.1.known grants.known,step.2⟩
  cases call with
  | construct id plan pins container options =>
    rw [Gallery.after]
    cases created : ImageMap.create gallery.page id plan pins container options with
    | error fault => exact ⟨.refl _,grants.own⟩
    | ok made =>
      obtain ⟨map,start⟩ := made
      have own : ∀ id ∈ map.contents, movable id := by
        rw [(ImageMap.create_eq_ok created).2]
        rw [Call.moved] at moved
        exact List.forall_mem_cons.mpr ⟨grants.new free "img",moved⟩
      refine ⟨ImageMap.editsTo_create created,fun other member => ?_⟩
      rcases List.mem_append.mp member with old | new
      · exact grants.own other old
      · exact List.mem_singleton.mp new ▸ own
  | onMap number call =>
    rw [Gallery.after]
    cases found : gallery.maps[number]? with
    | none => exact ⟨.refl _,grants.own⟩
    | some map =>
      have own : ∀ id ∈ map.contents, movable id := grants.own map (List.mem_of_getElem? found)
      have requested (child : ElementId) (member : child ∈ call.moved) : movable child :=
        moved child (by rw [Call.moved,Option.mem_toList]; exact member)
      refine ⟨ImageMap.Life.editsTo_after ⟨map,gallery.page⟩ call (List.forall_mem_cons.mpr ⟨grants.new free "div",own⟩)
        requested,fun other member => ?_⟩
      rcases List.mem_or_eq_of_mem_set member with old | rfl
      · exact grants.own other old
      · rw [ImageMap.Life.contents_after]
        exact own
  | edit operation =>
    have requested (child : ElementId) (member : child ∈ operation.moved) : movable child :=
      moved child (by rw [Call.moved,Option.mem_toList]; exact member)
    exact ⟨.perform _ operation requested,grants.own⟩

theorem Grants.afterAll (grants : gallery.Grants movable) (free : ∀ id, id ≠ body → movable id) {calls : List Call}
    (moved : ∀ call ∈ calls, ∀ id ∈ call.moved, movable id) :
    EditsTo movable gallery.page (gallery.afterAll calls).page := by
  induction calls generalizing gallery with
  | nil => exact .refl gallery.page
  | cons call calls ih =>
    obtain ⟨own,rest⟩ := List.forall_mem_cons.mp moved
    obtain ⟨edits,next⟩ := grants.after free call own
    exact edits.trans (ih next rest)

private theorem grants_ofViewport (viewport : Size) : (ofViewport viewport).Grants movable :=
  ⟨rfl,nofun⟩

/-- With any number of maps on it, a page is what some operations make of a new page. -/
theorem exists_operations (viewport : Size) (calls : List Call) : ∃ operations,
    ((ofViewport viewport).afterAll calls).page = (Page.ofViewport viewport).performAll operations := by
  obtain ⟨operations,_,same⟩ :=
    (grants_ofViewport viewport).afterAll (fun _ _ => trivial)
      fun _ _ _ _ => trivial
  exact ⟨operations,same.symm⟩

/-- Whatever is done to a page and by the maps on it, an element is connected just if it is the body or its parent is.
What contains a connected element is connected as long as the body hangs nowhere; it does until it is moved, and it can
be moved into every element that is not connected. -/
theorem connected_afterAll (viewport : Size) (calls : List Call) :
    let page := ((ofViewport viewport).afterAll calls).page
    (∀ id, page.isConnected id = true ↔ id = body ∨ ∃ above, page.parent id = some above ∧ page.isConnected above = true) ∧
      (page.parent body = none ↔ ∀ id above, page.isConnected id = true → Relation.ReflTransGen page.HangsFrom id above →
        page.isConnected above = true) ∧
      ((∀ call ∈ calls, body ∉ call.moved) → page.parent body = none) ∧
      ∀ parent, (∃ next, page.append parent body = .ok next) ↔
        (page.element? parent).isSome ∧ page.isConnected parent = false := by
  intro page
  have edits (movable : ElementId → Prop) (free : ∀ id, id ≠ body → movable id)
      (moved : ∀ call ∈ calls, ∀ id ∈ call.moved, movable id) : EditsTo movable (.ofViewport viewport) page :=
    (grants_ofViewport viewport).afterAll free moved
  have all := edits (fun _ => True) (fun _ _ => trivial) fun _ _ _ _ => trivial
  have forest : page.IsForest := all.isForest (Page.isForest_ofViewport viewport)
  refine ⟨fun id => forest.isConnected_iff,forest.orphan_body_iff,fun spared => ?_,fun parent =>
    Page.append_body_iff (all.known rfl)⟩
  have kept := edits (· ≠ body) (fun _ apart => apart) fun call member id moved same => spared call member (same ▸ moved)
  exact kept.orphan rfl (· rfl)

/-- A map is attached and taken away again, and the body is handed to none. -/
theorem connected_afterAll_detached :
    let calls : List Call := [.edit (.create "div"),.edit (.append body ⟨1⟩),.edit (.create "button"),
      .construct ⟨7⟩ ⟨"plan.png",[⟨100,50,none⟩]⟩ [⟨2⟩] ⟨1⟩ {},.edit (.resolveImage ⟨3⟩ ⟨1000,500⟩),
      .onMap 0 .attach,.onMap 0 .reposition,.onMap 0 .detach]
    let page := ((ofViewport ⟨800,600⟩).afterAll calls).page
    (∀ call ∈ calls, body ∉ call.moved) ∧ page.parent body = none ∧ page.parent ⟨2⟩ = some ⟨4⟩ ∧
      page.isConnected ⟨2⟩ = false ∧ ∃ next, page.append ⟨2⟩ body = .ok next := by
  intro calls page
  obtain ⟨_,_,orphan,movable⟩ := connected_afterAll ⟨800,600⟩ calls
  have spared : ∀ call ∈ calls, body ∉ call.moved := by decide
  have loose : page.isConnected ⟨2⟩ = false := by decide +kernel
  exact ⟨spared,orphan spared,by decide +kernel,loose,(movable ⟨2⟩).mpr ⟨by decide +kernel,loose⟩⟩

/-- The body is moved into an element that hangs nowhere, and by a map into its wrapper. -/
theorem body_hangs_afterAll :
    let moved := ((ofViewport ⟨800,600⟩).afterAll [.edit (.create "div"),.edit (.append ⟨1⟩ body)]).page
    let pinned := ((ofViewport ⟨800,600⟩).afterAll [.edit (.create "div"),
      .construct ⟨7⟩ ⟨"plan.png",[⟨100,50,none⟩]⟩ [body] ⟨1⟩ {},.edit (.resolveImage ⟨2⟩ ⟨1000,500⟩),
      .onMap 0 .attach]).page
    moved.parent body = some ⟨1⟩ ∧ moved.isConnected body = true ∧ moved.isConnected ⟨1⟩ = false ∧
      pinned.parent body = some ⟨3⟩ ∧ pinned.parent ⟨3⟩ = some ⟨1⟩ ∧ pinned.isConnected ⟨1⟩ = false := by
  decide +kernel

end Gallery
end PinnedMap
