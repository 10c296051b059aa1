import PinnedMap.Proofs.ImageMap.Building
import PinnedMap.Proofs.ImageMap.Sizing

/-! A map is intact once it is wrapped: wrapping makes all that its layout depends on, whatever else is on the page. -/
namespace PinnedMap

theorem Styles.get?_written (table : StyleTable) (property : String) :
    Styles.get? ⟨table.map fun (property,value) => (property,value.written)⟩ property = styleText table property := by
  unfold get? styleText
  induction table with
  | nil => rfl
  | cons entry table ih =>
    obtain ⟨name,value⟩ := entry
    rw [List.map_cons,List.lookup_cons,List.lookup_cons]
    cases property == name with
    | true => rfl
    | false => exact ih

theorem Page.IsForest.setViewport {page : Page} (forest : page.IsForest) (viewport : Size) :
    (page.setViewport viewport).IsForest :=
  ⟨forest.parent_known,forest.child_known,forest.parent_iff,forest.nodup,forest.acyclic⟩

namespace ImageMap

variable {map : ImageMap} {page last : Page} {natural : Size}

/-- A page on which a map can be wrapped, with an image that was loaded and has its styles still. -/
structure IsFresh (map : ImageMap) (natural : Size) (page : Page) : Prop where
  forest : page.IsForest
  bodyTag : page.HasTag Page.body "body"
  imageTag : page.HasTag map.image "img"
  container : (page.element? map.container).isSome
  pins : ∀ pin ∈ map.pins, (page.element? pin).isSome
  apart : map.image ∉ map.pins
  styled : ∀ property ∈ Page.laidOutBy, page.style map.image property = styleText imageStyles property
  loaded : page.natural map.image = some natural
  usable : isUsable natural.width = true

theorem IsFresh.known (fresh : map.IsFresh natural page) : ∀ id ∈ map.contents, (page.element? id).isSome := by
  obtain ⟨element,found,_⟩ := fresh.imageTag
  exact List.forall_mem_cons.mpr ⟨Option.isSome_iff_exists.mpr ⟨element,found⟩,fresh.pins⟩

theorem IsFresh.isFramed (fresh : map.IsFresh natural page)
    (wraps : map.wrap (page.create "div").1 (page.create "div").2 = (.ok (),last)) :
    (map.wrappedIn (page.create "div").1).IsFramed (page.create "div").1 natural last := by
  have elements := element?_wrap fresh.forest fresh.container fresh.known wraps
  have forest : last.IsForest := by
    have led := leads_wrap fresh.forest (fresh.known map.image (List.mem_cons_self ..)) _ rfl
    rw [wraps] at led
    exact led.1
  have layer : last.element? (page.create "div").1 = some map.layer := by rw [elements,if_pos rfl]
  have others {id : ElementId} {element : Element} (found : page.element? id = some element) :
      last.element? id = some (map.around id (page.create "div").1 element) := by
    rw [elements,if_neg (Page.ne_new_of_known (by rw [found]; rfl) "div"),found]
    rfl
  obtain ⟨image,found,tag⟩ := fresh.imageTag
  obtain ⟨body,found',tag'⟩ := fresh.bodyTag
  have shown := others found
  have intact : (map.wrappedIn (page.create "div").1).IsIntact (page.create "div").1 last := by
    refine ⟨rfl,?_,?_,fun child member => ?_,fresh.apart,fun pin member => .inl ?_,fun property reads => ?_,
      fun property reads => ?_⟩
    · rw [Page.parent,layer]
      rfl
    · change last.parent map.image = _
      rw [Page.parent,shown]
      exact if_pos (List.mem_cons_self ..)
    · rw [Page.children_of_element? layer] at member
      exact List.mem_cons.mp (List.mem_dedup.mp member)
    · obtain ⟨element,known⟩ := Option.isSome_iff_exists.mp (fresh.pins pin member)
      have dressed : (map.around pin (page.create "div").1 element).styles = element.styles.bound := if_pos member
      rw [Page.style,others known,Option.bind_some,dressed,Styles.bound,Styles.get?_set,Styles.get?_set]
      rfl
    · rw [Page.style,layer]
      exact Styles.get?_written _ property
    · have same : (map.around map.image (page.create "div").1 image).styles = image.styles := if_neg fresh.apart
      change last.style map.image property = _
      rw [← fresh.styled property reads,Page.style,Page.style,shown,found,Option.bind_some,same]
      rfl
  refine ⟨forest,intact,⟨_,others found',tag'⟩,⟨_,layer,rfl⟩,⟨_,shown,tag⟩,?_,fresh.usable⟩
  change last.natural map.image = _
  rw [← fresh.loaded,Page.natural,Page.natural,shown,found]
  rfl

theorem IsFresh.first_pass (fresh : map.IsFresh natural page) {update : Reposition}
    (attached : (map.attach page).result = .ok update) : update.placements = map.placements update.ratio ∧
      ∃ rendered, Ratio.between rendered natural map.options.scaleMode = .ok update.ratio ∧
        (rendered = Size.zero ∨ ∃ available, rendered = fittedSize natural available map.options.maxWidth) := by
  obtain ⟨wrapped,wraps,_,placed⟩ := attach_eq_ok attached
  have framed := fresh.isFramed wraps
  have shown := framed.renderedSize_eq
  cases found : (map.wrappedIn (page.create "div").1).ratio wrapped with
  | error fault =>
    rw [reposition_of_fault rfl found] at placed
    cases placed
  | ok ratio =>
    rw [reposition_of_ratio rfl found (wrap_known wraps)] at placed
    obtain rfl := Except.ok.inj (Prod.mk.inj placed).1
    refine ⟨rfl,_,(ratio_eq_ok framed.loaded).mp found,?_⟩
    rw [shown]
    split_ifs
    · exact .inr ⟨_,rfl⟩
    · exact .inl rfl

theorem IsFresh.setViewport (fresh : map.IsFresh natural page) (viewport : Size) :
    map.IsFresh natural (page.setViewport viewport) :=
  ⟨fresh.forest.setViewport viewport,fresh.bodyTag,fresh.imageTag,fresh.container,fresh.pins,fresh.apart,fresh.styled,
    fresh.loaded,fresh.usable⟩

section Created

variable {start resolved : Page} {id : Uuid} {plan : MapPlan} {pins : List ElementId} {container : ElementId}
  {options : LayoutOptions}

private theorem style_of_created (created : create page id plan pins container options = .ok (map,start)) :
    ∀ property ∈ Page.laidOutBy, start.style map.image property = styleText imageStyles property := by
  intro property reads
  rw [page_of_created created,(create_eq_ok created).2]
  dsimp only
  rw [Page.style,Page.styled,Page.update_update,Page.element?_update,if_pos rfl,Page.element?_create,if_pos rfl]
  change Styles.get? (imageStyles.foldl _ _) property = _
  revert property
  decide +kernel

theorem isFresh_of_created (forest : page.IsForest) (body : page.HasTag Page.body "body")
    (known : ∀ id ∈ container :: pins, (page.element? id).isSome)
    (created : create page id plan pins container options = .ok (map,start))
    (resolves : start.resolveImage map.image natural = .ok resolved) (usable : isUsable natural.width = true) :
    map.IsFresh natural resolved := by
  have own := (create_eq_ok created).2
  have stands := Life.stands_of_created forest body created
  have still {id : ElementId} (member : id ∈ container :: pins) : (start.element? id).isSome := by
    rw [page_of_created created,Page.isSome_element?_update,Page.isSome_element?_styled]
    exact Page.isSome_element?_create (known id member) "img"
  obtain ⟨⟨image,found,_⟩,rfl⟩ := Page.resolveImage_eq_ok.mp resolves
  refine ⟨stands.forest.update map.image (fun _ => rfl) fun _ => rfl,stands.bodyTag.update map.image fun _ => rfl,
    stands.imageTag.update map.image fun _ => rfl,?_,fun pin member => ?_,?_,fun property reads => ?_,?_,usable⟩
  · rw [Page.isSome_element?_update,own]
    exact still (List.mem_cons_self ..)
  · rw [Page.isSome_element?_update]
    rw [own] at member
    exact still (List.mem_cons_of_mem _ member)
  · rw [own]
    exact fun member => Page.ne_new_of_known (known _ (List.mem_cons_of_mem _ member)) "img" rfl
  · rw [← style_of_created created property reads,Page.style,Page.style,Page.element?_update,if_pos rfl,found]
    rfl
  · rw [Page.natural,Page.element?_update,if_pos rfl,found]
    rfl

end Created

end ImageMap
end PinnedMap
