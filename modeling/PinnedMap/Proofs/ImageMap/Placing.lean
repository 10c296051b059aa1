import PinnedMap.Proofs.ImageMap.Keeping

/-! A layout pass as a whole: when it succeeds, what it tells, and that the page changes in the places of the pins
and in nothing else. A map knows all of its pins once it is attached, so a pass never stops half way; whether its image
has a size is told by the last thing that was done to the image. -/
namespace PinnedMap

namespace Page

/-- Pages that differ in no more than the `left` and `top` of some elements. -/
structure MovesOnly (pins : List ElementId) (page next : Page) : Prop where
  viewport : next.viewport = page.viewport
  size : next.elements.size = page.elements.size
  others : ∀ id, id ∉ pins → next.element? id = page.element? id
  moved : ∀ pin ∈ pins, ∀ element, page.element? pin = some element →
    ∃ styles : Styles, next.element? pin = some { element with styles } ∧
      ∀ property, property ≠ "left" → property ≠ "top" → styles.get? property = element.styles.get? property

variable {page next last : Page} {pins : List ElementId}

theorem MovesOnly.refl (pins : List ElementId) (page : Page) : page.MovesOnly pins page :=
  ⟨rfl,rfl,fun _ _ => rfl,fun _ _ element found => ⟨element.styles,found,fun _ _ _ => rfl⟩⟩

theorem MovesOnly.trans (first : page.MovesOnly pins next) (second : next.MovesOnly pins last) :
    page.MovesOnly pins last := by
  refine ⟨second.viewport.trans first.viewport,second.size.trans first.size,fun id apart => ?_,?_⟩
  · exact (second.others id apart).trans (first.others id apart)
  · intro pin member element found
    obtain ⟨styles,found',same⟩ := first.moved pin member element found
    obtain ⟨styles',found'',same'⟩ := second.moved pin member _ found'
    refine ⟨styles',found'',fun property notLeft notTop => ?_⟩
    exact (same' property notLeft notTop).trans (same property notLeft notTop)

private theorem movesOnly_putAt (page : Page) {place : Placement} (member : place.element ∈ pins) :
    page.MovesOnly pins (page.putAt place) := by
  refine ⟨rfl,size_update ..,fun id apart => ?_,?_⟩
  · have other : id ≠ place.element := fun same => apart (same ▸ member)
    rw [putAt,styled,element?_update,if_neg other]
  · intro pin _ element found
    rw [putAt,styled,element?_update,found]
    split_ifs
    · refine ⟨_,rfl,fun property notLeft notTop => ?_⟩
      simp [placeStyles,Styles.get?_set,notLeft,notTop]
    · exact ⟨element.styles,rfl,fun _ _ _ => rfl⟩

theorem movesOnly_putAll (page : Page) {places : List Placement} (own : ∀ place ∈ places, place.element ∈ pins) :
    page.MovesOnly pins (page.putAll places) := by
  induction places generalizing page with
  | nil => exact .refl pins page
  | cons place places ih =>
    have first := movesOnly_putAt page (own place (List.mem_cons_self ..))
    exact first.trans (ih _ fun other member => own other (List.mem_cons_of_mem place member))

end Page

theorem Ratio.between_eq_ok {rendered natural : Size} {mode : ScaleMode} {ratio : Ratio} :
    Ratio.between rendered natural mode = .ok ratio ↔
      isUsable natural.width = true ∧ (mode = .perAxis → isUsable natural.height = true) ∧
        ratio.x = rendered.width / natural.width ∧
        ratio.y = if mode = .perAxis then rendered.height / natural.height else rendered.width / natural.width := by
  obtain ⟨x,y⟩ := ratio
  unfold Ratio.between
  cases isUsable natural.width <;> cases mode <;> cases isUsable natural.height <;> simp [eq_comm]

namespace ImageMap

variable {map : ImageMap} {page next : Page} {ratio : Ratio}

theorem getElem?_placements (map : ImageMap) (ratio : Ratio) (index : Nat) :
    (map.placements ratio)[index]? =
      (map.pins.zip map.plan.gates)[index]?.map fun (pin,gate) => ⟨index,pin,ratio.left gate,ratio.top gate⟩ := by
  unfold placements
  rw [List.getElem?_map,List.getElem?_zipIdx,Option.map_map,Nat.zero_add]
  rfl

private theorem length_placements (map : ImageMap) (ratio : Ratio) :
    (map.placements ratio).length = min map.pins.length map.plan.gates.length := by
  simp [placements]

theorem exists_last_placement (ratio : Ratio) (paired : map.plan.gates.length = map.pins.length) {pin : ElementId}
    (member : pin ∈ map.pins) : ∃ earlier place later, map.placements ratio = earlier ++ place :: later ∧
      place.element = pin ∧ (∀ other ∈ later, other.element ≠ pin) ∧
      (map.placements ratio).reverse.find? (·.element = pin) = some place := by
  obtain ⟨index,inside,rfl⟩ := List.mem_iff_getElem.mp member
  have placed : (map.placements ratio)[index]? =
      some ⟨index,map.pins[index],ratio.left map.plan.gates[index],ratio.top map.plan.gates[index]⟩ := by
    rw [getElem?_placements,List.getElem?_eq_getElem (by simp; omega),List.getElem_zip]
    rfl
  have named : ∃ place ∈ (map.placements ratio).reverse, place.element = map.pins[index] :=
    ⟨_,List.mem_reverse.mpr (List.mem_of_getElem? placed),rfl⟩
  obtain ⟨place,found⟩ := Option.isSome_iff_exists.mp
    (List.find?_isSome.mpr (by simpa using named) : ((map.placements ratio).reverse.find?
      (·.element = map.pins[index])).isSome)
  obtain ⟨own,later,earlier,parts,others⟩ := List.find?_eq_some_iff_append.mp found
  refine ⟨earlier.reverse,place,later.reverse,?_,by simpa using own,fun other listed => ?_,found⟩
  · rw [← List.reverse_reverse (map.placements ratio),parts]
    simp
  · simpa using others other (List.mem_reverse.mp listed)

/-- What a pass makes of a page that it succeeds on, and what it tells of that. -/
structure IsPass (map : ImageMap) (page : Page) (update : Reposition) (next : Page) : Prop where
  ratio : ∃ natural, page.natural map.image = some natural ∧
    update.ratio.x = (page.renderedSize map.image).width / natural.width ∧
    update.ratio.y = if map.options.scaleMode = .perAxis then (page.renderedSize map.image).height / natural.height
      else (page.renderedSize map.image).width / natural.width
  count : update.placements.length = map.plan.gates.length
  place : ∀ (index : Nat) pin gate, map.pins[index]? = some pin → map.plan.gates[index]? = some gate →
    update.placements[index]? = some ⟨index,pin,gate.x * update.ratio.x,gate.y * update.ratio.y⟩
  written : ∀ pin ∈ map.pins, ∃ earlier place later, update.placements = earlier ++ place :: later ∧
    place.element = pin ∧ (∀ other ∈ later, other.element ≠ pin) ∧
    next.style pin "left" = some (px place.left) ∧ next.style pin "top" = some (px place.top)
  kept : page.MovesOnly map.pins next

private theorem isPass_putAll (paired : map.plan.gates.length = map.pins.length)
    (known : ∀ pin ∈ map.pins, (page.element? pin).isSome) (found : map.ratio page = .ok ratio) :
    map.IsPass page ⟨ratio,map.placements ratio⟩ (page.putAll (map.placements ratio)) := by
  refine ⟨?_,?_,?_,?_,?_⟩
  · cases loaded : page.natural map.image with
    | none =>
      rw [ImageMap.ratio,naturalSize,loaded] at found
      cases found
    | some natural => exact ⟨natural,rfl,(Ratio.between_eq_ok.mp ((ratio_eq_ok loaded).mp found)).2.2⟩
  · rw [length_placements,paired,Nat.min_self]
  · intro index pin gate isPin isGate
    have both : (map.pins.zip map.plan.gates)[index]? = some (pin,gate) :=
      List.getElem?_zip_eq_some.mpr ⟨isPin,isGate⟩
    rw [getElem?_placements,both]
    rfl
  · intro pin member
    obtain ⟨earlier,place,later,parts,own,others,last⟩ := exists_last_placement ratio paired member
    refine ⟨earlier,place,later,parts,own,others,?_,?_⟩ <;>
      rw [Page.style_putAll (known pin member),last] <;> rfl
  · exact Page.movesOnly_putAll page fun place member => element_mem_pins member

private theorem ratio_isOk_iff : (∃ ratio, map.ratio page = .ok ratio) ↔ ∃ natural,
    page.natural map.image = some natural ∧ isUsable natural.width = true ∧
      (map.options.scaleMode = .perAxis → isUsable natural.height = true) := by
  cases loaded : page.natural map.image with
  | none => simp [ratio,naturalSize,loaded,bind,Except.bind]
  | some natural =>
    simp only [ratio_eq_ok loaded,Option.some.injEq,exists_eq_left']
    constructor
    · rintro ⟨ratio,between⟩
      obtain ⟨width,height,_⟩ := Ratio.between_eq_ok.mp between
      exact ⟨width,height⟩
    · rintro ⟨width,height⟩
      exact ⟨⟨_,_⟩,Ratio.between_eq_ok.mpr ⟨width,height,rfl,rfl⟩⟩

end ImageMap

namespace Page

variable {page next : Page} {image : ElementId} {size : Option Size}

def Shows (image : ElementId) (size : Option Size) (page : Page) : Prop :=
  ∃ element, page.element? image = some element ∧ element.isImage = true ∧ element.natural = size

theorem Shows.natural_eq (shows : page.Shows image size) : page.natural image = size := by
  obtain ⟨element,found,_,natural⟩ := shows
  rw [Page.natural,found]
  exact natural

private theorem isKept_shows (image : ElementId) (size : Option Size) : IsKept (Shows image size) := by
  refine ⟨?_,?_,?_,?_⟩
  · rintro page id change tag natural ⟨element,found,isImage,same⟩
    rw [Shows,element?_update,found]
    split_ifs
    · refine ⟨_,rfl,?_,(natural element).trans same⟩
      rw [Element.isImage,tag]
      exact isImage
    · exact ⟨element,rfl,isImage,same⟩
  · rintro page parent child ⟨element,found,isImage,same⟩
    rw [Shows,element?_hang,found]
    exact ⟨_,rfl,isImage,same⟩
  · rintro page child ⟨element,found,isImage,same⟩
    rw [Shows,element?_unlink,found]
    exact ⟨_,rfl,isImage,same⟩
  · rintro page tag ⟨element,found,rest⟩
    have known : (page.element? image).isSome := by rw [found]; rfl
    rw [Shows,element?_create_of_known known]
    exact ⟨element,found,rest⟩

def sizeAfter (image : ElementId) (size : Option Size) : Operation → Option Size
  | .resolveImage id given => if id = image then some given else size
  | .setSource id _ => if id = image then none else size
  | _ => size

theorem Shows.on (shows : page.Shows image size) (operation : Operation) (done : operation.on page = .ok next) :
    next.Shows image (sizeAfter image size operation) := by
  cases operation with
  | create tag =>
    obtain rfl := Except.ok.inj done
    exact (isKept_shows image size).create page tag shows
  | setStyle id property text =>
    obtain ⟨_,rfl⟩ := edit_eq_ok.mp done
    exact (isKept_shows image size).update page id _ (fun _ => rfl) (fun _ => rfl) shows
  | setClass id name =>
    obtain ⟨_,rfl⟩ := edit_eq_ok.mp done
    exact (isKept_shows image size).update page id _ (fun _ => rfl) (fun _ => rfl) shows
  | setSource id url =>
    obtain ⟨_,rfl⟩ := edit_eq_ok.mp done
    obtain ⟨element,found,isImage,same⟩ := shows
    rw [Shows,element?_update,found,sizeAfter]
    by_cases own : id = image
    · rw [if_pos own,if_pos own.symm]
      exact ⟨_,rfl,isImage,rfl⟩
    · rw [if_neg own,if_neg (Ne.symm own)]
      exact ⟨element,rfl,isImage,same⟩
  | append parent child =>
    obtain ⟨_,_,_,rfl⟩ := append_eq_ok.mp done
    exact (isKept_shows image size).hang page parent child shows
  | remove parent child =>
    obtain ⟨_,rfl⟩ := remove_eq_ok.mp done
    exact (isKept_shows image size).unlink page child shows
  | resolveImage id given =>
    obtain ⟨_,rfl⟩ := resolveImage_eq_ok.mp done
    obtain ⟨element,found,isImage,same⟩ := shows
    rw [Shows,element?_update,found,sizeAfter]
    by_cases own : id = image
    · rw [if_pos own,if_pos own.symm]
      exact ⟨_,rfl,isImage,rfl⟩
    · rw [if_neg own,if_neg (Ne.symm own)]
      exact ⟨element,rfl,isImage,same⟩
  | setViewport viewport =>
    obtain rfl := Except.ok.inj done
    exact shows

theorem Shows.sizeAfter_of_refused (shows : page.Shows image size) (operation : Operation) {fault : PageFault}
    (failed : operation.on page = .error fault) : sizeAfter image size operation = size := by
  obtain ⟨element,found,isImage,_⟩ := shows
  have known : (page.element? image).isSome := by rw [found]; rfl
  cases operation with
  | setSource id url =>
    have apart : id ≠ image := by
      rintro rfl
      cases failed.symm.trans (edit_eq_ok.mpr ⟨known,rfl⟩)
    exact if_neg apart
  | resolveImage id given =>
    have apart : id ≠ image := by
      rintro rfl
      cases failed.symm.trans (resolveImage_eq_ok.mpr ⟨⟨element,found,isImage⟩,rfl⟩)
    exact if_neg apart
  | create | setStyle | setClass | append | remove | setViewport => rfl

theorem Shows.perform (shows : page.Shows image size) (operation : Operation) :
    (page.perform operation).Shows image (sizeAfter image size operation) := by
  unfold Page.perform
  cases done : operation.on page with
  | ok next => exact shows.on operation done
  | error fault =>
    rw [shows.sizeAfter_of_refused operation done]
    exact shows

end Page

namespace ImageMap

variable {map : ImageMap} {page start : Page}

namespace Life

variable {life : Life} {size : Option Size}

def sizeAfter (image : ElementId) (size : Option Size) : Call → Option Size
  | .edit operation => Page.sizeAfter image size operation
  | .attach | .reposition | .markFailed | .detach => size

/-- The size that an image was last given, if it has had no new source since. -/
def sizeGiven (image : ElementId) (calls : List Call) : Option Size := calls.foldl (sizeAfter image) none

/-- A map in its life: its parts are those it was made of, its page shows its image, and once it is attached its page
knows all of its pins. -/
structure Carries (map : ImageMap) (size : Option Size) (life : Life) : Prop where
  parts : ∃ wrapper phase, life.map = { map with wrapper, phase }
  shows : life.page.Shows map.image size
  known : life.map.phase = .attached → ∀ pin ∈ map.pins, (life.page.element? pin).isSome

theorem Carries.after (carries : life.Carries map size) (call : Call) :
    (life.after call).Carries map (sizeAfter map.image size call) := by
  obtain ⟨⟨wrapper,phase,same⟩,shows,known⟩ := carries
  have image : life.map.image = map.image := by rw [same]
  have pins : life.map.pins = map.pins := by rw [same]
  cases call with
  | attach =>
    have shows' := (Page.isKept_shows map.image size).attach life.map shows
    rcases attach_cases life.map life.page with ⟨_,_,refused⟩ | ⟨ready,⟨_,_,_,refused⟩ | ⟨wrapped,_,wraps,attached⟩⟩
    · rw [Life.after,refused]
      exact ⟨⟨wrapper,phase,same⟩,shows,known⟩
    · rw [refused] at shows'
      rw [Life.after,refused]
      refine ⟨⟨wrapper,phase,same⟩,shows',fun attached => ?_⟩
      exact absurd ((attachable_eq_ok.mp ready).1.symm.trans attached) (by decide)
    · rw [attached] at shows'
      rw [Life.after,attached]
      refine ⟨⟨_,_,by rw [wrappedIn,same]⟩,shows',fun _ pin member => ?_⟩
      rw [Page.isSome_element?_putAll]
      exact wrap_known wraps pin (pins ▸ member)
  | reposition =>
    refine ⟨⟨wrapper,phase,same⟩,(Page.isKept_shows map.image size).reposition life.map shows,fun attached pin member => ?_⟩
    have before := known attached pin member
    rw [Page.isSome_element?] at before ⊢
    exact (size_reposition life.map life.page).symm ▸ before
  | markFailed =>
    unfold Life.after markFailed
    split_ifs with loading
    · exact ⟨⟨wrapper,.failed,by rw [same]⟩,shows,fun attached => by cases attached⟩
    · exact ⟨⟨wrapper,phase,same⟩,shows,known⟩
  | detach =>
    rw [Life.after,detach_eq]
    exact ⟨⟨none,.disposed,by rw [disposed,same]⟩,(Page.isKept_shows map.image size).unhung life.map shows,
      fun attached => by cases attached⟩
  | edit operation =>
    refine ⟨⟨wrapper,phase,same⟩,shows.perform operation,fun attached pin member => ?_⟩
    exact Page.isSome_element?_perform (known attached pin member) operation

theorem Carries.afterAll (carries : life.Carries map size) (calls : List Call) :
    (life.afterAll calls).Carries map (calls.foldl (sizeAfter map.image) size) := by
  induction calls generalizing life size with
  | nil => exact carries
  | cons call calls ih => exact ih (carries.after call)

theorem carries_of_created {id : Uuid} {plan : MapPlan} {pins : List ElementId} {container : ElementId}
    {options : LayoutOptions} (created : create page id plan pins container options = .ok (map,start)) :
    (Life.mk map start).Carries map none := by
  have own := (create_eq_ok created).2
  have shows : start.Shows map.image none := by
    rw [page_of_created created,own,Page.Shows,Page.element?_update,if_pos rfl,Page.styled,Page.element?_update,
      if_pos rfl,Page.element?_create,if_pos rfl]
    refine ⟨_,rfl,?_,rfl⟩
    change (Element.ofTag "img").isImage = true
    decide
  refine ⟨⟨map.wrapper,map.phase,rfl⟩,shows,fun attached => ?_⟩
  rw [own] at attached
  cases attached

end Life

/-- A layout pass of a map, whatever was done to the map and to its page before. -/
theorem pass_of_created {page start : Page} {id : Uuid} {plan : MapPlan} {pins : List ElementId}
    {container : ElementId} {options : LayoutOptions} {map : ImageMap}
    (created : create page id plan pins container options = .ok (map,start)) (calls : List Life.Call) :
    let life := (Life.mk map start).afterAll calls
    let pass := life.map.reposition life.page
    life.page.natural map.image = Life.sizeGiven map.image calls ∧
      ((∃ update, pass.1 = .ok update) ↔ life.map.phase = .attached ∧ ∃ natural,
        life.page.natural map.image = some natural ∧ isUsable natural.width = true ∧
          (options.scaleMode = .perAxis → isUsable natural.height = true)) ∧
      (∀ update, pass.1 = .ok update → map.IsPass life.page update pass.2) ∧
      (∀ fault, pass.1 = .error fault → pass.2 = life.page) := by
  intro life pass
  have carries : life.Carries map (Life.sizeGiven map.image calls) := (Life.carries_of_created created).afterAll calls
  obtain ⟨⟨wrapper,phase,same⟩,shows,known⟩ := carries
  obtain ⟨paired,own⟩ := create_eq_ok created
  have mode : map.options.scaleMode = options.scaleMode := by rw [own]
  have ratio : life.map.ratio life.page = map.ratio life.page := by rw [same]; rfl
  have placements (ratio : Ratio) : life.map.placements ratio = map.placements ratio := by rw [same]; rfl
  have pins : life.map.pins = map.pins := by rw [same]
  refine ⟨shows.natural_eq,?_⟩
  by_cases attached : life.map.phase = .attached
  · rw [← mode,← ratio_isOk_iff,← ratio]
    have known' : ∀ pin ∈ life.map.pins, (life.page.element? pin).isSome := pins ▸ known attached
    cases found : life.map.ratio life.page with
    | error fault =>
      have failed : pass = (.error fault,life.page) := reposition_of_fault attached found
      rw [failed]
      exact ⟨by simp,nofun,fun _ _ => rfl⟩
    | ok ratio' =>
      have done : pass = _ := reposition_of_ratio attached found known'
      rw [done,placements]
      refine ⟨by simp [attached],fun update told => ?_,nofun⟩
      cases told
      have paired' : map.plan.gates.length = map.pins.length := by rw [own]; exact paired
      exact isPass_putAll paired' (known attached) (ratio ▸ found)
  · have failed : pass = (.error (.positionIn life.map.phase),life.page) := reposition_of_phase attached life.page
    rw [failed]
    exact ⟨by simp [attached],nofun,fun _ _ => rfl⟩

/-- One pin stands for both gates: it is put at the second. -/
theorem pass_of_created_twice_pinned :
    let page := (Page.ofViewport ⟨800,600⟩).performAll [.create "div",.append Page.body ⟨1⟩,.create "button"]
    let plan : MapPlan := ⟨"plan.png",[⟨100,50,none⟩,⟨300,20,none⟩]⟩
    let calls : List Life.Call := [.edit (.resolveImage ⟨3⟩ ⟨1000,500⟩),.attach,.edit (.setViewport ⟨500,600⟩)]
    ∃ map start, create page ⟨7⟩ plan [⟨2⟩,⟨2⟩] ⟨1⟩ {} = .ok (map,start) ∧
      let life := (Life.mk map start).afterAll calls
      ∃ update next, map.IsPass life.page update next ∧ next.style ⟨2⟩ "left" = some "150px" ∧
        next.style ⟨2⟩ "top" = some "10px" := by
  intro page plan calls
  refine ⟨_,_,rfl,?_⟩
  intro life
  obtain ⟨given,succeeds,passes,_⟩ := @pass_of_created page _ ⟨7⟩ plan [⟨2⟩,⟨2⟩] ⟨1⟩ {} _ rfl calls
  have phase : life.map.phase = .attached := by decide +kernel
  obtain ⟨update,told⟩ := succeeds.mpr ⟨phase,⟨1000,500⟩,given.trans (by decide),by decide,nofun⟩
  exact ⟨update,_,passes update told,by decide +kernel,by decide +kernel⟩

end ImageMap
end PinnedMap
