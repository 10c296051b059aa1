import Mathlib.Data.Real.Basic
import PinnedMap.Proofs.ImageMap.Placing
import PinnedMap.Proofs.Page.Floating
import PinnedMap.Proofs.Page.Length

/-! How large the image of a map is shown: as wide as it is by nature, but no wider than the container or the cap
that the map was given, and as high as its shape asks for. The wrapper takes its width from the image, the image takes
it back as its share of the wrapper, and the pins float in between without a say. -/
namespace PinnedMap

open Decimal

/-- The width that an image is shown with, in some arithmetic. The cap is that of its wrapper, which the image
then fills to a hundred percent. -/
def fittedWidth {α : Type} [Mul α] [Div α] [OfNat α 0] [OfNat α 100] (least most : α → α → α)
    (natural available : α) (cap : Option α) : α :=
  let wanted := least natural available
  let room := most (cap.elim wanted (least wanted)) 0
  most (room * 100 / 100) 0

private theorem fittedWidth_bounds {α : Type} [Field α] [LinearOrder α] [IsStrictOrderedRing α] {natural : α}
    (positive : 0 < natural) (available : α) (cap : Option α) :
    let width := fittedWidth min max natural available cap
    0 ≤ width ∧ width ≤ natural ∧ width ≤ max 0 available ∧ ∀ limit ∈ cap, width ≤ max 0 limit := by
  intro width
  have room : width = max (cap.elim (min natural available) (min (min natural available))) 0 := by
    change max (max _ 0 * 100 / 100) 0 = _
    rw [mul_div_assoc,div_self (by norm_num),mul_one,max_eq_left (le_max_right _ _)]
  have wanted : cap.elim (min natural available) (min (min natural available)) ≤ min natural available := by
    cases cap with
    | none => exact le_rfl
    | some limit => exact min_le_left _ _
  rw [room]
  refine ⟨le_max_right _ _,max_le (wanted.trans (min_le_left _ _)) positive.le,
    max_le (wanted.trans ((min_le_right _ _).trans (le_max_right _ _))) (le_max_left _ _),fun limit given => ?_⟩
  obtain rfl := Option.mem_def.mp given
  exact max_le ((min_le_right _ _).trans (le_max_right _ _)) (le_max_left _ _)

def widthCap (maxWidth : Float) : Option Float :=
  if kind maxWidth = .nan ∨ kind maxWidth = .infinite then none else some maxWidth

def fittedSize (natural : Size) (available maxWidth : Float) : Size :=
  let width := fittedWidth lesser greater natural.width available (widthCap maxWidth)
  ⟨width,width * natural.height / natural.width⟩

def styleText (table : StyleTable) (property : String) : Option String := (table.lookup property).map StyleValue.written

private theorem pos_of_isUsable {length : Float} (usable : isUsable length = true) : 0 < length := by
  unfold isUsable at usable
  simp only [Bool.not_eq_true',Bool.or_eq_false_iff,decide_eq_false_iff_not] at usable
  obtain ⟨number,above⟩ := usable
  have zero : (0 : Float).toModel.unpack = .zero .positive := rfl
  have le : length ≤ 0 ↔ length.toModel.unpack.le (.zero .positive) = true := zero ▸ decide_eq_true_iff
  have lt : 0 < length ↔ (Float.Model.UnpackedFloat.zero .positive).lt length.toModel.unpack = true :=
    zero ▸ decide_eq_true_iff
  change length.toModel.unpack.isNaN = false at number
  rw [le] at above
  rw [lt]
  cases parts : length.toModel.unpack with
  | notANumber =>
    rw [parts] at number
    cases number
  | infinity sign =>
    rw [parts] at above
    cases sign with
    | positive => rfl
    | negative => exact absurd rfl above
  | zero sign =>
    rw [parts] at above
    exact absurd rfl above
  | finite sign mantissa exponent valid =>
    rw [parts] at above
    cases sign with
    | positive => rfl
    | negative => exact absurd rfl above

private theorem greatest_singleton {length : Float} (usable : isUsable length = true) :
    Page.greatest [length] = length := by
  have above := pos_of_isUsable usable
  change greater 0 length = length
  unfold greater
  rw [if_pos (by simp [above])]

namespace Page

/-- The styles that layout reads. -/
def laidOutBy : List String := ["position","width","max-width","height"]

variable {page : Page} {id : ElementId}

private theorem lengthOf_of_style {element : Element} (found : page.element? id = some element) (property : String) :
    lengthOf element property = Length.ofStyle (page.style id property) := by
  rw [style,found]
  rfl

end Page

namespace ImageMap

variable {map : ImageMap} {page : Page} {wrapper : ElementId} {natural : Size}

/-- The wrapper is in the container still and has the image in it, both have the styles that attaching and creating
wrote, as far as layout reads them, and there is nothing else in the wrapper but pins that float. -/
structure IsIntact (map : ImageMap) (wrapper : ElementId) (page : Page) : Prop where
  wrapped : map.wrapper = some wrapper
  hung : page.parent wrapper = some map.container
  framed : page.parent map.image = some wrapper
  only : ∀ child ∈ page.children wrapper, child = map.image ∨ child ∈ map.pins
  apart : map.image ∉ map.pins
  floating : ∀ pin ∈ map.pins, page.style pin "position" = some "absolute" ∨ page.style pin "position" = some "fixed"
  wrapperStyled : ∀ property ∈ Page.laidOutBy,
    page.style wrapper property = styleText (wrapperStyles map.options.maxWidth) property
  imageStyled : ∀ property ∈ Page.laidOutBy, page.style map.image property = styleText imageStyles property

/-- What a page of an intact map has in it, element by element. -/
structure IsFramed (map : ImageMap) (wrapper : ElementId) (natural : Size) (page : Page) : Prop where
  forest : page.IsForest
  intact : map.IsIntact wrapper page
  bodyTag : page.HasTag Page.body "body"
  wrapperTag : page.HasTag wrapper "div"
  imageTag : page.HasTag map.image "img"
  loaded : page.natural map.image = some natural
  usable : isUsable natural.width = true

theorem IsFramed.exists_image (framed : map.IsFramed wrapper natural page) :
    ∃ element, page.element? map.image = some element ∧ element.isImage = true ∧ element.natural = some natural ∧
      element.parent = some wrapper ∧ map.image ≠ Page.body := by
  obtain ⟨element,found,tag⟩ := framed.imageTag
  have loaded := framed.loaded
  have hangs := framed.intact.framed
  rw [Page.natural,found] at loaded
  rw [Page.parent,found] at hangs
  refine ⟨element,found,by rw [Element.isImage,tag]; rfl,loaded,hangs,?_⟩
  rintro same
  obtain ⟨body,found',tag'⟩ := framed.bodyTag
  obtain rfl := Option.some.inj (found'.symm.trans (same ▸ found))
  exact absurd (tag.symm.trans tag') (by decide)

theorem IsFramed.exists_wrapper (framed : map.IsFramed wrapper natural page) :
    ∃ element, page.element? wrapper = some element ∧ element.isImage = false ∧
      element.parent = some map.container ∧ wrapper ≠ Page.body := by
  obtain ⟨element,found,tag⟩ := framed.wrapperTag
  have hangs := framed.intact.hung
  rw [Page.parent,found] at hangs
  refine ⟨element,found,by rw [Element.isImage,tag]; rfl,hangs,?_⟩
  rintro rfl
  obtain ⟨body,found',tag'⟩ := framed.bodyTag
  obtain rfl := Option.some.inj (found'.symm.trans found)
  exact absurd (tag.symm.trans tag') (by decide)

private theorem isOutOfFlow_of_style {id : ElementId} {element : Element} (found : page.element? id = some element)
    (position : page.style id "position" = some "absolute" ∨ page.style id "position" = some "fixed") :
    element.isOutOfFlow = true := by
  rw [Page.style,found] at position
  unfold Element.isOutOfFlow
  rcases position with absolute | fixed
  · rw [show element.styles.get? "position" = some "absolute" from absolute]
    rfl
  · rw [show element.styles.get? "position" = some "fixed" from fixed]
    rfl

theorem IsFramed.inFlow_eq (framed : map.IsFramed wrapper natural page) {element image : Element}
    (found : page.element? wrapper = some element) (found' : page.element? map.image = some image) :
    page.inFlow element = [(map.image,image)] := by
  have listed : map.image ∈ element.children := by
    rw [← Page.children_of_element? found,← framed.forest.parent_iff]
    exact framed.intact.framed
  have once : element.children.Nodup := by
    rw [← Page.children_of_element? found]
    exact framed.forest.children_nodup wrapper
  have still : image.isOutOfFlow = false := by
    have position := framed.intact.imageStyled "position" (by decide)
    rw [Page.style,found'] at position
    unfold Element.isOutOfFlow
    rw [show image.styles.get? "position" = none from position]
  have float (child : ElementId) (member : child ∈ element.children) (other : child ≠ map.image) (below : Element)
      (present : page.element? child = some below) : below.isOutOfFlow = true := by
    rw [← Page.children_of_element? found] at member
    exact isOutOfFlow_of_style present (framed.intact.floating child ((framed.intact.only child member).resolve_left other))
  obtain ⟨front,back,parts⟩ := List.append_of_mem listed
  have none_of (children : List ElementId) (some : ∀ child ∈ children, child ∈ element.children ∧ child ≠ map.image) :
      page.inFlow { element with children } = [] := by
    refine List.filterMap_eq_nil_iff.mpr fun child member => ?_
    obtain ⟨inside,other⟩ := some child member
    cases present : page.element? child with
    | none => rfl
    | some below =>
      dsimp only
      rw [float child inside other below present,if_pos rfl]
  rw [parts] at once
  obtain ⟨_,onceBack,disjoint⟩ := List.nodup_append.mp once
  have before := none_of front fun child member =>
    ⟨by rw [parts]; exact List.mem_append_left _ member,disjoint child member _ (List.mem_cons_self ..)⟩
  have after := none_of back fun child member =>
    ⟨by rw [parts]; exact List.mem_append_right _ (List.mem_cons_of_mem _ member),
      fun same => (List.nodup_cons.mp onceBack).1 (same ▸ member)⟩
  unfold Page.inFlow at before after ⊢
  rw [parts,List.filterMap_append,before,List.filterMap_cons,after,found']
  dsimp only
  rw [still]
  rfl

theorem IsFramed.contentWidth_wrapper (framed : map.IsFramed wrapper natural page) :
    page.contentWidth wrapper = natural.width := by
  obtain ⟨image,found,isImage,loaded,_⟩ := framed.exists_image
  obtain ⟨element,found',other,_⟩ := framed.exists_wrapper
  have width : Page.lengthOf image "width" = .percent 100 := by
    rw [Page.lengthOf_of_style found,framed.intact.imageStyled "width" (by decide)]
    decide +kernel
  have own := Page.contentWidth_image found isImage
  rw [loaded] at own
  have each : (page.inFlow element).mapM (Page.contentShare fun id => some (page.contentWidth id)) =
      some [natural.width] := by
    rw [framed.inFlow_eq found' found,List.mapM_cons,Page.contentShare]
    dsimp only
    rw [width,own]
    rfl
  rw [framed.forest.contentWidth_eq found' other each,greatest_singleton framed.usable]

theorem IsFramed.width_wrapper (framed : map.IsFramed wrapper natural page) :
    page.width wrapper = greater ((widthCap map.options.maxWidth).elim
      (lesser natural.width (page.width map.container))
      (lesser (lesser natural.width (page.width map.container)))) 0 := by
  obtain ⟨element,found,_,above,inner⟩ := framed.exists_wrapper
  have width : Page.lengthOf element "width" = .fitContent := by
    rw [Page.lengthOf_of_style found,framed.intact.wrapperStyled "width" (by decide)]
    rfl
  have limit : Page.lengthOf element "max-width" =
      if kind map.options.maxWidth = .nan ∨ kind map.options.maxWidth = .infinite then .auto
      else .px map.options.maxWidth := by
    rw [Page.lengthOf_of_style found,framed.intact.wrapperStyled "max-width" (by decide)]
    exact Length.ofText_px map.options.maxWidth
  rw [framed.forest.width_eq found above inner,Page.wantedWidth,width,Page.limitedWidth,limit,
    framed.contentWidth_wrapper,widthCap]
  split_ifs <;> rfl

theorem IsFramed.width_image (framed : map.IsFramed wrapper natural page) :
    page.width map.image = fittedWidth lesser greater natural.width (page.width map.container)
      (widthCap map.options.maxWidth) := by
  obtain ⟨image,found,_,_,above,inner⟩ := framed.exists_image
  have width : Page.lengthOf image "width" = .percent 100 := by
    rw [Page.lengthOf_of_style found,framed.intact.imageStyled "width" (by decide)]
    decide +kernel
  have limit : Page.lengthOf image "max-width" = .auto := by
    rw [Page.lengthOf_of_style found,framed.intact.imageStyled "max-width" (by decide)]
    rfl
  rw [framed.forest.width_eq found above inner,Page.wantedWidth,width,Page.limitedWidth,limit,framed.width_wrapper]
  rfl

theorem IsFramed.height_image (framed : map.IsFramed wrapper natural page) :
    page.height map.image = page.width map.image * natural.height / natural.width := by
  obtain ⟨image,found,isImage,loaded,above,inner⟩ := framed.exists_image
  obtain ⟨element,found',_⟩ := framed.exists_wrapper
  have height : Page.lengthOf image "height" = .percent 100 := by
    rw [Page.lengthOf_of_style found,framed.intact.imageStyled "height" (by decide)]
    decide +kernel
  have height' : Page.lengthOf element "height" = .fitContent := by
    rw [Page.lengthOf_of_style found',framed.intact.wrapperStyled "height" (by decide)]
    rfl
  have free : page.fixedHeight image = none := by
    unfold Page.fixedHeight Page.definiteParentHeight
    rw [height,above,Option.bind_some,found',Option.map_some,height']
    rfl
  rw [Page.height,Page.walkLimit,Page.heightWithin,if_neg inner,found]
  dsimp only
  rw [free,if_pos isImage,Page.imageHeight,loaded]
  dsimp only
  rw [if_pos (pos_of_isUsable framed.usable)]
  rfl

theorem IsFramed.isConnected_image (framed : map.IsFramed wrapper natural page) :
    page.isConnected map.image = page.isConnected map.container := by
  obtain ⟨_,_,_,_,_,inner⟩ := framed.exists_image
  obtain ⟨_,_,_,_,inner'⟩ := framed.exists_wrapper
  rw [Bool.eq_iff_iff,Page.isConnected,Page.isConnected,framed.forest.reaches_iff,framed.forest.reaches_iff]
  constructor
  · intro climbed
    rcases climbed.cases_head with same | ⟨first,up,climbed⟩
    · exact absurd same inner
    · obtain rfl := Option.some.inj (framed.intact.framed.symm.trans up)
      rcases climbed.cases_head with same | ⟨second,up,climbed⟩
      · exact absurd same inner'
      · obtain rfl := Option.some.inj (framed.intact.hung.symm.trans up)
        exact climbed
  · intro climbed
    have hung : page.HangsFrom wrapper map.container := framed.intact.hung
    exact .head framed.intact.framed (.head hung climbed)

theorem IsFramed.renderedSize_eq (framed : map.IsFramed wrapper natural page) :
    page.renderedSize map.image = if page.isConnected map.container then
      fittedSize natural (page.width map.container) map.options.maxWidth else Size.zero := by
  rw [Page.renderedSize,framed.isConnected_image,framed.height_image,framed.width_image]
  rfl

def isPinned (map : ImageMap) (page : Page) (id : ElementId) : Bool := map.pins.any fun pin => page.reaches id pin

theorem IsFramed.hides_pinned (framed : map.IsFramed wrapper natural page) : page.Hides (map.isPinned page) := by
  have pinned (id : ElementId) : map.isPinned page id = true ↔
      ∃ pin ∈ map.pins, Relation.ReflTransGen page.HangsFrom id pin := by
    simp only [isPinned,List.any_eq_true,framed.forest.reaches_iff]
  refine ⟨fun child parent hangs inside => ?_,fun child parent element hangs outside inside found => ?_⟩
  · obtain ⟨pin,member,climbed⟩ := (pinned parent).mp inside
    exact (pinned child).mpr ⟨pin,member,climbed.head hangs⟩
  · obtain ⟨pin,member,climbed⟩ := (pinned child).mp inside
    -- The way up to the pin ends at once, or else it would go by way of the parent.
    rcases climbed.cases_head with rfl | ⟨next,up,climbed⟩
    · exact isOutOfFlow_of_style found (framed.intact.floating child member)
    · obtain rfl := Option.some.inj (hangs.symm.trans up)
      rw [(pinned parent).mpr ⟨pin,member,climbed⟩] at outside
      cases outside

/-- A map on a page that is a tree, with a body, its image and its wrapper for what they are. -/
structure Life.Stands (image : ElementId) (life : Life) : Prop where
  forest : life.page.IsForest
  bodyTag : life.page.HasTag Page.body "body"
  imageTag : life.page.HasTag image "img"
  wrapperTag : ∀ wrapper, life.map.wrapper = some wrapper → life.page.HasTag wrapper "div"

theorem Life.Stands.afterAll {life : Life} {image : ElementId} (stands : life.Stands image) (calls : List Life.Call) :
    (life.afterAll calls).Stands image := by
  induction calls generalizing life with
  | nil => exact stands
  | cons call calls ih =>
    exact ih ⟨isForest_after stands.forest call,hasTag_after stands.bodyTag call,hasTag_after stands.imageTag call,
      wrapper_hasTag_after stands.wrapperTag call⟩

theorem Life.stands_of_created {start : Page} {id : Uuid} {plan : MapPlan} {pins : List ElementId}
    {container : ElementId} {options : LayoutOptions} {map : ImageMap} (forest : page.IsForest)
    (body : page.HasTag Page.body "body")
    (created : create page id plan pins container options = .ok (map,start)) : (Life.mk map start).Stands map.image := by
  have own := (create_eq_ok created).2
  have image : (page.create "img").2.HasTag map.image "img" := by
    rw [own,Page.HasTag,Page.element?_create,if_pos rfl]
    exact ⟨_,rfl,rfl⟩
  have still : ∀ {id : ElementId} {tag : String}, (page.create "img").2.HasTag id tag → start.HasTag id tag := by
    intro id tag tagged
    rw [page_of_created created]
    have styled := (Page.isKept_hasTag id tag).styled map.image imageStyles tagged
    exact styled.update map.image fun _ => rfl
  refine ⟨?_,still ((Page.isKept_hasTag _ _).create page "img" body),still image,fun wrapper wrapped => ?_⟩
  · rw [page_of_created created]
    have styled := (forest.create "img").styled map.image imageStyles
    exact styled.update map.image (fun _ => rfl) fun _ => rfl
  · rw [own] at wrapped
    cases wrapped

theorem Life.stands_of_reached {viewport : Size} {operations : List Page.Operation} {start : Page} {id : Uuid}
    {plan : MapPlan} {pins : List ElementId} {container : ElementId} {options : LayoutOptions} {map : ImageMap}
    (created : create ((Page.ofViewport viewport).performAll operations) id plan pins container options =
      .ok (map,start)) : (Life.mk map start).Stands map.image := by
  have body : ((Page.ofViewport viewport).performAll operations).HasTag Page.body "body" := by
    have tagged : (Page.ofViewport viewport).HasTag Page.body "body" := ⟨Element.ofTag "body",rfl,rfl⟩
    exact List.foldlRecOn operations Page.perform tagged fun page tagged operation _ => tagged.perform operation
  exact stands_of_created ((Page.isForest_ofViewport viewport).performAll operations) body created

/-- The size of the image of a map, whatever was done to the map and to its page before, as long as the wrapper
was left alone. The pins are a part of the page that layout does not look into, and no such part has a say in it. -/
theorem renderedSize_of_created {viewport : Size} {operations : List Page.Operation} {start : Page} {id : Uuid}
    {plan : MapPlan} {pins : List ElementId} {container : ElementId} {options : LayoutOptions} {map : ImageMap}
    (created : create ((Page.ofViewport viewport).performAll operations) id plan pins container options =
      .ok (map,start))
    (calls : List Life.Call) {wrapper : ElementId} {natural : Size} :
    let life := (Life.mk map start).afterAll calls
    life.map.phase = .attached → life.map.IsIntact wrapper life.page → life.page.natural map.image = some natural →
      isUsable natural.width = true →
      (life.page.renderedSize map.image = if life.page.isConnected container then
        fittedSize natural (life.page.width container) options.maxWidth else Size.zero) ∧
      life.page.Hides (life.map.isPinned life.page) ∧
      (∀ (other : Page) (hidden : ElementId → Bool), other.IsForest → life.page.LooksAlikeBut hidden other →
        hidden map.image = false → other.renderedSize map.image = life.page.renderedSize map.image) ∧
      (∀ (natural available : ℝ) (cap : Option ℝ), 0 < natural →
        let width := fittedWidth min max natural available cap
        0 ≤ width ∧ width ≤ natural ∧ width ≤ max 0 available ∧ ∀ limit ∈ cap, width ≤ max 0 limit) := by
  intro life attached intact loaded usable
  have stands : life.Stands map.image := (Life.stands_of_reached created).afterAll calls
  obtain ⟨⟨wrapper',phase,same⟩,_⟩ := (Life.carries_of_created created).afterAll calls
  have own := (create_eq_ok created).2
  have image : life.map.image = map.image := by rw [same]
  have place : life.map.container = container := by rw [same,own]
  have cap : life.map.options = options := by rw [same,own]
  have framed : life.map.IsFramed wrapper natural life.page :=
    ⟨stands.forest,intact,stands.bodyTag,stands.wrapperTag wrapper intact.wrapped,image ▸ stands.imageTag,
      image ▸ loaded,usable⟩
  refine ⟨?_,framed.hides_pinned,fun other hidden forest alike visible => ?_,fun natural available cap positive =>
    fittedWidth_bounds positive available cap⟩
  · have size := framed.renderedSize_eq
    rwa [image,place,cap] at size
  · obtain ⟨element,found,isImage,_⟩ := framed.exists_image
    rw [image] at found
    exact (alike.renderedSize_eq stands.forest forest visible found isImage).symm

/-- The cap is less than the room and the image, and the pin is wider than all of them. -/
theorem renderedSize_of_created_capped :
    let operations : List Page.Operation := [.create "div",.append Page.body ⟨1⟩,.create "button"]
    let plan : MapPlan := ⟨"plan.png",[⟨100,50,none⟩]⟩
    let calls : List Life.Call :=
      [.edit (.resolveImage ⟨3⟩ ⟨2000,1000⟩),.attach,.edit (.setStyle ⟨2⟩ "width" "5000px")]
    ∃ map start, create ((Page.ofViewport ⟨800,600⟩).performAll operations) ⟨7⟩ plan [⟨2⟩] ⟨1⟩ ⟨500,"",.uniform⟩ =
        .ok (map,start) ∧
      let life := (Life.mk map start).afterAll calls
      life.map.phase = .attached ∧ life.map.IsIntact ⟨4⟩ life.page ∧
        life.page.renderedSize map.image = ⟨500,250⟩ := by
  intro operations plan calls
  refine ⟨_,_,rfl,?_⟩
  intro life
  have attached : life.map.phase = .attached := by decide +kernel
  have intact : life.map.IsIntact ⟨4⟩ life.page :=
    ⟨by decide +kernel,by decide +kernel,by decide +kernel,by decide +kernel,by decide +kernel,by decide +kernel,
      by decide +kernel,by decide +kernel⟩
  have loaded : life.page.natural ⟨3⟩ = some ⟨2000,1000⟩ := by decide +kernel
  obtain ⟨size,_⟩ := @renderedSize_of_created ⟨800,600⟩ operations _ ⟨7⟩ plan [⟨2⟩] ⟨1⟩ ⟨500,"",.uniform⟩ _ rfl calls
    ⟨4⟩ ⟨2000,1000⟩ attached intact loaded (by decide +kernel)
  refine ⟨attached,intact,size.trans ?_⟩
  decide +kernel

end ImageMap
end PinnedMap
