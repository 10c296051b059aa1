import PinnedMap.Proofs.Decimal.Sign
import PinnedMap.Proofs.Page.Height
import PinnedMap.Proofs.Page.Measure

/-! Which sizes the layout yields. A width is kept from being negative at the end, whatever the styles say. A height is
not: it is negative where a style fixes it so and NaN where it is zero times an infinite length, and nowhere else. -/
namespace PinnedMap

open Decimal

theorem Decimal.RoundsTo.isNaN {x : ℚ} {value : Float} (rounds : RoundsTo x value) : value.isNaN = false := by
  cases rounds with
  | finite fits closest => exact IsBelow.isNaN closest.canonical (.inl rfl)
  | infinite large => decide

theorem Length.Denotes.isNaN {text : List Char} {length : Length} {value : Float} (denotes : Denotes text length)
    (number : length = .px value ∨ length = .percent value) : value.isNaN = false := by
  cases denotes with
  | fitContent => exact absurd number (by simp)
  | @number minus _ _ _ _ magnitude build _ rounds _ isUnit =>
    have signed : (signed minus magnitude).isNaN = false := by
      cases minus with
      | true => rw [signed_true,isNaN_neg,rounds.isNaN]
      | false => rw [signed_false,rounds.isNaN]
    cases isUnit <;> simp_all

namespace Page

variable {page : Page} {id : ElementId} {element : Element} {value height : Float} {property : String}

private theorem isNaN_of_lengthOf
    (number : lengthOf element property = .px value ∨ lengthOf element property = .percent value) :
    value.isNaN = false := by
  unfold lengthOf at number
  cases style : element.styles.get? property with
  | none =>
    rw [style] at number
    exact absurd number (by simp [Length.ofStyle])
  | some text =>
    rw [style] at number
    refine Length.Denotes.isNaN (Length.denotes_of_ofTrimmed rfl fun auto => ?_) number
    exact absurd number (by simp [Length.ofStyle,Length.ofText,auto])

private theorem isNaN_definiteParentHeight (definite : page.definiteParentHeight element = some height) :
    height.isNaN = false := by
  unfold definiteParentHeight at definite
  split at definite
  next length found =>
    obtain rfl := Option.some.inj definite
    obtain ⟨parent,_,read⟩ := Option.map_eq_some_iff.mp found
    exact isNaN_of_lengthOf (.inl read)
  next => cases definite

private theorem zero_le_width (screen : 0 ≤ page.viewport.width) (id : ElementId) : 0 ≤ page.width id := by
  by_cases top : id = body
  · rw [top,Page.width,walkLimit,widthWithin_body]
    exact screen
  · cases present : page.element? id with
    | none =>
      rw [Page.width,walkLimit,widthWithin,if_neg top,present]
      exact zero_le_zero
    | some element =>
      cases above : element.parent with
      | none =>
        rw [Page.width,walkLimit,widthWithin,if_neg top,present]
        dsimp only
        rw [above]
        exact zero_le_greater_zero _
      | some parent =>
        rw [Page.width,walkLimit,widthWithin_succ present above top]
        cases page.widthWithin page.elements.size parent with
        | none => exact zero_le_zero
        | some available => exact zero_le_greater_zero _

private theorem isNaN_fixedHeight_iff (fixed : page.fixedHeight element = some height) : height.isNaN = true ↔
    ∃ share above, lengthOf element "height" = .percent share ∧ page.definiteParentHeight element = some above ∧
      IsIndefinite above share := by
  unfold fixedHeight at fixed
  cases read : lengthOf element "height" with
  | px length =>
    rw [read] at fixed
    obtain rfl := Option.some.inj fixed
    rw [isNaN_of_lengthOf (.inl read)]
    exact iff_of_false Bool.false_ne_true fun ⟨_,_,other,_⟩ => Length.noConfusion other
  | percent share =>
    rw [read] at fixed
    obtain ⟨above,definite,rfl⟩ := Option.map_eq_some_iff.mp fixed
    rw [isNaN_div (by decide +kernel) (by decide +kernel),isNaN_mul_iff,isNaN_definiteParentHeight definite,
      isNaN_of_lengthOf (.inr read),definite]
    simp
  | fitContent | auto =>
    rw [read] at fixed
    cases fixed

private theorem zero_le_greatest (lengths : List Float) : 0 ≤ greatest lengths := by
  have rises (start : Float) (nonneg : 0 ≤ start) : 0 ≤ lengths.foldl greater start := by
    induction lengths generalizing start with
    | nil => exact nonneg
    | cons length lengths ih => exact ih _ (zero_le_greater nonneg length)
  exact rises 0 zero_le_zero

private theorem zero_le_height (present : page.element? id = some element) (inner : id ≠ body)
    (free : page.fixedHeight element = none) (other : element.isImage = false) : 0 ≤ page.height id := by
  rw [Page.height,walkLimit,heightWithin_succ present inner free other]
  cases (page.inFlow element).mapM fun item => page.heightWithin page.elements.size item.1 with
  | none => exact zero_le_zero
  | some heights => exact zero_le_greatest heights

end Page

/-- A size as screens and pictures have it. -/
structure Size.IsProper (size : Size) : Prop where
  width_finite : size.width.isFinite = true
  width_nonneg : 0 ≤ size.width
  height_finite : size.height.isFinite = true
  height_nonneg : 0 ≤ size.height

instance (size : Size) : Decidable size.IsProper :=
  decidable_of_iff ((size.width.isFinite = true ∧ 0 ≤ size.width) ∧ size.height.isFinite = true ∧ 0 ≤ size.height)
    ⟨fun parts => ⟨parts.1.1,parts.1.2,parts.2.1,parts.2.2⟩,
      fun proper => ⟨⟨proper.width_finite,proper.width_nonneg⟩,proper.height_finite,proper.height_nonneg⟩⟩

namespace Page

variable {page : Page} {id : ElementId} {element : Element}

private theorem isNaN_imageHeight_iff (screen : 0 ≤ page.viewport.width)
    (pictured : ∀ natural ∈ element.natural, natural.IsProper) :
    (page.imageHeight id element).isNaN = true ↔ ∃ natural ∈ element.natural,
      0 < natural.width ∧ (page.width id).isInf ∧ natural.height == 0 := by
  have none : (0 : Float).isNaN = false := by decide
  unfold imageHeight
  cases loaded : element.natural with
  | none => exact iff_of_false (by rw [none]; exact Bool.false_ne_true) fun ⟨_,member,_⟩ => Option.not_mem_none _ member
  | some natural =>
    have proper := pictured natural loaded
    have own : (∃ other ∈ some natural, 0 < other.width ∧ (page.width id).isInf ∧ other.height == 0) ↔
        0 < natural.width ∧ (page.width id).isInf ∧ natural.height == 0 :=
      ⟨fun ⟨_,member,rest⟩ => Option.mem_some_iff.mp member ▸ rest,fun rest => ⟨natural,rfl,rest⟩⟩
    rw [own]
    dsimp only
    split_ifs with wide
    · rw [isNaN_div proper.width_finite wide,isNaN_mul_iff,(zero_le_iff.mp (zero_le_width screen id)).1,
        (zero_le_iff.mp proper.height_nonneg).1,IsIndefinite,isInf_of_isFinite proper.height_finite]
      simp [wide]
    · exact iff_of_false (by rw [none]; exact Bool.false_ne_true) fun both => wide both.1

private theorem not_imageHeight_lt_zero (screen : 0 ≤ page.viewport.width)
    (pictured : ∀ natural ∈ element.natural, natural.IsProper) : ¬ page.imageHeight id element < 0 := by
  have none : ¬ (0 : Float) < 0 := by decide
  unfold imageHeight
  cases loaded : element.natural with
  | none => exact none
  | some natural =>
    have proper := pictured natural loaded
    dsimp only
    split_ifs with wide
    · refine not_div_lt_zero (not_mul_lt_zero ?_ ?_) proper.width_finite wide
      · exact (zero_le_iff.mp (zero_le_width screen id)).2
      · exact (zero_le_iff.mp proper.height_nonneg).2
    · exact none

/-- The styles of an element fix its height, to less than nothing. -/
def FixesNegative (page : Page) (element : Element) : Prop := ∃ height ∈ page.fixedHeight element, height < 0

/-- The height of an element is an infinity times zero: as a share of its parent's height, or as that of an image which
is infinitely wide and whose picture has no height. -/
def LosesHeight (page : Page) (id : ElementId) (element : Element) : Prop :=
  (∃ share above, lengthOf element "height" = .percent share ∧ page.definiteParentHeight element = some above ∧
      IsIndefinite above share) ∨
    page.fixedHeight element = none ∧ element.isImage = true ∧ ∃ natural ∈ element.natural,
      0 < natural.width ∧ (page.width id).isInf ∧ natural.height == 0

private theorem not_isIndefinite_of_free (free : page.fixedHeight element = none) :
    ¬ ∃ share above, lengthOf element "height" = .percent share ∧ page.definiteParentHeight element = some above ∧
      IsIndefinite above share := by
  rintro ⟨share,above,read,definite,_⟩
  rw [fixedHeight,read] at free
  simp [definite] at free

private theorem height_sign (screen : 0 ≤ page.viewport.width)
    (pictured : ∀ natural ∈ element.natural, natural.IsProper)
    (present : page.element? id = some element) (inner : id ≠ body) :
    (page.height id < 0 ↔ page.FixesNegative element) ∧
      ((page.height id).isNaN = true ↔ page.LosesHeight id element) := by
  unfold FixesNegative LosesHeight
  cases fixed : page.fixedHeight element with
  | some height =>
    rw [height_fixed present inner fixed,isNaN_fixedHeight_iff fixed]
    simp
  | none =>
    rw [or_iff_right (not_isIndefinite_of_free fixed)]
    cases image : element.isImage with
    | true =>
      rw [height_image present inner fixed image,isNaN_imageHeight_iff screen pictured]
      exact ⟨iff_of_false (not_imageHeight_lt_zero screen pictured) nofun,by simp⟩
    | false => exact sign_of_zero_le (zero_le_height present inner fixed image) nofun (by simp)

/-- Whatever styles are set, no width is negative or NaN, and a height is so only where the element is connected and
its own styles make it so. -/
theorem renderedSize_sign (page : Page) (screen : page.viewport.IsProper)
    (pictured : ∀ element ∈ page.elements, ∀ natural ∈ element.natural, natural.IsProper) (id : ElementId) :
    let size := page.renderedSize id
    (size.width.isNaN = false ∧ ¬ size.width < 0) ∧
      (size.height < 0 ↔ page.isConnected id = true ∧ id ≠ body ∧
        ∃ element ∈ page.element? id, page.FixesNegative element) ∧
      (size.height.isNaN = true ↔ page.isConnected id = true ∧ id ≠ body ∧
        ∃ element ∈ page.element? id, page.LosesHeight id element) := by
  unfold renderedSize
  cases connected : page.isConnected id with
  | false => exact ⟨zero_le_iff.mp zero_le_zero,sign_of_zero_le zero_le_zero (by simp) (by simp)⟩
  | true =>
    refine ⟨zero_le_iff.mp (zero_le_width screen.width_nonneg id),?_⟩
    change (page.height id < 0 ↔ _) ∧ ((page.height id).isNaN = true ↔ _)
    by_cases top : id = body
    · refine sign_of_zero_le ?_ (fun own => own.2.1 top) fun own => own.2.1 top
      rw [top,height_body]
      exact screen.height_nonneg
    · cases present : page.element? id with
      | none =>
        refine sign_of_zero_le ?_ (by simp) (by simp)
        rw [height_unknown top present]
        exact zero_le_zero
      | some element =>
        have listed : element ∈ page.elements := Array.mem_of_getElem? present
        simpa [top] using height_sign screen.width_nonneg (pictured element listed) present top

/-- An image in an element whose height is a share of one below zero. -/
theorem renderedSize_sign_of_nested_shares :
    let page := (ofViewport ⟨800,600⟩).performAll
      [.create "div",.append body ⟨1⟩,.setStyle ⟨1⟩ "height" "-40px",.create "div",.append ⟨1⟩ ⟨2⟩,
        .setStyle ⟨2⟩ "height" "50%",.create "img",.append ⟨2⟩ ⟨3⟩,.resolveImage ⟨3⟩ ⟨100,0⟩]
    page.viewport.IsProper ∧ (∀ element ∈ page.elements, ∀ natural ∈ element.natural, natural.IsProper) ∧
      (page.renderedSize ⟨2⟩).height = -20 ∧ (page.renderedSize ⟨3⟩).height = 0 ∧
      ((page.renderedSize ⟨2⟩).height < 0 ↔ page.isConnected ⟨2⟩ = true ∧ (⟨2⟩ : ElementId) ≠ body ∧
        ∃ element ∈ page.element? ⟨2⟩, page.FixesNegative element) := by
  intro page
  have screen : page.viewport.IsProper := by decide +kernel
  have pictured : ∀ element ∈ page.elements, ∀ natural ∈ element.natural, natural.IsProper := by decide +kernel
  exact ⟨screen,pictured,by decide +kernel,by decide +kernel,(renderedSize_sign page screen pictured ⟨2⟩).2.1⟩

/-- A height that is written with a minus sign is used as it is. -/
theorem renderedSize_of_negative_height :
    let page := (ofViewport ⟨800,600⟩).performAll
      [.create "div",.append body ⟨1⟩,.setStyle ⟨1⟩ "height" "-5px"]
    page.viewport.IsProper ∧ (∀ element ∈ page.elements, element.natural = none) ∧
      page.renderedSize ⟨1⟩ = ⟨800,-5⟩ ∧ (page.renderedSize ⟨1⟩).height < 0 := by
  decide +kernel

end Page
end PinnedMap
