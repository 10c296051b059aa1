import PinnedMap.Proofs.ImageMap.Editing
import Mathlib.Data.List.Induction

/-! What a layout pass writes. A pass reads the ratio before it writes, and what it writes is not read, so a
second pass puts every pin where the first one left it. -/
namespace PinnedMap

def Placement.written (place : Placement) (property : String) : Option String :=
  if property = "left" then some (px place.left)
  else if property = "top" then some (px place.top)
  else none

namespace Page

variable {page next : Page} {id : ElementId} {places : List Placement}

def putAt (page : Page) (place : Placement) : Page :=
  page.styled place.element (placeStyles place.left place.top)

def putAll (page : Page) (places : List Placement) : Page := places.foldl putAt page

theorem styled_placeStyles_looksAlike (page : Page) (id : ElementId) (left top : Float) :
    page.LooksAlike (page.styled id (placeStyles left top)) := by
  have alike := (LooksAlike.setStyle page id "left" (px left) (.inl rfl)).trans
    (LooksAlike.setStyle _ id "top" (px top) (.inr rfl))
  rw [update_update] at alike
  exact alike

theorem putAll_looksAlike (page : Page) (places : List Placement) : page.LooksAlike (page.putAll places) := by
  induction places generalizing page with
  | nil => exact .refl page
  | cons place places ih => exact (styled_placeStyles_looksAlike page _ _ _).trans (ih _)

private theorem style_putAt (known : (page.element? id).isSome) (place : Placement) (property : String) :
    (page.putAt place).style id property =
      if place.element = id then (place.written property).or (page.style id property) else page.style id property := by
  obtain ⟨element,found⟩ := Option.isSome_iff_exists.mp known
  unfold putAt styled style
  rw [element?_update,found]
  by_cases own : place.element = id
  · simp only [own,if_true,Option.map_some,Option.bind_some,placeStyles,List.foldl_cons,List.foldl_nil,
      Styles.get?_set,Placement.written,StyleValue.written]
    by_cases top : property = "top"
    · subst top
      simp
    · by_cases left : property = "left" <;> simp [top,left]
  · simp [own,Ne.symm own]

theorem isSome_element?_putAll (page : Page) (places : List Placement) (id : ElementId) :
    ((page.putAll places).element? id).isSome = (page.element? id).isSome :=
  ((putAll_looksAlike page places).isSome_eq id).symm

theorem style_putAll (known : (page.element? id).isSome) (places : List Placement) (property : String) :
    (page.putAll places).style id property =
      ((places.reverse.find? (·.element = id)).bind (·.written property)).or (page.style id property) := by
  induction places using List.reverseRecOn with
  | nil => rfl
  | append_singleton places place ih =>
    have still : ((page.putAll places).element? id).isSome := by rwa [isSome_element?_putAll]
    have last : page.putAll (places ++ [place]) = (page.putAll places).putAt place := by
      simp [putAll,List.foldl_append]
    rw [last,style_putAt still,ih,List.reverse_append]
    by_cases own : place.element = id
    · simp only [own,if_true,List.reverse_singleton,List.singleton_append,List.find?_cons,decide_true,Option.bind_some]
      -- A placement writes a property always or never.
      by_cases left : property = "left"
      · simp [Placement.written,left]
      · by_cases top : property = "top"
        · simp [Placement.written,top]
        · have never (place : Placement) : place.written property = none := by
            simp [Placement.written,left,top]
          cases places.reverse.find? (·.element = id) <;> simp [never]
    · simp [own]

end Page

namespace ImageMap

variable {map : ImageMap} {page next : Page} {ratio : Ratio}

theorem reposition_of_phase (phase : map.phase ≠ .attached) (page : Page) :
    map.reposition page = (.error (.positionIn map.phase),page) := by
  unfold reposition
  rw [if_pos phase]
  rfl

theorem reposition_of_fault {fault : MapFault} (phase : map.phase = .attached)
    (found : map.ratio page = .error fault) :
    map.reposition page = (.error fault,page) := by
  unfold reposition
  rw [if_neg (by simp [phase])]
  beta_reduce
  rw [Editing.get_bind_apply,Editing.bind_apply,Editing.liftExcept_apply,found]

theorem element_mem_pins {place : Placement} (placed : place ∈ map.placements ratio) :
    place.element ∈ map.pins := by
  unfold placements at placed
  obtain ⟨⟨⟨pin,gate⟩,index⟩,listed,rfl⟩ := List.mem_map.mp placed
  exact (List.of_mem_zip (List.fst_mem_of_mem_zipIdx listed)).1

private theorem forM_putAll (places : List Placement)
    (known : ∀ place ∈ places, (page.element? place.element).isSome) :
    (places.forM fun place => Editing.step (·.setStyles place.element (placeStyles place.left place.top))) page =
      (.ok (),page.putAll places) := by
  induction places generalizing page with
  | nil => rfl
  | cons place places ih =>
    rw [Editing.forM_cons_eq_ok]
    refine ⟨page.putAt place,?_,?_⟩
    · exact Editing.step_eq_ok.mpr (Page.setStyles_of_known (known place (by simp)) _)
    · apply ih
      intro other member
      have alike := Page.styled_placeStyles_looksAlike page place.element place.left place.top
      rw [Page.putAt,← alike.isSome_eq]
      exact known other (by simp [member])

theorem reposition_of_ratio (phase : map.phase = .attached) (found : map.ratio page = .ok ratio)
    (known : ∀ pin ∈ map.pins, (page.element? pin).isSome) :
    map.reposition page = (.ok ⟨ratio,map.placements ratio⟩,page.putAll (map.placements ratio)) := by
  have placed := forM_putAll (map.placements ratio)
    fun place member => known place.element (element_mem_pins member)
  unfold reposition
  rw [if_neg (by simp [phase])]
  beta_reduce
  rw [Editing.get_bind_apply,Editing.bind_apply,Editing.liftExcept_apply,found]
  dsimp only
  rw [Editing.bind_apply,placed]
  rfl

private theorem eq_putAll_of_forM {places : List Placement} {done : Unit}
    (placed : (places.forM fun place => Editing.step (·.setStyles place.element (placeStyles place.left place.top)))
      page = (.ok done,next)) :
    next = page.putAll places := by
  induction places generalizing page with
  | nil => exact (Prod.ext_iff.mp placed).2.symm
  | cons place places ih =>
    obtain ⟨first,head,rest⟩ := Editing.forM_cons_eq_ok.mp placed
    obtain ⟨_,rfl⟩ := Page.setStyles_eq_ok.mp (Editing.step_eq_ok.mp head)
    exact ih rest

theorem reposition_eq_ok {update : Reposition} (pass : map.reposition page = (.ok update,next)) :
    update.placements = map.placements update.ratio ∧ next = page.putAll update.placements := by
  by_cases phase : map.phase = .attached
  · cases found : map.ratio page with
    | error fault =>
      rw [reposition_of_fault phase found] at pass
      cases pass
    | ok ratio =>
      unfold reposition at pass
      rw [if_neg (by simp [phase])] at pass
      beta_reduce at pass
      rw [Editing.get_bind_apply,Editing.bind_apply,Editing.liftExcept_apply,found] at pass
      obtain ⟨_,placed,writes,told⟩ := Editing.bind_eq_ok.mp pass
      cases told
      exact ⟨rfl,eq_putAll_of_forM writes⟩
  · rw [reposition_of_phase phase] at pass
    cases pass

theorem reposition_looksAlike (known : ∀ pin ∈ map.pins, (page.element? pin).isSome) :
    page.LooksAlike (map.reposition page).2 := by
  by_cases phase : map.phase = .attached
  · cases found : map.ratio page with
    | error fault =>
      rw [reposition_of_fault phase found]
      exact .refl page
    | ok ratio =>
      rw [reposition_of_ratio phase found known]
      exact Page.putAll_looksAlike page _
  · rw [reposition_of_phase phase]
    exact .refl page

theorem reposition_of_error {fault : MapFault} (known : ∀ pin ∈ map.pins, (page.element? pin).isSome)
    (failed : map.reposition page = (.error fault,next)) : next = page := by
  by_cases phase : map.phase = .attached
  · cases found : map.ratio page with
    | error fault =>
      rw [reposition_of_fault phase found] at failed
      exact (Prod.ext_iff.mp failed).2.symm
    | ok ratio =>
      rw [reposition_of_ratio phase found known] at failed
      cases failed
  · rw [reposition_of_phase phase] at failed
    exact (Prod.ext_iff.mp failed).2.symm

/-- A pass over the page would leave every pin where it is. -/
def IsPlaced (map : ImageMap) (page : Page) : Prop :=
  ∀ pin ∈ map.pins, ∀ property ∈ ["left","top"],
    page.style pin property = (map.reposition page).2.style pin property

theorem ratio_eq (alike : page.LooksAlike next) : map.ratio page = map.ratio next := by
  unfold ratio naturalSize
  rw [alike.natural_eq,alike.renderedSize_eq]

theorem reposition_result_eq (same : map.ratio next = map.ratio page)
    (known : ∀ pin ∈ map.pins, (page.element? pin).isSome) (known' : ∀ pin ∈ map.pins, (next.element? pin).isSome) :
    (map.reposition next).1 = (map.reposition page).1 := by
  by_cases phase : map.phase = .attached
  · cases found : map.ratio page with
    | error fault => rw [reposition_of_fault phase found,reposition_of_fault phase (same.trans found)]
    | ok ratio => rw [reposition_of_ratio phase found known,reposition_of_ratio phase (same.trans found) known']
  · rw [reposition_of_phase phase,reposition_of_phase phase]

theorem IsPlaced.of_ratio (placed : map.IsPlaced page) (same : map.ratio next = map.ratio page)
    (styles : ∀ pin ∈ map.pins, ∀ property ∈ ["left","top"], next.style pin property = page.style pin property)
    (known : ∀ pin ∈ map.pins, (page.element? pin).isSome)
    (known' : ∀ pin ∈ map.pins, (next.element? pin).isSome) :
    map.IsPlaced next := by
  intro pin member property placing
  have before := placed pin member property placing
  by_cases phase : map.phase = .attached
  · cases found : map.ratio page with
    | error fault => rw [reposition_of_fault phase (same.trans found)]
    | ok ratio =>
      rw [reposition_of_ratio phase found known,Page.style_putAll (known pin member)] at before
      rw [reposition_of_ratio phase (same.trans found) known',Page.style_putAll (known' pin member),
        styles pin member property placing]
      exact before
  · rw [reposition_of_phase phase]

theorem isPlaced_reposition (known : ∀ pin ∈ map.pins, (page.element? pin).isSome) :
    map.IsPlaced (map.reposition page).2 := by
  intro pin member property placing
  by_cases phase : map.phase = .attached
  · cases found : map.ratio page with
    | error fault => rw [reposition_of_fault phase found,reposition_of_fault phase found]
    | ok ratio =>
      rw [reposition_of_ratio phase found known]
      have alike := Page.putAll_looksAlike page (map.placements ratio)
      have known' : ∀ pin ∈ map.pins, ((page.putAll (map.placements ratio)).element? pin).isSome := by
        intro pin member
        rw [Page.isSome_element?_putAll]
        exact known pin member
      rw [reposition_of_ratio phase (ratio_eq alike ▸ found) known',Page.style_putAll (known' pin member),
        Page.style_putAll (known pin member),← Option.or_assoc,Option.or_self]
  · rw [reposition_of_phase phase,reposition_of_phase phase]

end ImageMap
end PinnedMap
