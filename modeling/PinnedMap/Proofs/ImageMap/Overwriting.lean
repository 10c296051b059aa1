import PinnedMap.Proofs.ImageMap.Positions
import PinnedMap.Proofs.Page.Operation

/-! Passes over passes. What a pass writes is no part of the layout that it reads, and what is written to one place
twice is as if it had been written once. So a pass can be repeated, and the passes of maps that share no pin can
change places. -/
namespace PinnedMap

namespace Styles

variable {styles : Styles} {property other : String}

def sets (styles : Styles) (property : String) : Bool := styles.entries.any (·.1 == property)

def reset (entries : List (String × String)) (property text : String) : List (String × String) :=
  entries.map fun entry => if entry.1 == property then (property,text) else entry

private theorem set_of_sets (present : styles.sets property = true) (text : String) :
    styles.set property text = ⟨reset styles.entries property text⟩ :=
  if_pos present

private theorem set_of_not_sets (absent : styles.sets property = false) (text : String) :
    styles.set property text = ⟨styles.entries ++ [(property,text)]⟩ := by
  unfold sets at absent
  unfold set
  rw [absent]
  rfl

private theorem any_reset (entries : List (String × String)) (property text other : String) :
    (reset entries property text).any (·.1 == other) = entries.any (·.1 == other) := by
  unfold reset
  rw [List.any_map]
  refine List.any_congr rfl fun entry => ?_
  by_cases own : entry.1 = property <;> simp [own]

private theorem sets_set (styles : Styles) (property text other : String) :
    (styles.set property text).sets other = (styles.sets other || property == other) := by
  cases present : styles.sets property with
  | true =>
    rw [set_of_sets present]
    by_cases own : property = other
    · subst own
      simpa [sets,any_reset] using present
    · simp [sets,any_reset,own]
  | false =>
    rw [set_of_not_sets present]
    simp [sets]

private theorem reset_of_not_sets (absent : styles.sets property = false) (text : String) :
    reset styles.entries property text = styles.entries := by
  have others := List.any_eq_false.mp absent
  exact (List.map_congr_left fun entry member => if_neg (others entry member)).trans (List.map_id _)

private theorem reset_reset (entries : List (String × String)) (property first second : String) :
    reset (reset entries property first) property second = reset entries property second := by
  unfold reset
  rw [List.map_map]
  refine List.map_congr_left fun entry _ => ?_
  by_cases own : entry.1 = property <;> simp [own]

private theorem reset_comm (entries : List (String × String)) (apart : property ≠ other) (text text' : String) :
    reset (reset entries property text) other text' = reset (reset entries other text') property text := by
  unfold reset
  rw [List.map_map,List.map_map]
  refine List.map_congr_left fun entry _ => ?_
  by_cases own : entry.1 = property
  · simp [own,apart]
  · by_cases own' : entry.1 = other <;> simp [own,own',Ne.symm apart]

private theorem set_set (styles : Styles) (property first second : String) :
    (styles.set property first).set property second = styles.set property second := by
  have present : (styles.set property first).sets property = true := by simp [sets_set]
  rw [set_of_sets present]
  cases before : styles.sets property with
  | true => rw [set_of_sets before,set_of_sets before,reset_reset]
  | false =>
    have rest := reset_of_not_sets before second
    rw [set_of_not_sets before,set_of_not_sets before]
    unfold reset at rest ⊢
    rw [List.map_append,rest]
    simp

private theorem set_comm_of_sets (present : styles.sets property = true) (apart : property ≠ other)
    (text text' : String) :
    (styles.set other text').set property text = (styles.set property text).set other text' := by
  have still : (styles.set other text').sets property = true := by simp [sets_set,present]
  rw [set_of_sets still,set_of_sets present]
  cases before : styles.sets other with
  | true =>
    have after : (Styles.mk (reset styles.entries property text)).sets other = true := (any_reset ..).trans before
    rw [set_of_sets before,set_of_sets after,reset_comm _ apart.symm]
  | false =>
    have after : (Styles.mk (reset styles.entries property text)).sets other = false := (any_reset ..).trans before
    rw [set_of_not_sets before,set_of_not_sets after]
    simp [reset,Ne.symm apart]

theorem set_pair_twice (styles : Styles) (apart : property ≠ other) (first first' second second' : String) :
    (((styles.set property first).set other first').set property second).set other second' =
      (styles.set property second).set other second' := by
  have present : (styles.set property first).sets property = true := by simp [sets_set]
  rw [set_comm_of_sets present apart,set_set,set_set]

end Styles

namespace Page

variable {page : Page} {id other : ElementId} {place : Placement} {places others : List Placement}

private theorem update_comm (page : Page) (apart : id ≠ other) (first second : Element → Element) :
    (page.update id first).update other second = (page.update other second).update id first := by
  have places : id.index ≠ other.index := fun same => apart (ElementId.eq_of_index same)
  simp only [update,mk.injEq,and_true]
  apply Array.ext_getElem?
  intro index
  simp only [Array.getElem?_modify]
  split_ifs with own own'
  · exact absurd (own'.trans own.symm) places
  all_goals rfl

private theorem putAt_putAt (page : Page) {first second : Placement} (same : first.element = second.element) :
    (page.putAt first).putAt second = page.putAt second := by
  unfold putAt styled
  rw [same,update_update]
  congr 1
  funext element
  simp [placeStyles,Styles.set_pair_twice]

private theorem putAt_comm (page : Page) {first second : Placement} (apart : first.element ≠ second.element) :
    (page.putAt first).putAt second = (page.putAt second).putAt first :=
  update_comm page apart _ _

private theorem putAll_concat (page : Page) (places : List Placement) (place : Placement) :
    page.putAll (places ++ [place]) = (page.putAll places).putAt place := by
  simp [putAll,List.foldl_append]

private theorem putAt_putAll_putAt (page : Page) (places : List Placement) (place : Placement) :
    ((page.putAt place).putAll places).putAt place = (page.putAll places).putAt place := by
  induction places generalizing page with
  | nil => exact putAt_putAt page rfl
  | cons first places ih =>
    change (((page.putAt place).putAt first).putAll places).putAt place = ((page.putAt first).putAll places).putAt place
    by_cases own : place.element = first.element
    · rw [putAt_putAt page own]
    · rw [putAt_comm page own,ih]

private theorem putAll_putAll (page : Page) (places : List Placement) :
    (page.putAll places).putAll places = page.putAll places := by
  induction places using List.reverseRecOn with
  | nil => rfl
  | append_singleton places place ih =>
    rw [putAll_concat,putAll_concat,putAt_putAll_putAt,ih]

private theorem putAll_putAt_comm (page : Page) (apart : ∀ other ∈ places, place.element ≠ other.element) :
    (page.putAt place).putAll places = (page.putAll places).putAt place := by
  induction places generalizing page with
  | nil => rfl
  | cons first places ih =>
    change ((page.putAt place).putAt first).putAll places = ((page.putAt first).putAll places).putAt place
    rw [putAt_comm page (apart first (List.mem_cons_self ..)),
      ih _ fun other member => apart other (List.mem_cons_of_mem first member)]

private theorem putAll_comm (page : Page) (apart : ∀ place ∈ places, ∀ other ∈ others, place.element ≠ other.element) :
    (page.putAll places).putAll others = (page.putAll others).putAll places := by
  induction places generalizing page with
  | nil => rfl
  | cons place places ih =>
    change ((page.putAt place).putAll places).putAll others = ((page.putAll others).putAt place).putAll places
    rw [ih _ fun other member => apart other (List.mem_cons_of_mem place member),
      putAll_putAt_comm page (apart place (List.mem_cons_self ..))]

end Page

namespace ImageMap

variable {map : ImageMap} {page : Page}

/-- Placing stops at the first pin that is unknown, and that is the same one on all pages that look alike. -/
theorem exists_forM_putAll (places : List Placement) (page : Page) :
    ∃ result, ∃ written ⊆ places, ∀ other, page.LooksAlike other →
      (places.forM fun place => Editing.step (·.setStyles place.element (placeStyles place.left place.top))) other =
        (result,other.putAll written) := by
  induction places with
  | nil => exact ⟨.ok (),[],List.Subset.refl _,fun _ _ => rfl⟩
  | cons place places ih =>
    have split (other : Page) := Editing.bind_apply
      (Editing.step (·.setStyles place.element (placeStyles place.left place.top)))
      (fun _ => places.forM fun place => Editing.step (·.setStyles place.element (placeStyles place.left place.top)))
      other
    by_cases known : (page.element? place.element).isSome
    · obtain ⟨result,written,within,rest⟩ := ih
      refine ⟨result,place :: written,List.cons_subset_cons place within,fun other alike => ?_⟩
      have done := Page.setStyles_of_known (alike.isSome_eq place.element ▸ known) (placeStyles place.left place.top)
      have first : Editing.step (·.setStyles place.element (placeStyles place.left place.top)) other =
          (.ok (),other.putAt place) := Editing.step_eq_ok.mpr done
      refine (split other).trans ?_
      rw [first]
      exact rest _ (alike.trans (Page.styled_placeStyles_looksAlike other _ _ _))
    · refine ⟨.error (.page (.unknownElement place.element)),[],List.nil_subset _,fun other alike => (split other).trans ?_⟩
      have absent : other.element? place.element = none := by
        rw [alike.isSome_eq] at known
        simpa using known
      have failed : other.setStyles place.element (placeStyles place.left place.top) =
          .error (.unknownElement place.element) := by
        unfold placeStyles
        rw [Page.setStyles_cons,Page.setStyle,Page.edit,Page.find,absent]
        rfl
      rw [Editing.step,failed]
      rfl

/-- A pass reads no more of a page than its look: on all pages that look alike it comes to one result and writes the
same placements. -/
theorem exists_written (map : ImageMap) (page : Page) :
    ∃ result written, (∀ place ∈ written, place.element ∈ map.pins) ∧
      ∀ other, page.LooksAlike other → map.reposition other = (result,other.putAll written) := by
  by_cases phase : map.phase = .attached
  · cases found : map.ratio page with
    | error fault =>
      refine ⟨.error fault,[],by simp,fun other alike => ?_⟩
      exact reposition_of_fault phase (ratio_eq alike ▸ found)
    | ok ratio =>
      obtain ⟨result,written,within,placed⟩ := exists_forM_putAll (map.placements ratio) page
      refine ⟨result.map fun _ => ⟨ratio,map.placements ratio⟩,written,fun place member => ?_,fun other alike => ?_⟩
      · exact element_mem_pins (within member)
      · unfold reposition
        rw [if_neg (by simp [phase])]
        beta_reduce
        rw [Editing.get_bind_apply,Editing.bind_apply,Editing.liftExcept_apply,← ratio_eq alike,found]
        dsimp only
        rw [Editing.bind_apply,placed other alike]
        cases result <;> rfl
  · exact ⟨.error (.positionIn map.phase),[],by simp,fun other _ => reposition_of_phase phase other⟩

theorem reposition_reposition (map : ImageMap) (page : Page) :
    map.reposition (map.reposition page).2 = map.reposition page := by
  obtain ⟨result,written,_,passes⟩ := map.exists_written page
  rw [passes page (.refl page),passes _ (Page.putAll_looksAlike page written),Page.putAll_putAll]

/-- A pass leaves the layout that it reads as it is: every element keeps its size, the pass is the same when it is
made again, and two maps that share no pin can make their passes in either order. -/
theorem reposition_keeps_layout (map other : ImageMap) (page : Page) :
    (∀ id, (map.reposition page).2.renderedSize id = page.renderedSize id) ∧
      map.reposition (map.reposition page).2 = map.reposition page ∧
      ((∀ pin ∈ map.pins, pin ∉ other.pins) →
        (map.reposition (other.reposition page).2).1 = (map.reposition page).1 ∧
          (other.reposition (map.reposition page).2).1 = (other.reposition page).1 ∧
          (other.reposition (map.reposition page).2).2 = (map.reposition (other.reposition page).2).2) := by
  obtain ⟨result,written,within,passes⟩ := map.exists_written page
  obtain ⟨result',written',within',passes'⟩ := other.exists_written page
  have alike := Page.putAll_looksAlike page written
  have alike' := Page.putAll_looksAlike page written'
  refine ⟨fun id => ?_,reposition_reposition map page,fun disjoint => ?_⟩
  · rw [passes page (.refl page)]
    exact (alike.renderedSize_eq id).symm
  · rw [passes page (.refl page),passes' page (.refl page),passes _ alike',passes' _ alike]
    refine ⟨rfl,rfl,Page.putAll_comm page fun place member other member' same => ?_⟩
    exact disjoint place.element (within place member) (same ▸ within' other member')

/-- One of the maps stands in a pin of the other, and both are attached before the viewport shrinks. -/
theorem reposition_keeps_layout_nested :
    let page := (Page.ofViewport ⟨800,600⟩).performAll [.create "div",.append Page.body ⟨1⟩,.create "div",
      .create "img",.resolveImage ⟨3⟩ ⟨1000,500⟩,.create "button",.create "img",.resolveImage ⟨5⟩ ⟨400,400⟩,
      .setStyle ⟨2⟩ "width" "50%",.setStyle ⟨3⟩ "width" "100%",.setStyle ⟨5⟩ "width" "100%"]
    let outer := ImageMap.attach ⟨⟨7⟩,⟨"plan.png",[⟨100,50,none⟩]⟩,{},[⟨2⟩],⟨1⟩,⟨3⟩,none,.loading⟩ page
    let inner := ImageMap.attach ⟨⟨8⟩,⟨"room.png",[⟨40,80,none⟩]⟩,{},[⟨4⟩],⟨2⟩,⟨5⟩,none,.loading⟩ outer.page
    let shrunk := inner.page.setViewport ⟨500,600⟩
    outer.map.phase = .attached ∧ inner.map.phase = .attached ∧ (∀ pin ∈ outer.map.pins, pin ∉ inner.map.pins) ∧
      (outer.map.reposition shrunk).1 = .ok ⟨⟨0.5,0.5⟩,[⟨0,⟨2⟩,50,25⟩]⟩ ∧
      (inner.map.reposition shrunk).1 = .ok ⟨⟨0.625,0.625⟩,[⟨0,⟨4⟩,25,50⟩]⟩ ∧
      (outer.map.reposition (inner.map.reposition shrunk).2).1 = (outer.map.reposition shrunk).1 ∧
      (inner.map.reposition (outer.map.reposition shrunk).2).1 = (inner.map.reposition shrunk).1 ∧
      (inner.map.reposition (outer.map.reposition shrunk).2).2 =
        (outer.map.reposition (inner.map.reposition shrunk).2).2 := by
  intro page outer inner shrunk
  have disjoint : ∀ pin ∈ outer.map.pins, pin ∉ inner.map.pins := by decide +kernel
  obtain ⟨_,_,either⟩ := reposition_keeps_layout outer.map inner.map shrunk
  exact ⟨by decide +kernel,by decide +kernel,disjoint,by decide +kernel,by decide +kernel,either disjoint⟩

end ImageMap
end PinnedMap
