import PinnedMap.Proofs.ImageMap.Fitting

/-! What the calls of a map cannot undo. They create a wrapper, set styles and a class and move elements, so
what a page keeps through all of that it keeps through every call, whether the call succeeds or stops half way. -/
namespace PinnedMap

namespace Page

/-- What a page keeps whatever is styled, moved or created on it, as long as no element changes its tag or
its natural size. -/
structure IsKept (holds : Page → Prop) : Prop where
  update : ∀ page id (change : Element → Element), (∀ element, (change element).tag = element.tag) →
    (∀ element, (change element).natural = element.natural) → holds page → holds (page.update id change)
  hang : ∀ page parent child, holds page → holds (page.hang parent child)
  unlink : ∀ page child, holds page → holds (page.unlink child)
  create : ∀ page tag, holds page → holds (page.create tag).2

variable {holds : Page → Prop} {page : Page}

theorem IsKept.styled (kept : IsKept holds) (id : ElementId) (table : StyleTable) (before : holds page) :
    holds (page.styled id table) :=
  kept.update page id _ (fun _ => rfl) (fun _ => rfl) before

theorem IsKept.putAll (kept : IsKept holds) (places : List Placement) (before : holds page) :
    holds (page.putAll places) :=
  holds_putAll (fun _ id table => kept.styled id table) places before

/-- An element with a tag. No element ever loses the one that it was made with. -/
def HasTag (id : ElementId) (tag : String) (page : Page) : Prop :=
  ∃ element, page.element? id = some element ∧ element.tag = tag

theorem HasTag.update {id : ElementId} {tag : String} (tagged : page.HasTag id tag) (other : ElementId)
    {change : Element → Element} (same : ∀ element, (change element).tag = element.tag) :
    (page.update other change).HasTag id tag := by
  obtain ⟨element,found,own⟩ := tagged
  rw [HasTag,element?_update,found]
  split_ifs
  · exact ⟨_,rfl,(same element).trans own⟩
  · exact ⟨element,rfl,own⟩

theorem isKept_hasTag (id : ElementId) (tag : String) : IsKept (HasTag id tag) := by
  refine ⟨?_,?_,?_,?_⟩
  · exact fun page other change same _ tagged => tagged.update other same
  · rintro page parent child ⟨element,found,own⟩
    rw [HasTag,element?_hang,found]
    exact ⟨_,rfl,own⟩
  · rintro page child ⟨element,found,own⟩
    rw [HasTag,element?_unlink,found]
    exact ⟨_,rfl,own⟩
  · rintro page other ⟨element,found,own⟩
    have known : (page.element? id).isSome := by rw [found]; rfl
    rw [HasTag,element?_create_of_known known]
    exact ⟨element,found,own⟩

theorem HasTag.perform {id : ElementId} {tag : String} (tagged : page.HasTag id tag) (operation : Operation) :
    (page.perform operation).HasTag id tag := by
  have kept := isKept_hasTag id tag
  unfold Page.perform
  cases done : operation.on page with
  | error fault => exact tagged
  | ok next =>
    cases operation with
    | create other =>
      obtain rfl := Except.ok.inj done
      exact kept.create page other tagged
    | setStyle other property text =>
      obtain ⟨_,rfl⟩ := edit_eq_ok.mp done
      exact kept.update page other _ (fun _ => rfl) (fun _ => rfl) tagged
    | setClass other name =>
      obtain ⟨_,rfl⟩ := edit_eq_ok.mp done
      exact kept.update page other _ (fun _ => rfl) (fun _ => rfl) tagged
    | append parent child =>
      obtain ⟨_,_,_,rfl⟩ := append_eq_ok.mp done
      exact kept.hang page parent child tagged
    | remove parent child =>
      obtain ⟨_,rfl⟩ := remove_eq_ok.mp done
      exact kept.unlink page child tagged
    | setViewport viewport =>
      obtain rfl := Except.ok.inj done
      exact tagged
    -- These change the natural size as well, so the general lemma does not apply.
    | setSource other url =>
      obtain ⟨_,rfl⟩ := edit_eq_ok.mp done
      exact tagged.update other fun _ => rfl
    | resolveImage other size =>
      obtain ⟨_,rfl⟩ := resolveImage_eq_ok.mp done
      exact tagged.update other fun _ => rfl

end Page

namespace ImageMap

variable {holds : Page → Prop} {page : Page}

/-- Wrapping sets a class and styles and moves the map's own elements; what is kept by that is kept however far it
comes. -/
theorem leads_wrap_of_closed (map : ImageMap) (wrapper : ElementId)
    (styled : ∀ page id table, holds page → holds (page.styled id table))
    (named : ∀ page next name, holds page → page.setClass wrapper name = .ok next → holds next)
    (moved : ∀ page next parent, ∀ child ∈ wrapper :: map.contents, holds page → page.append parent child = .ok next →
      holds next) : Editing.Leads (map.wrap wrapper) holds (fun _ => holds) holds := by
  have styling (id : ElementId) (entry : String × StyleValue) (table : StyleTable) :
      Editing.Leads (Editing.step (·.setStyles id (entry :: table))) holds (fun _ => holds) holds := by
    refine Editing.leads_step (fun page next before done => ?_) fun _ _ before _ => before
    obtain ⟨_,rfl⟩ := Page.setStyles_eq_ok.mp done
    exact styled page id _ before
  have moving (parent child : ElementId) (own : child ∈ wrapper :: map.contents) :
      Editing.Leads (Editing.step (·.append parent child)) holds (fun _ => holds) holds :=
    Editing.leads_step (fun page next before done => moved page next parent child own before done)
      fun _ _ before _ => before
  have naming : Editing.Leads (Editing.step (·.setClass wrapper map.options.className)) holds (fun _ => holds) holds :=
    Editing.leads_step (fun page next before done => named page next _ before done) fun _ _ before _ => before
  have binding : ∀ pins ⊆ map.pins, Editing.Leads (pins.forM (bindPin wrapper)) holds (fun _ => holds) holds := by
    intro pins listed
    induction pins with
    | nil => exact fun page before => before
    | cons pin pins ih =>
      obtain ⟨own,rest⟩ := List.cons_subset.mp listed
      have first : Editing.Leads (bindPin wrapper pin) holds (fun _ => holds) holds :=
        (moving wrapper pin (by simp [contents,own])).bind fun _ => styling pin _ _
      exact first.bind fun _ => ih rest
  exact naming.bind fun _ => (styling wrapper _ _).bind fun _ =>
    (moving wrapper map.image (by simp [contents])).bind fun _ => (binding map.pins (List.Subset.refl _)).bind fun _ =>
      moving map.container wrapper (List.mem_cons_self ..)

private theorem leads_wrap_of_isKept (kept : Page.IsKept holds) (map : ImageMap) (wrapper : ElementId) :
    Editing.Leads (map.wrap wrapper) holds (fun _ => holds) holds := by
  refine leads_wrap_of_closed map wrapper (fun _ id table => kept.styled id table) (fun page next name before done => ?_)
    fun page next parent child _ before done => ?_
  · obtain ⟨_,rfl⟩ := Page.edit_eq_ok.mp done
    exact kept.update page wrapper _ (fun _ => rfl) (fun _ => rfl) before
  · obtain ⟨_,_,_,rfl⟩ := Page.append_eq_ok.mp done
    exact kept.hang page parent child before

theorem holds_attach (map : ImageMap) (styled : ∀ page id table, holds page → holds (page.styled id table))
    (created : holds (page.create "div").2)
    (wraps : Editing.Leads (map.wrap (page.create "div").1) holds (fun _ => holds) holds) (before : holds page) :
    holds (map.attach page).page := by
  have led := wraps _ created
  rcases attach_cases map page with ⟨_,_,refused⟩ | ⟨_,⟨_,_,stops,stopped⟩ | ⟨_,_,wraps,attached⟩⟩
  · rw [refused]
    exact before
  · rw [stops] at led
    rw [stopped]
    exact led
  · rw [wraps] at led
    rw [attached]
    exact Page.holds_putAll styled _ led

end ImageMap

namespace Page

variable {holds : Page → Prop} {page : Page}

theorem IsKept.attach (kept : IsKept holds) (map : ImageMap) (before : holds page) : holds (map.attach page).page :=
  ImageMap.holds_attach map (fun _ id table => kept.styled id table) (kept.create page "div" before)
    (ImageMap.leads_wrap_of_isKept kept map _) before

theorem IsKept.reposition (kept : IsKept holds) (map : ImageMap) (before : holds page) :
    holds (map.reposition page).2 :=
  ImageMap.holds_reposition map holds (fun _ id table => kept.styled id table) before

theorem IsKept.unhung (kept : IsKept holds) (map : ImageMap) (before : holds page) : holds (map.unhung page) := by
  rcases ImageMap.unhung_cases map page with same | ⟨wrapper,_,same⟩
  · rwa [same]
  · rw [same]
    exact kept.unlink page wrapper before

end Page

namespace ImageMap.Life

variable {life : Life} {id : ElementId} {tag : String}

theorem hasTag_after (tagged : life.page.HasTag id tag) (call : Call) : (life.after call).page.HasTag id tag := by
  have kept := Page.isKept_hasTag id tag
  cases call with
  | attach => exact kept.attach life.map tagged
  | reposition => exact kept.reposition life.map tagged
  | markFailed => exact tagged
  | detach =>
    rw [after,detach_eq]
    exact kept.unhung life.map tagged
  | edit operation => exact tagged.perform operation

theorem wrapper_hasTag_after (wrapped : ∀ wrapper, life.map.wrapper = some wrapper → life.page.HasTag wrapper "div")
    (call : Call) : ∀ wrapper, (life.after call).map.wrapper = some wrapper →
      (life.after call).page.HasTag wrapper "div" := by
  intro wrapper own
  by_cases same : life.map.wrapper = some wrapper
  · exact hasTag_after (wrapped wrapper same) call
  · cases call with
    | attach =>
      rcases attach_cases life.map life.page with
        ⟨_,_,refused⟩ | ⟨_,⟨_,_,_,refused⟩ | ⟨wrapped,_,wraps,attached⟩⟩
      · rw [after,refused] at own
        exact absurd own same
      · rw [after,refused] at own
        exact absurd own same
      · rw [after,attached] at own ⊢
        obtain rfl := Option.some.inj own
        have kept := Page.isKept_hasTag (life.page.create "div").1 "div"
        have made : (life.page.create "div").2.HasTag (life.page.create "div").1 "div" := by
          rw [Page.HasTag,Page.element?_create,if_pos rfl]
          exact ⟨_,rfl,rfl⟩
        have led := leads_wrap_of_isKept kept life.map (life.page.create "div").1 _ made
        rw [wraps] at led
        exact kept.putAll _ led
    | reposition | edit => exact absurd own same
    | markFailed =>
      unfold after markFailed at own
      split_ifs at own <;> exact absurd own same
    | detach =>
      rw [after,detach_eq] at own
      cases own

theorem isForest_after (forest : life.page.IsForest) (call : Call) : (life.after call).page.IsForest := by
  cases call with
  | attach => exact isForest_attach life.map forest
  | reposition => exact isForest_reposition life.map forest
  | markFailed => exact forest
  | detach =>
    rw [after,detach_eq]
    exact isForest_unhung life.map forest
  | edit operation => exact forest.perform operation

end ImageMap.Life

namespace ImageMap

variable {start : Page} {id : Uuid} {plan : MapPlan} {pins : List ElementId} {container : ElementId}
  {options : LayoutOptions} {map : ImageMap}

theorem page_of_created (created : create page id plan pins container options = .ok (map,start)) :
    start = ((page.create "img").2.styled map.image imageStyles).update map.image
      fun element => { element with source := some plan.image, natural := none } := by
  rw [(create_eq_ok created).2]
  unfold create at created
  split_ifs at created
  dsimp only at created
  split at created
  next styled done =>
    obtain ⟨-,rfl⟩ := Prod.mk.inj (Except.ok.inj created)
    have new : ((page.create "img").2.element? (page.create "img").1).isSome := by
      rw [Page.element?_create,if_pos rfl]
      rfl
    rw [Page.setStyles_of_known new] at done
    exact (Page.edit_eq_ok.mp done).2
  next => cases created

end ImageMap
end PinnedMap
