import PinnedMap.Proofs.ImageMap.Positions

/-! Attaching as a chain of edits. A map that was attached had its first layout pass on a page that knows all
of its pins. -/
namespace PinnedMap.ImageMap

variable {map : ImageMap} {page last : Page} {wrapper : ElementId}

def bindPin (wrapper pin : ElementId) : Editing Unit := do
  Editing.step (·.append wrapper pin)
  Editing.step (·.setStyles pin bindingStyles)

theorem bindPin_eq_ok {pin : ElementId} {done : Unit} :
    bindPin wrapper pin page = (.ok done,last) ↔
      ∃ moved, page.append wrapper pin = .ok moved ∧ last = moved.styled pin bindingStyles := by
  unfold bindPin
  simp only [Editing.bind_eq_ok,Editing.step_eq_ok]
  constructor
  · rintro ⟨_,moved,appended,styled⟩
    exact ⟨moved,appended,(Page.setStyles_eq_ok.mp styled).2⟩
  · rintro ⟨moved,appended,rfl⟩
    have known : (moved.element? pin).isSome := by
      obtain ⟨_,known,_,rfl⟩ := Page.append_eq_ok.mp appended
      rwa [Page.isSome_element?_hang]
    exact ⟨(),moved,appended,Page.setStyles_of_known known _⟩

theorem wrap_eq_ok {done : Unit} :
    map.wrap wrapper page = (.ok done,last) ↔
      ∃ named dressed filled pinned, page.setClass wrapper map.options.className = .ok named ∧
        named.setStyles wrapper (wrapperStyles map.options.maxWidth) = .ok dressed ∧
        dressed.append wrapper map.image = .ok filled ∧
        map.pins.forM (bindPin wrapper) filled = (.ok (),pinned) ∧
        pinned.append map.container wrapper = .ok last := by
  unfold wrap
  simp only [Editing.bind_eq_ok,Editing.step_eq_ok]
  constructor
  · rintro ⟨_,named,first,_,dressed,second,_,filled,third,_,pinned,fourth,fifth⟩
    exact ⟨named,dressed,filled,pinned,first,second,third,fourth,fifth⟩
  · rintro ⟨named,dressed,filled,pinned,first,second,third,fourth,fifth⟩
    exact ⟨(),named,first,(),dressed,second,(),filled,third,(),pinned,fourth,fifth⟩

theorem forM_bindPin_known {pins : List ElementId} {done : Unit}
    (bound : pins.forM (bindPin wrapper) page = (.ok done,last)) :
    last.elements.size = page.elements.size ∧ ∀ pin ∈ pins, (last.element? pin).isSome := by
  induction pins generalizing page with
  | nil =>
    cases bound
    exact ⟨rfl,by simp⟩
  | cons pin pins ih =>
    obtain ⟨next,head,rest⟩ := Editing.forM_cons_eq_ok.mp bound
    obtain ⟨moved,appended,rfl⟩ := bindPin_eq_ok.mp head
    obtain ⟨_,known,_,rfl⟩ := Page.append_eq_ok.mp appended
    obtain ⟨size,others⟩ := ih rest
    have kept : last.elements.size = page.elements.size := by simpa [Page.styled] using size
    refine ⟨kept,fun other member => ?_⟩
    rcases List.mem_cons.mp member with rfl | inside
    · rw [Page.isSome_element?] at known ⊢
      omega
    · exact others other inside

theorem wrap_known {done : Unit} (wrapped : map.wrap wrapper page = (.ok done,last)) :
    ∀ pin ∈ map.pins, (last.element? pin).isSome := by
  obtain ⟨_,_,filled,pinned,_,_,_,bound,hung⟩ := wrap_eq_ok.mp wrapped
  obtain ⟨_,_,_,rfl⟩ := Page.append_eq_ok.mp hung
  intro pin member
  rw [Page.isSome_element?_hang]
  exact (forM_bindPin_known bound).2 pin member

theorem wrap_wrapper_known {done : Unit} (wrapped : map.wrap wrapper page = (.ok done,last)) :
    (last.element? wrapper).isSome := by
  obtain ⟨_,_,_,_,_,_,_,_,hung⟩ := wrap_eq_ok.mp wrapped
  obtain ⟨_,known,_,rfl⟩ := Page.append_eq_ok.mp hung
  rwa [Page.isSome_element?_hang]

def wrappedIn (map : ImageMap) (wrapper : ElementId) : ImageMap :=
  { map with wrapper := some wrapper, phase := .attached }

theorem attach_of_wrap {done : Unit} (ready : map.attachable page = .ok ())
    (wrapped : map.wrap (page.create "div").1 (page.create "div").2 = (.ok done,last)) :
    map.attach page =
      ⟨map.wrappedIn (page.create "div").1,((map.wrappedIn (page.create "div").1).reposition last).2,
        ((map.wrappedIn (page.create "div").1).reposition last).1⟩ := by
  unfold attach
  rw [ready]
  dsimp only
  rw [wrapped]
  rfl

theorem attach_eq_ok {update : Reposition} (attached : (map.attach page).result = .ok update) :
    ∃ wrapped, map.wrap (page.create "div").1 (page.create "div").2 = (.ok (),wrapped) ∧
      (map.attach page).map = map.wrappedIn (page.create "div").1 ∧
      (map.wrappedIn (page.create "div").1).reposition wrapped = (.ok update,(map.attach page).page) := by
  cases ready : map.attachable page with
  | error fault =>
    unfold attach at attached
    rw [ready] at attached
    cases attached
  | ok done =>
    cases wrapped : map.wrap (page.create "div").1 (page.create "div").2 with
    | mk result edited =>
      cases result with
      | error fault =>
        unfold attach at attached
        rw [ready] at attached
        dsimp only at attached
        rw [wrapped] at attached
        cases attached
      | ok done =>
        rw [attach_of_wrap ready wrapped] at attached ⊢
        refine ⟨edited,rfl,rfl,?_⟩
        exact Prod.ext attached rfl

end PinnedMap.ImageMap
