import PinnedMap.Proofs.ImageMap.Fitting

/-! Attaching a map as soon as its image is loaded: the image is given its size, and then the map is attached, in one
go and on one page. What comes of it is what comes of attaching, for an image that may have been refused before. -/
namespace PinnedMap.ImageMap

variable {natural : Size} {map attached : ImageMap} {page after : Page}

/-- Notes the size of the image and attaches the map. -/
def attachLoaded (natural : Size) (map : ImageMap) (page : Page) : Outcome Reposition :=
  match page.resolveImage map.image natural with
  | .error fault => ⟨map,page,.error (.page fault)⟩
  | .ok loaded => map.attach loaded

/-- The page on which a map that is attached has its first layout pass. -/
def filled (natural : Size) (map : ImageMap) (page : Page) : Page :=
  let loaded := page.perform (.resolveImage map.image natural)
  (map.wrap (loaded.create "div").1 (loaded.create "div").2).2

private theorem size_of_resolveImage {id : ElementId} {next : Page}
    (resolved : page.resolveImage id natural = .ok next) : next.elements.size = page.elements.size := by
  obtain ⟨_,rfl⟩ := Page.resolveImage_eq_ok.mp resolved
  exact Page.size_update ..

private theorem attachLoaded_cases (natural : Size) (map : ImageMap) (page : Page) :
    (∃ fault, map.attachLoaded natural page = ⟨map,page,.error fault⟩) ∨
      ∃ loaded, page.resolveImage map.image natural = .ok loaded ∧
        map.attachLoaded natural page = map.attach loaded := by
  unfold attachLoaded
  cases resolved : page.resolveImage map.image natural with
  | error fault => exact .inl ⟨_,rfl⟩
  | ok loaded => exact .inr ⟨loaded,rfl,rfl⟩

theorem attachLoaded_eq_error {fault : MapFault}
    (outcome : map.attachLoaded natural page = ⟨attached,after,.error fault⟩) : attached = map := by
  rcases attachLoaded_cases natural map page with ⟨_,refused⟩ | ⟨loaded,_,attaches⟩
  · cases outcome.symm.trans refused
    rfl
  · rw [outcome] at attaches
    have failed := attach_map_of_error (congrArg Outcome.result attaches.symm)
    rwa [← attaches] at failed

/-- A map that is attached was wrapped, on a page with all its pins, and had its first pass there. -/
theorem attachLoaded_pass {update : Reposition}
    (outcome : map.attachLoaded natural page = ⟨attached,after,.ok update⟩) :
    attached = map.wrappedIn ⟨page.elements.size⟩ ∧
      attached.reposition (map.filled natural page) = (.ok update,after) ∧
      page.elements.size < (map.filled natural page).elements.size ∧
      ∀ pin ∈ attached.pins, ((map.filled natural page).element? pin).isSome := by
  rcases attachLoaded_cases natural map page with ⟨_,refused⟩ | ⟨loaded,resolved,attaches⟩
  · cases outcome.symm.trans refused
  · rw [outcome] at attaches
    obtain ⟨wrapped,wraps,own,placed⟩ := attach_eq_ok (congrArg Outcome.result attaches.symm)
    rw [← attaches] at own placed
    obtain rfl : attached = _ := own
    have filling : map.filled natural page = wrapped := by
      rw [filled,Page.perform,Page.Operation.on,resolved]
      exact congrArg Prod.snd wraps
    have known := wrap_wrapper_known wraps
    rw [Page.isSome_element?] at known
    rw [filling,← size_of_resolveImage resolved]
    exact ⟨rfl,placed,known,wrap_known wraps⟩

theorem attachLoaded_eq_ok {update : Reposition}
    (outcome : map.attachLoaded natural page = ⟨attached,after,.ok update⟩) :
    attached = map.wrappedIn ⟨page.elements.size⟩ ∧ page.elements.size < after.elements.size ∧
      update.placements = map.placements update.ratio ∧
      after = (map.filled natural page).putAll update.placements := by
  obtain ⟨rfl,pass,grown,_⟩ := attachLoaded_pass outcome
  have size := size_reposition (map.wrappedIn ⟨page.elements.size⟩) (map.filled natural page)
  rw [pass] at size
  obtain ⟨told,written⟩ := reposition_eq_ok pass
  exact ⟨rfl,size.symm ▸ grown,told,written⟩

theorem attachLoaded_known {update : Reposition}
    (outcome : map.attachLoaded natural page = ⟨attached,after,.ok update⟩) :
    ∀ pin ∈ attached.pins, (after.element? pin).isSome := by
  obtain ⟨_,pass,_,known⟩ := attachLoaded_pass outcome
  have alike := reposition_looksAlike known
  rw [pass] at alike
  intro pin member
  rw [← alike.isSome_eq]
  exact known pin member

theorem isForest_attachLoaded (natural : Size) (map : ImageMap) (forest : page.IsForest) :
    (map.attachLoaded natural page).page.IsForest := by
  rcases attachLoaded_cases natural map page with ⟨_,refused⟩ | ⟨loaded,resolved,attaches⟩
  · rw [refused]
    exact forest
  · rw [attaches]
    exact isForest_attach map (forest.on (.resolveImage map.image natural) resolved)

theorem orphan_of_attachLoaded (forest : page.IsForest) {fault : MapFault}
    (outcome : map.attachLoaded natural page = ⟨attached,after,.error fault⟩) :
    after.elements.size = page.elements.size ∨ after.parent ⟨page.elements.size⟩ = none := by
  rcases attachLoaded_cases natural map page with ⟨_,refused⟩ | ⟨loaded,resolved,attaches⟩
  · cases outcome.symm.trans refused
    exact .inl rfl
  · rw [outcome] at attaches
    have still : loaded.IsForest := forest.on (.resolveImage map.image natural) resolved
    rw [← size_of_resolveImage resolved]
    rcases attach_cases_of_isForest map still with ⟨_,_,refused⟩ | ⟨_,_,_,stopped⟩ | ⟨_,_,_,_,succeeds⟩
    · cases attaches.trans refused
      exact .inl rfl
    · rw [← attaches] at stopped
      exact .inr stopped.orphan
    · rw [← attaches] at succeeds
      cases succeeds

end PinnedMap.ImageMap
