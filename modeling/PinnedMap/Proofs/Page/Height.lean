import PinnedMap.Proofs.Page.Width

/-! Heights on a forest, and the end of every walk. However elements were moved about, the body among them, no walk over
a page takes more steps than the page has elements, and one more; so that the counts of steps have no say in what is
found. -/
namespace PinnedMap.Page

variable {page : Page} {id : ElementId} {steps : Nat}

private theorem heightWithin_body (page : Page) (steps : Nat) :
    page.heightWithin (steps + 1) body = some page.viewport.height := by
  rw [heightWithin,if_pos rfl]

private theorem heightWithin_unknown (inner : id ≠ body) (unknown : page.element? id = none) :
    page.heightWithin (steps + 1) id = some 0 := by
  rw [heightWithin,if_neg inner,unknown]

private theorem heightWithin_fixed {element : Element} {height : Float} (present : page.element? id = some element)
    (inner : id ≠ body) (fixed : page.fixedHeight element = some height) :
    page.heightWithin (steps + 1) id = some height := by
  rw [heightWithin,if_neg inner,present]
  dsimp only
  rw [fixed]

private theorem heightWithin_image {element : Element} (present : page.element? id = some element) (inner : id ≠ body)
    (free : page.fixedHeight element = none) (image : element.isImage = true) :
    page.heightWithin (steps + 1) id = some (page.imageHeight id element) := by
  rw [heightWithin,if_neg inner,present]
  dsimp only
  rw [free]
  dsimp only
  rw [if_pos image]

theorem heightWithin_succ {element : Element} (present : page.element? id = some element) (inner : id ≠ body)
    (free : page.fixedHeight element = none) (other : element.isImage = false) :
    page.heightWithin (steps + 1) id =
      ((page.inFlow element).mapM fun item => page.heightWithin steps item.1).map greatest := by
  rw [heightWithin,if_neg inner,present]
  dsimp only
  rw [free]
  dsimp only
  rw [other,if_neg Bool.false_ne_true]
  cases (page.inFlow element).mapM fun item => page.heightWithin steps item.1 <;> rfl

theorem IsForest.isWalk_heightWithin (forest : page.IsForest) :
    IsWalk (fun parent child => page.HangsFrom child parent) page.heightWithin := by
  refine forest.isWalk_down (fun read item => read item.1) (fun _ => rfl) (fun _ _ lost => lost)
    (fun _ _ _ _ more told => more _ _ told) fun id => ?_
  by_cases top : id = body
  · exact .inl ⟨_,fun steps => by rw [top,heightWithin_body]⟩
  · cases present : page.element? id with
    | none => exact .inl ⟨0,fun steps => heightWithin_unknown top present⟩
    | some element =>
      cases fixed : page.fixedHeight element with
      | some height => exact .inl ⟨height,fun steps => heightWithin_fixed present top fixed⟩
      | none =>
        cases image : element.isImage with
        | true => exact .inl ⟨_,fun steps => heightWithin_image present top fixed image⟩
        | false => exact .inr ⟨element,rfl,fun steps => heightWithin_succ present top fixed image⟩

theorem IsForest.heightWithin_eq (forest : page.IsForest) (enough : page.walkLimit ≤ steps) (id : ElementId) :
    page.heightWithin steps id = some (page.height id) := by
  obtain ⟨height,found⟩ := forest.ends_down forest.isWalk_heightWithin id
  rw [Page.height,found steps enough,found _ le_rfl,Option.getD_some]

theorem height_body (page : Page) : page.height body = page.viewport.height := by
  rw [Page.height,walkLimit,heightWithin_body,Option.getD_some]

theorem height_unknown (inner : id ≠ body) (unknown : page.element? id = none) : page.height id = 0 := by
  rw [Page.height,walkLimit,heightWithin_unknown inner unknown,Option.getD_some]

theorem height_fixed {element : Element} {height : Float} (present : page.element? id = some element)
    (inner : id ≠ body) (fixed : page.fixedHeight element = some height) : page.height id = height := by
  rw [Page.height,walkLimit,heightWithin_fixed present inner fixed,Option.getD_some]

theorem height_image {element : Element} (present : page.element? id = some element) (inner : id ≠ body)
    (free : page.fixedHeight element = none) (image : element.isImage = true) :
    page.height id = page.imageHeight id element := by
  rw [Page.height,walkLimit,heightWithin_image present inner free image,Option.getD_some]

/-- After any operations, every walk from every element ends within one step more than there are elements, and more
steps change nothing: the walk up to another element, those up and down for a width, and the one for a height. -/
theorem walks_end_performAll (viewport : Size) (operations : List Operation) (steps : Nat) :
    let page := (ofViewport viewport).performAll operations
    page.elements.size + 1 ≤ steps →
      (∀ start goal, page.reachesWithin goal steps start = some (page.reaches start goal)) ∧
      ∀ id, page.widthWithin steps id = some (page.width id) ∧
        page.contentWidthWithin steps id = some (page.contentWidth id) ∧
        page.heightWithin steps id = some (page.height id) := by
  intro page enough
  have forest : page.IsForest := isForest_performAll viewport operations
  exact ⟨fun start goal => forest.reachesWithin_eq enough goal start,fun id =>
    ⟨forest.widthWithin_eq enough id,forest.contentWidthWithin_eq enough id,forest.heightWithin_eq enough id⟩⟩

/-- A body that was moved into another element, and what is then read of that element. -/
theorem walks_end_with_moved_body :
    let page := (ofViewport ⟨800,600⟩).performAll
      [.create "div",.create "img",.resolveImage ⟨2⟩ ⟨1000,500⟩,.append ⟨1⟩ body,.append body ⟨2⟩]
    page.elements.size + 1 ≤ 4 ∧ page.parent body = some ⟨1⟩ ∧ page.height ⟨1⟩ = 600 ∧
      (∀ start goal, page.reachesWithin goal 4 start = some (page.reaches start goal)) ∧
      ∀ id, page.widthWithin 4 id = some (page.width id) ∧
        page.contentWidthWithin 4 id = some (page.contentWidth id) ∧
        page.heightWithin 4 id = some (page.height id) := by
  intro page
  have enough : page.elements.size + 1 ≤ 4 := by decide
  exact ⟨enough,by decide,by decide +kernel,walks_end_performAll ⟨800,600⟩ _ 4 enough⟩

end PinnedMap.Page
