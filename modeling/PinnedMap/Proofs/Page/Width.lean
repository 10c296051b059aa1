import PinnedMap.Proofs.Page.Operation

/-! Widths on a forest. Both walks of the layout end within their limit there, the one down to the images and the one
up to the body, so that each width is said by the widths beside it and no count of steps is left. -/
namespace PinnedMap.Page

variable {page : Page} {id parent : ElementId} {steps : Nat}

private theorem mem_inFlow {element child : Element} (listed : (id,child) ∈ page.inFlow element) :
    id ∈ element.children ∧ page.element? id = some child := by
  obtain ⟨other,member,picked⟩ := List.mem_filterMap.mp listed
  cases present : page.element? other with
  | none =>
    rw [present] at picked
    cases picked
  | some own =>
    rw [present] at picked
    dsimp only at picked
    split_ifs at picked
    obtain ⟨rfl,rfl⟩ := Prod.mk.inj (Option.some.inj picked)
    exact ⟨member,present⟩

theorem children_of_element? {element : Element} (present : page.element? id = some element) :
    page.children id = element.children := by
  rw [children,present]
  rfl

def contentShare (read : ElementId → Option Float) (item : ElementId × Element) : Option Float :=
  match lengthOf item.2 "width" with
  | .px width => some width
  | _ => read item.1

theorem contentWidthWithin_succ {element : Element} (present : page.element? id = some element)
    (other : element.isImage = false) :
    page.contentWidthWithin (steps + 1) id =
      ((page.inFlow element).mapM (contentShare (page.contentWidthWithin steps))).map greatest := by
  rw [contentWidthWithin,present]
  dsimp only
  rw [other,if_neg Bool.false_ne_true]
  change (List.mapM (contentShare _) _).bind _ = _
  cases (page.inFlow element).mapM (contentShare (page.contentWidthWithin steps)) <;> rfl

theorem contentWidthWithin_image {element : Element} (present : page.element? id = some element)
    (image : element.isImage = true) :
    page.contentWidthWithin (steps + 1) id = some ((element.natural.map (·.width)).getD 0) := by
  rw [contentWidthWithin,present]
  dsimp only
  rw [if_pos image]

theorem IsForest.isWalk_down (forest : page.IsForest) {walk : Nat → ElementId → Option Float}
    (share : (ElementId → Option Float) → ElementId × Element → Option Float) (ends : ∀ id, walk 0 id = none)
    (lost : ∀ read item, share read item = none → read item.1 = none)
    (keeps : ∀ read read' item value, (∀ id found, read id = some found → read' id = some found) →
      share read item = some value → share read' item = some value)
    (step : ∀ id, (∃ found, ∀ steps, walk (steps + 1) id = some found) ∨
      ∃ element, page.element? id = some element ∧ ∀ steps, walk (steps + 1) id =
        ((page.inFlow element).mapM (share (walk steps))).map greatest) :
    IsWalk (fun parent child => page.HangsFrom child parent) walk := by
  refine isWalk_of_list ends lost keeps fun id => ?_
  rcases step id with here | ⟨element,present,there⟩
  · exact .inl here
  · refine .inr ⟨page.inFlow element,greatest,fun item listed => ?_,there⟩
    rw [HangsFrom,forest.parent_iff,children_of_element? present]
    exact (mem_inFlow listed).1

theorem IsForest.isWalk_contentWidthWithin (forest : page.IsForest) :
    IsWalk (fun parent child => page.HangsFrom child parent) page.contentWidthWithin := by
  refine forest.isWalk_down contentShare (fun _ => rfl) (fun read item lost => ?_)
    (fun read read' item value more told => ?_) fun id => ?_
  · unfold contentShare at lost
    split at lost
    · cases lost
    · exact lost
  · unfold contentShare at told ⊢
    split at told
    · exact told
    · exact more _ _ told
  · cases present : page.element? id with
    | none => exact .inl ⟨0,fun steps => by rw [contentWidthWithin,present]⟩
    | some element =>
      cases image : element.isImage with
      | true => exact .inl ⟨_,fun steps => contentWidthWithin_image present image⟩
      | false => exact .inr ⟨element,rfl,fun steps => contentWidthWithin_succ present image⟩

theorem IsForest.contentWidthWithin_eq (forest : page.IsForest) (enough : page.walkLimit ≤ steps) (id : ElementId) :
    page.contentWidthWithin steps id = some (page.contentWidth id) := by
  obtain ⟨width,found⟩ := forest.ends_down forest.isWalk_contentWidthWithin id
  rw [contentWidth,found steps enough,found _ le_rfl,Option.getD_some]

theorem widthWithin_body (page : Page) (steps : Nat) :
    page.widthWithin (steps + 1) body = some page.viewport.width := by
  rw [widthWithin,if_pos rfl]

theorem widthWithin_succ {element : Element} (present : page.element? id = some element)
    (above : element.parent = some parent) (inner : id ≠ body) :
    page.widthWithin (steps + 1) id = (page.widthWithin steps parent).map fun available =>
      limitedWidth element available (page.wantedWidth id element available) := by
  rw [widthWithin,if_neg inner,present]
  simp only [above]
  cases page.widthWithin steps parent <;> rfl

private theorem isWalk_widthWithin (page : Page) : IsWalk page.HangsFrom page.widthWithin := by
  refine isWalk_of_step (fun _ => rfl) fun id => ?_
  by_cases top : id = body
  · exact .inl ⟨_,fun steps => by rw [top,widthWithin_body]⟩
  · cases present : page.element? id with
    | none => exact .inl ⟨0,fun steps => by rw [widthWithin,if_neg top,present]⟩
    | some element =>
      cases above : element.parent with
      | none =>
        refine .inl ⟨limitedWidth element 0 (page.wantedWidth id element 0),fun steps => ?_⟩
        rw [widthWithin,if_neg top,present]
        dsimp only
        rw [above]
        rfl
      | some parent =>
        exact .inr ⟨parent,_,parent_eq_some.mpr ⟨element,present,above⟩,fun steps => widthWithin_succ present above top⟩

theorem IsForest.widthWithin_eq (forest : page.IsForest) (enough : page.walkLimit ≤ steps) (id : ElementId) :
    page.widthWithin steps id = some (page.width id) := by
  obtain ⟨width,found⟩ := forest.ends_up page.isWalk_widthWithin id
  rw [Page.width,found steps enough,found _ le_rfl,Option.getD_some]

theorem contentWidth_image {element : Element} (present : page.element? id = some element)
    (image : element.isImage = true) : page.contentWidth id = (element.natural.map (·.width)).getD 0 := by
  rw [contentWidth,walkLimit,contentWidthWithin_image present image]
  rfl

theorem IsForest.contentWidth_eq (forest : page.IsForest) {element : Element}
    (present : page.element? id = some element) (other : element.isImage = false) {widths : List Float}
    (each : (page.inFlow element).mapM (contentShare fun id => some (page.contentWidth id)) = some widths) :
    page.contentWidth id = greatest widths := by
  have deep := forest.contentWidthWithin_eq (Nat.le_succ page.walkLimit) id
  have flat : page.contentWidthWithin page.walkLimit = fun id => some (page.contentWidth id) :=
    funext fun id => forest.contentWidthWithin_eq (Nat.le_refl _) id
  rw [contentWidthWithin_succ present other,flat,each] at deep
  exact (Option.some.inj deep).symm

theorem IsForest.width_eq (forest : page.IsForest) {element : Element} (present : page.element? id = some element)
    (above : element.parent = some parent) (inner : id ≠ body) :
    page.width id = limitedWidth element (page.width parent) (page.wantedWidth id element (page.width parent)) := by
  have walked := forest.widthWithin_eq (Nat.le_succ page.walkLimit) id
  rw [widthWithin_succ present above inner,forest.widthWithin_eq (Nat.le_refl _) parent] at walked
  exact (Option.some.inj walked).symm

end PinnedMap.Page
