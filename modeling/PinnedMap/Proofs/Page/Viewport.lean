import PinnedMap.Proofs.Page.Look

/-! The viewport matters to layout alone: elements and the tree are edited the same way whatever its size. -/
namespace PinnedMap.Page

variable {page next : Page} {id parent child : ElementId} {viewport : Size}

theorem LooksAlike.setViewport {other : Page} (alike : page.LooksAlike other) (viewport : Size) :
    (page.setViewport viewport).LooksAlike (other.setViewport viewport) :=
  ⟨rfl,alike.size,alike.element⟩

private theorem reachesWithin_setViewport (page : Page) (viewport : Size) (goal : ElementId) (steps : Nat)
    (start : ElementId) :
    (page.setViewport viewport).reachesWithin goal steps start = page.reachesWithin goal steps start := by
  induction steps generalizing start with
  | zero => rfl
  | succ steps ih =>
    have same : (page.setViewport viewport).parent start = page.parent start := rfl
    simp only [reachesWithin,same]
    cases page.parent start <;> simp [ih]

private theorem unlink_setViewport (page : Page) (viewport : Size) (child : ElementId) :
    (page.setViewport viewport).unlink child = (page.unlink child).setViewport viewport := by
  have same : (page.setViewport viewport).parent child = page.parent child := rfl
  unfold unlink
  rw [same]
  cases page.parent child <;> rfl

theorem append_setViewport (appended : page.append parent child = .ok next) (viewport : Size) :
    (page.setViewport viewport).append parent child = .ok (next.setViewport viewport) := by
  obtain ⟨above,below,apart,rfl⟩ := append_eq_ok.mp appended
  refine append_eq_ok.mpr ⟨above,below,?_,?_⟩
  · unfold reaches at apart ⊢
    rw [reachesWithin_setViewport]
    exact apart
  · unfold hang
    rw [unlink_setViewport]
    rfl

theorem setClass_setViewport {name : String} (done : page.setClass id name = .ok next) (viewport : Size) :
    (page.setViewport viewport).setClass id name = .ok (next.setViewport viewport) := by
  obtain ⟨known,rfl⟩ := edit_eq_ok.mp done
  exact edit_eq_ok.mpr ⟨known,rfl⟩

theorem setStyles_setViewport {entry : String × StyleValue} {table : StyleTable}
    (done : page.setStyles id (entry :: table) = .ok next) (viewport : Size) :
    (page.setViewport viewport).setStyles id (entry :: table) = .ok (next.setViewport viewport) := by
  obtain ⟨known,rfl⟩ := setStyles_eq_ok.mp done
  exact setStyles_eq_ok.mpr ⟨known,rfl⟩

theorem reaches_of_orphan {start goal : ElementId} (orphan : page.parent start = none)
    (apart : start ≠ goal) :
    page.reaches start goal = false := by
  unfold reaches walkLimit
  rw [reachesWithin,if_neg apart,orphan]
  rfl

end PinnedMap.Page
