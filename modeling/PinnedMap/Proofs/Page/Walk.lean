import PinnedMap.Proofs.Page.Lookup
import Mathlib.Data.List.Chain

/-! Walks from element to element that may take a given number of steps and no more. One that runs out of steps has been
at as many elements, each of them next to the one before; and what one finds in time it finds with more time as well. -/
namespace PinnedMap.Page

variable {α β : Type}

/-- What a walk finds is put together from what it finds at the elements that are next. -/
structure IsWalk (next : ElementId → ElementId → Prop) (walk : Nat → ElementId → Option α) : Prop where
  ends : ∀ id, walk 0 id = none
  goesOn : ∀ steps id, walk (steps + 1) id = none → ∃ other, next id other ∧ walk steps other = none
  keeps : ∀ steps more id found, (∀ other value, walk steps other = some value → walk more other = some value) →
    walk (steps + 1) id = some found → walk (more + 1) id = some found

variable {next : ElementId → ElementId → Prop} {walk : Nat → ElementId → Option α} {steps more : Nat} {id : ElementId}
  {found : α}

theorem IsWalk.exists_path (isWalk : IsWalk next walk) (lost : walk steps id = none) :
    ∃ path, path.length = steps ∧ List.IsChain next (id :: path) := by
  induction steps generalizing id with
  | zero => exact ⟨[],rfl,.singleton _⟩
  | succ steps ih =>
    obtain ⟨other,near,lost⟩ := isWalk.goesOn steps id lost
    obtain ⟨path,size,chain⟩ := ih lost
    exact ⟨other :: path,by simp [size],.cons_cons near chain⟩

theorem IsWalk.mono (isWalk : IsWalk next walk) (enough : walk steps id = some found) (less : steps ≤ more) :
    walk more id = some found := by
  induction steps generalizing id more found with
  | zero =>
    rw [isWalk.ends] at enough
    cases enough
  | succ steps ih =>
    obtain ⟨more,rfl⟩ : ∃ fewer, more = fewer + 1 := ⟨more - 1,by omega⟩
    exact isWalk.keeps steps more id found (fun other value enough => ih enough (by omega)) enough

/-- A walk that meets fewer elements than it may ends, and more steps do not change what it finds. -/
theorem IsWalk.ends_within (isWalk : IsWalk next walk) {limit : Nat}
    (short : ∀ path, List.IsChain next (id :: path) → path.length < limit) :
    ∃ found, ∀ steps, limit ≤ steps → walk steps id = some found := by
  cases walked : walk limit id with
  | none =>
    obtain ⟨path,size,chain⟩ := isWalk.exists_path walked
    exact absurd size (short path chain).ne
  | some found => exact ⟨found,fun steps enough => isWalk.mono walked enough⟩

theorem isWalk_of_step (ends : ∀ id, walk 0 id = none)
    (step : ∀ id, (∃ found, ∀ steps, walk (steps + 1) id = some found) ∨
      ∃ other read, next id other ∧ ∀ steps, walk (steps + 1) id = (walk steps other).map read) : IsWalk next walk := by
  refine ⟨ends,fun steps id lost => ?_,fun steps more id found keeps enough => ?_⟩
  · rcases step id with ⟨found,here⟩ | ⟨other,read,near,there⟩
    · cases (here steps).symm.trans lost
    · rw [there,Option.map_eq_none_iff] at lost
      exact ⟨other,near,lost⟩
  · rcases step id with ⟨value,here⟩ | ⟨other,read,near,there⟩
    · rw [here] at enough ⊢
      exact enough
    · rw [there] at enough ⊢
      obtain ⟨value,walked,rfl⟩ := Option.map_eq_some_iff.mp enough
      rw [keeps other value walked,Option.map_some]

private theorem exists_eq_none_of_mapM {read : α → Option β} {items : List α} (none : items.mapM read = none) :
    ∃ item ∈ items, read item = .none := by
  induction items with
  | nil => cases none
  | cons item items ih =>
    cases head : read item with
    | none => exact ⟨item,List.mem_cons_self ..,head⟩
    | some value =>
      cases rest : items.mapM read with
      | none =>
        obtain ⟨other,member,lost⟩ := ih rest
        exact ⟨other,List.mem_cons_of_mem item member,lost⟩
      | some values =>
        rw [List.mapM_cons,head,rest] at none
        cases none

private theorem mapM_eq_some_of_mapM {read read' : α → Option β} {items : List α} {values : List β}
    (all : items.mapM read = some values)
    (each : ∀ item ∈ items, ∀ value, read item = some value → read' item = some value) :
    items.mapM read' = some values := by
  induction items generalizing values with
  | nil => exact all
  | cons item items ih =>
    rw [List.mapM_cons] at all ⊢
    cases head : read item with
    | none =>
      rw [head] at all
      cases all
    | some value =>
      cases rest : items.mapM read with
      | none =>
        rw [head,rest] at all
        cases all
      | some others =>
        rw [each item (List.mem_cons_self ..) value head,
          ih rest fun other member => each other (List.mem_cons_of_mem item member),← all,head,rest]

theorem isWalk_of_list {share : (ElementId → Option α) → ElementId × Element → Option α} (ends : ∀ id, walk 0 id = none)
    (lost : ∀ read item, share read item = none → read item.1 = none)
    (keeps : ∀ read read' item value, (∀ id found, read id = some found → read' id = some found) →
      share read item = some value → share read' item = some value)
    (step : ∀ id, (∃ found, ∀ steps, walk (steps + 1) id = some found) ∨
      ∃ (items : List (ElementId × Element)) (gather : List α → α), (∀ item ∈ items, next id item.1) ∧
        ∀ steps, walk (steps + 1) id = (items.mapM (share (walk steps))).map gather) : IsWalk next walk := by
  refine ⟨ends,fun steps id none => ?_,fun steps more id found further enough => ?_⟩
  · rcases step id with ⟨found,here⟩ | ⟨items,gather,near,there⟩
    · cases (here steps).symm.trans none
    · rw [there,Option.map_eq_none_iff] at none
      obtain ⟨item,member,none⟩ := exists_eq_none_of_mapM none
      exact ⟨item.1,near item member,lost _ item none⟩
  · rcases step id with ⟨value,here⟩ | ⟨items,gather,near,there⟩
    · rw [here] at enough ⊢
      exact enough
    · rw [there] at enough ⊢
      obtain ⟨values,all,rfl⟩ := Option.map_eq_some_iff.mp enough
      rw [mapM_eq_some_of_mapM all fun item _ value => keeps _ _ item value further,Option.map_some]

end PinnedMap.Page
