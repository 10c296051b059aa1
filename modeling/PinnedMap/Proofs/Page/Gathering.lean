import PinnedMap.Proofs.Page.Forest
import Mathlib.Data.List.Dedup

/-! Elements that are gathered in one other element, one after the other. Wherever they stood, they end up there in the
order in which they came, each once and where it came last, and what they leave behind stays in its order. -/
namespace PinnedMap

def Element.gathered (element : Element) (id target : ElementId) (items : List ElementId) : Element :=
  { element with
    parent := if id ∈ items then some target else element.parent
    children := element.children.filter (· ∉ items) ++ if id = target then items.dedup else [] }

variable {id target item : ElementId} {items : List ElementId}

theorem filter_notMem_of_disjoint {children : List ElementId} (apart : ∀ item ∈ items, item ∉ children) :
    children.filter (· ∉ items) = children :=
  List.filter_eq_self.mpr fun child member => by simpa using fun listed => apart child listed member

namespace Element

theorem gathered_nil (element : Element) (id target : ElementId) : element.gathered id target [] = element := by
  simp [gathered]

theorem gathered_cons (element : Element) (id target item : ElementId) (items : List ElementId) :
    (element.gathered id target [item]).gathered id target items = element.gathered id target (item :: items) := by
  have parents : (if id ∈ items then some target else if id ∈ [item] then some target else element.parent) =
      if id ∈ item :: items then some target else element.parent := by
    by_cases again : id ∈ items <;> simp [again]
  have stay : (element.children.filter (· ∉ [item])).filter (· ∉ items) = element.children.filter (· ∉ item :: items) := by
    rw [List.filter_filter]
    refine List.filter_congr fun child _ => ?_
    by_cases again : child ∈ items <;> simp [again]
  have come : [item].dedup.filter (· ∉ items) ++ items.dedup = (item :: items).dedup := by
    by_cases again : item ∈ items <;> simp [again]
  have lists : (element.children.filter (· ∉ [item]) ++ if id = target then [item].dedup else []).filter (· ∉ items) ++
      (if id = target then items.dedup else []) =
        element.children.filter (· ∉ item :: items) ++ if id = target then (item :: items).dedup else [] := by
    rw [List.filter_append,stay,List.append_assoc]
    by_cases here : id = target
    · rw [if_pos here,if_pos here,if_pos here,come]
    · rw [if_neg here,if_neg here,if_neg here]
      rfl
  simp only [gathered,mk.injEq,true_and,and_true]
  exact ⟨parents,lists⟩

end Element

namespace Page

variable {page : Page}

/-- On a forest only the parent of an item lists it, so that the item can be taken out of every list. -/
theorem IsForest.element?_hang (forest : page.IsForest) (target item id : ElementId) :
    (page.hang target item).element? id = (page.element? id).map (·.gathered id target [item]) := by
  rw [Page.element?_hang]
  cases found : page.element? id with
  | none => rfl
  | some element =>
    have listed : page.children id = element.children := by simp [children,found]
    have stay : (if page.parent item = some id then element.children.filter (· != item) else element.children) =
        element.children.filter (· ∉ [item]) := by
      split_ifs with above
      · exact List.filter_congr fun child _ => by simp [bne,beq_eq_decide]
      · refine (filter_notMem_of_disjoint fun other member => ?_).symm
        rw [List.mem_singleton.mp member,← listed]
        exact forest.not_mem_children above
    simp only [Option.map_some,Element.gathered,stay]
    split_ifs <;> simp_all

end Page
end PinnedMap
