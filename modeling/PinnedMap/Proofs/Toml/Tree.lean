import Mathlib.Data.List.Forall2
import Mathlib.Tactic.Common
import PinnedMap.Toml.Tree

/-! What tables with names of their own make together: members in the order of the lines, and arrays of tables in the
order of their headers. -/
namespace PinnedMap.Toml

theorem Node.ofItems_map {α : Type} {value : α → Value} {node : α → Node}
    (each : ∀ item, Node.ofValue (value item) = some (node item))
    (items : List α) : Node.ofItems (items.map value) = some (items.map node) := by
  induction items with
  | nil => rfl
  | cons item items ih =>
    rw [List.map_cons,List.map_cons,Node.ofItems,each,ih]
    rfl

namespace Members

private theorem set_append {members : Members} {name : String} (absent : members.lookup name = none)
    (others : Members) (node : Node) :
    set (members ++ others) name node = members ++ others.set name node := by
  induction members with
  | nil => rfl
  | cons member members ih =>
    obtain ⟨key,value⟩ := member
    rw [List.lookup_cons] at absent
    split at absent
    next => contradiction
    next other =>
      have apart : key ≠ name := Ne.symm (by simpa using other)
      rw [List.cons_append,set,if_neg apart,ih absent]
      rfl

private theorem set_of_absent {members : Members} {name : String} (absent : members.lookup name = none)
    (node : Node) :
    members.set name node = members ++ [(name,node)] := by
  have last := set_append absent [] node
  rw [List.append_nil] at last
  exact last

private theorem set_of_last {members : Members} {name : String} (absent : members.lookup name = none)
    (old node : Node) :
    set (members ++ [(name,old)]) name node = members ++ [(name,node)] := by
  rw [set_append absent,set,if_pos rfl]

private theorem lookup_last {members : Members} {name : String} (absent : members.lookup name = none) (node : Node) :
    (members ++ [(name,node)]).lookup name = some node := by
  rw [List.lookup_append,absent]
  simp

def IsMember (pair : Pair) (member : String × Node) : Prop :=
  pair.1 = ⟨[],member.1⟩ ∧ Node.ofValue pair.2 = some member.2

private theorem addAll_of_members {pairs : List Pair} {new : Members} (each : List.Forall₂ IsMember pairs new)
    {members : Members}
    (apart : ((members ++ new).map Prod.fst).Nodup) : addAll pairs members = some (members ++ new) := by
  induction each generalizing members with
  | nil => rw [addAll,List.append_nil]
  | @cons pair member pairs new isMember _ ih =>
    obtain ⟨key,value⟩ := pair
    obtain ⟨name,node⟩ := member
    obtain ⟨rfl,read⟩ := isMember
    have together : members ++ (name,node) :: new = (members ++ [(name,node)]) ++ new := by simp
    have absent : members.lookup name = none := by
      rw [List.lookup_eq_none_iff]
      intro other present
      rw [List.map_append,List.nodup_append] at apart
      have differ := apart.2.2 other.1 (List.mem_map_of_mem present) name (by simp)
      simpa using Ne.symm differ
    have inserted : insert node name [] members = some (members ++ [(name,node)]) := by
      rw [insert,absent]
      rfl
    rw [together] at apart ⊢
    rw [addAll,read]
    simp only [Option.bind_eq_bind,Option.bind_some]
    rw [inserted]
    exact ih apart

end Members

open Members

theorem addTo_table {pairs : List Pair} {new : Members} (each : List.Forall₂ IsMember pairs new)
    (apart : (new.map Prod.fst).Nodup) {members : Members} {name : String}
    (absent : members.lookup name = none) :
    Section.addTo members ⟨.table ⟨[],name⟩,pairs⟩ = some (members ++ [(name,.table .stated new)]) := by
  have all : addAll pairs [] = some new := addAll_of_members each apart
  change (Section.table pairs (members.lookup name)).map (set members name) = _
  rw [absent]
  unfold Section.table
  simp only [Option.pure_def,Option.bind_eq_bind,Option.bind_some,all,Option.map_some]
  rw [set_of_absent absent]

def grown (inner : Members) (name : String) (elements : List Members) : Members :=
  if elements = [] then inner else inner ++ [(name,.tables elements)]

private theorem addTo_element {pairs : List Pair} {new : Members} (each : List.Forall₂ IsMember pairs new)
    (apart : (new.map Prod.fst).Nodup) {outer name : String} {inner : Members}
    (absent : inner.lookup name = none) (elements : List Members) :
    Section.addTo [(outer,.table .stated (grown inner name elements))] ⟨.element ⟨[outer],name⟩,pairs⟩ =
      some [(outer,.table .stated (grown inner name (elements ++ [new])))] := by
  have all : addAll pairs [] = some new := addAll_of_members each apart
  have element : (Section.element pairs ((grown inner name elements).lookup name)).map
      (set (grown inner name elements) name) = some (grown inner name (elements ++ [new])) := by
    unfold Section.element grown
    rw [if_neg (by simp : ¬ elements ++ [new] = [])]
    split_ifs with first
    · rw [absent,first]
      simp only [Option.pure_def,Option.bind_eq_bind,Option.bind_some,all,Option.map_some]
      rw [set_of_absent absent]
    · rw [lookup_last absent]
      simp only [Option.pure_def,Option.bind_eq_bind,Option.bind_some,all,Option.map_some]
      rw [set_of_last absent]
  change Members.change (Section.element pairs) name [outer] _ = _
  rw [Members.change]
  simp only [List.lookup_cons_self,reduceCtorEq,if_false]
  rw [Members.change,element]
  simp [Members.set]

theorem foldlM_elements {outer name : String} {inner : Members} (absent : inner.lookup name = none)
    {parts : List Section}
    {new : List Members} (each : List.Forall₂ (fun part members => part.header = .element ⟨[outer],name⟩ ∧
      List.Forall₂ IsMember part.pairs members ∧
      (members.map Prod.fst).Nodup) parts new) (elements : List Members) :
    parts.foldlM Section.addTo [(outer,.table .stated (grown inner name elements))] =
      some [(outer,.table .stated (grown inner name (elements ++ new)))] := by
  induction each generalizing elements with
  | nil => rw [List.append_nil]; rfl
  | @cons part members parts new isElement _ ih =>
    obtain ⟨header,pairs⟩ := part
    obtain ⟨rfl,each,apart⟩ := isElement
    rw [List.foldlM_cons,addTo_element each apart absent]
    have rest := ih (elements ++ [members])
    rw [List.append_assoc] at rest
    exact rest

end PinnedMap.Toml
