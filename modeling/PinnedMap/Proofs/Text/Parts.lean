import Mathlib.Algebra.Ring.Nat
import Mathlib.Tactic.Common
import PinnedMap.Text.Blank

/-! Texts put together from parts with something between them, and taken apart again. -/
namespace PinnedMap.Text

theorem join_cons_cons (separator part other : List Char) (parts : List (List Char)) :
    join separator (part :: other :: parts) = part ++ separator ++ join separator (other :: parts) := rfl

theorem mem_join {c : Char} {separator : List Char} {parts : List (List Char)} (member : c ∈ join separator parts) :
    c ∈ separator ∨ ∃ part ∈ parts, c ∈ part := by
  fun_induction join separator parts with
  | case1 => cases member
  | case2 part => exact .inr ⟨part,by simp,member⟩
  | case3 part parts _ ih =>
    rcases List.mem_append.mp member with front | later
    · rcases List.mem_append.mp front with first | between
      · exact .inr ⟨part,by simp,first⟩
      · exact .inl between
    · exact (ih later).imp_right fun ⟨other,listed,inside⟩ => ⟨other,by simp [listed],inside⟩

theorem length_join (separator : Char) {parts : List (List Char)} (some : parts ≠ []) :
    (join [separator] parts).length + 1 = (parts.map List.length).sum + parts.length := by
  fun_induction join [separator] parts with
  | case1 => contradiction
  | case2 part => simp
  | case3 part parts more ih =>
    have rest := ih fun none => more none
    simp only [List.length_append,List.map_cons,List.sum_cons,List.length_cons,List.length_nil]
    omega

private theorem splitOn_of_notMem {separator : Char} {text : List Char} (absent : separator ∉ text) :
    splitOn separator text = [text] := by
  induction text with
  | nil => rfl
  | cons c text ih =>
    rw [List.mem_cons,not_or] at absent
    rw [splitOn,if_neg (Ne.symm absent.1),ih absent.2]

private theorem splitOn_append {separator : Char} {part : List Char} (absent : separator ∉ part) (text : List Char) :
    splitOn separator (part ++ separator :: text) = part :: splitOn separator text := by
  induction part with
  | nil => rw [List.nil_append,splitOn,if_pos rfl]
  | cons c part ih =>
    rw [List.mem_cons,not_or] at absent
    rw [List.cons_append,splitOn,if_neg (Ne.symm absent.1),ih absent.2]

theorem splitOn_ne_nil (separator : Char) (text : List Char) : splitOn separator text ≠ [] := by
  fun_induction splitOn separator text <;> simp

theorem splitOn_both (separator : Char) (text rest : List Char) :
    splitOn separator (text ++ separator :: rest) = splitOn separator text ++ splitOn separator rest := by
  induction text with
  | nil => exact splitOn_append (List.not_mem_nil : separator ∉ []) rest
  | cons c text ih =>
    rw [List.cons_append,splitOn,splitOn,ih]
    split_ifs
    · rfl
    · obtain ⟨part,parts,shape⟩ := List.exists_cons_of_ne_nil (splitOn_ne_nil separator text)
      rw [shape]
      rfl

theorem splitOn_join {separator : Char} {parts : List (List Char)} (some : parts ≠ [])
    (absent : ∀ part ∈ parts, separator ∉ part) : splitOn separator (join [separator] parts) = parts := by
  fun_induction join [separator] parts with
  | case1 => contradiction
  | case2 part => exact splitOn_of_notMem (absent part (by simp))
  | case3 part parts more ih =>
    rw [List.append_assoc,List.singleton_append,splitOn_append (absent part (by simp)),
      ih (fun none => more none) fun other member => absent other (by simp [member])]

/-- A text is the join of the parts that it is split into. -/
theorem splitOn_spec (separator : Char) (text : List Char) :
    join [separator] (splitOn separator text) = text ∧ ∀ part ∈ splitOn separator text, separator ∉ part := by
  fun_induction splitOn separator text with
  | case1 => exact ⟨rfl,by simp⟩
  | case2 text ih =>
    obtain ⟨joined,absent⟩ := ih
    obtain ⟨part,parts,shape⟩ := List.exists_cons_of_ne_nil (splitOn_ne_nil separator text)
    refine ⟨?_,List.forall_mem_cons.mpr ⟨by simp,absent⟩⟩
    rw [shape] at joined ⊢
    rw [join_cons_cons,joined]
    rfl
  | case3 c text other none => exact absurd none (splitOn_ne_nil separator text)
  | case4 c text other part parts shape ih =>
    obtain ⟨joined,absent⟩ := ih
    rw [shape] at joined absent
    obtain ⟨first,others⟩ := List.forall_mem_cons.mp absent
    refine ⟨?_,List.forall_mem_cons.mpr ⟨by simp [first,Ne.symm other],others⟩⟩
    cases parts with
    | nil => exact congrArg (c :: ·) joined
    | cons => exact congrArg (c :: ·) joined

theorem utf8ByteSize_ofList {text : List Char} (narrow : ∀ c ∈ text, c.utf8Size = 1) :
    (String.ofList text).utf8ByteSize = text.length := by
  induction text with
  | nil => rfl
  | cons c text ih =>
    have parts : String.ofList (c :: text) = String.singleton c ++ String.ofList text := by
      rw [String.singleton_eq_ofList,← String.ofList_append]
      rfl
    rw [parts,String.utf8ByteSize_append,String.utf8ByteSize_singleton,narrow c (by simp),
      ih fun d member => narrow d (by simp [member]),List.length_cons,Nat.add_comm]

end PinnedMap.Text
