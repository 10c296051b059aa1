import Mathlib.Data.String.Basic
import PinnedMap.Proofs.Json.Meaning

/-! The members that a value keeps: one for each name, in the order of the names. Of members with one name the last is
kept, and otherwise it does not matter in which order they came. -/
namespace PinnedMap.Json.Value

variable {name other : String} {value value' old : Value} {members : List (String × Value)}

private theorem insert_self (name : String) (value value' : Value) (members : List (String × Value)) :
    insert name value (insert name value' members) = insert name value members := by
  fun_induction insert name value' members with
  | case1 => simp [insert]
  | case2 => simp [insert]
  | case3 other old members apart less => simp [insert,apart,less]
  | case4 other old members apart more ih => simp [insert,apart,more,ih]

private theorem insert_cons_of_lt (less : name < other) :
    insert name value ((other,old) :: members) = (name,value) :: (other,old) :: members := by
  rw [insert,if_neg less.ne,if_pos less]

private theorem insert_cons_of_gt (more : other < name) :
    insert name value ((other,old) :: members) = (other,old) :: insert name value members := by
  rw [insert,if_neg more.ne',if_neg more.not_gt]

private theorem insert_comm_of_lt (less : name < other) (members : List (String × Value)) :
    insert name value (insert other value' members) = insert other value' (insert name value members) := by
  induction members with
  | nil => rw [insert,insert_cons_of_lt less,insert,insert_cons_of_gt less,insert]
  | cons entry members ih =>
    obtain ⟨key,old⟩ := entry
    rcases lt_trichotomy name key with before | rfl | after
    · rw [insert_cons_of_lt before,insert_cons_of_gt less,insert]
      split_ifs with same below
      · exact insert_cons_of_lt less
      · exact insert_cons_of_lt less
      · exact insert_cons_of_lt before
    · rw [insert_cons_of_gt less,insert,if_pos rfl,insert,if_pos rfl,insert_cons_of_gt less]
    · rw [insert_cons_of_gt (after.trans less),insert_cons_of_gt after,insert_cons_of_gt after,
        insert_cons_of_gt (after.trans less),ih]

private theorem insert_comm (apart : name ≠ other) (members : List (String × Value)) :
    insert name value (insert other value' members) = insert other value' (insert name value members) := by
  rcases lt_or_gt_of_ne apart with less | more
  · exact insert_comm_of_lt less members
  · exact (insert_comm_of_lt more members).symm

private theorem eq_or_mem_of_mem_insert {member : String × Value} (inside : member ∈ insert name value members) :
    member = (name,value) ∨ member ∈ members := by
  fun_induction insert name value members with
  | case1 => exact .inl (List.mem_singleton.mp inside)
  | case2 => exact (List.mem_cons.mp inside).imp_right (List.mem_cons_of_mem _)
  | case3 => exact List.mem_cons.mp inside
  | case4 other old members _ _ ih =>
    rcases List.mem_cons.mp inside with rfl | later
    · exact .inr (List.mem_cons_self ..)
    · exact (ih later).imp_right (List.mem_cons_of_mem _)

/-- Each name comes once, in the order of the names. -/
def IsSorted (members : List (String × Value)) : Prop := members.Pairwise fun member later => member.1 < later.1

theorem IsSorted.insert (sorted : IsSorted members) (name : String) (value : Value) :
    IsSorted (insert name value members) := by
  fun_induction Value.insert name value members with
  | case1 => exact List.pairwise_singleton ..
  | case2 old members =>
    obtain ⟨first,others⟩ := List.pairwise_cons.mp sorted
    exact List.pairwise_cons.mpr ⟨first,others⟩
  | case3 other old members _ less =>
    obtain ⟨first,_⟩ := List.pairwise_cons.mp sorted
    refine List.pairwise_cons.mpr ⟨List.forall_mem_cons.mpr ⟨less,fun later member => ?_⟩,sorted⟩
    exact less.trans (first later member)
  | case4 other old members apart notLess ih =>
    obtain ⟨first,others⟩ := List.pairwise_cons.mp sorted
    refine List.pairwise_cons.mpr ⟨fun later member => ?_,ih others⟩
    rcases eq_or_mem_of_mem_insert member with rfl | member
    · exact lt_of_le_of_ne (not_lt.mp notLess) (Ne.symm apart)
    · exact first later member

theorem IsSorted.nodup (sorted : IsSorted members) : (members.map Prod.fst).Nodup :=
  List.pairwise_map.mpr (sorted.imp fun less => less.ne)

section

variable {depth : Nat} {found all : List (String × Value)} {key : Literal} {node : Node}
  {before after entries entries' : List (Literal × Node)}

theorem ofMembers_cons_iff : ofMembers depth found ((key,node) :: entries) = some all ↔ ∃ value,
    ofNode depth node = some value ∧ key.isText = true ∧ ofMembers depth (insert key.string value found) entries = some all := by
  rw [ofMembers]
  cases ofNode depth node with
  | none => simp
  | some value => simp

private theorem ofMembers_append : ofMembers depth found (before ++ after) =
    (ofMembers depth found before).bind fun found => ofMembers depth found after := by
  induction before generalizing found with
  | nil => rfl
  | cons entry before ih =>
    obtain ⟨key,node⟩ := entry
    rw [List.cons_append,ofMembers,ofMembers]
    cases ofNode depth node with
    | none => rfl
    | some value =>
      cases key.isText with
      | false => rfl
      | true => exact ih

theorem ofMembers_append_iff : ofMembers depth found (before ++ after) = some all ↔
    ∃ between, ofMembers depth found before = some between ∧ ofMembers depth between after = some all := by
  rw [ofMembers_append,Option.bind_eq_some_iff]

theorem ofMembers_perm (distinct : entries.Pairwise fun entry later => entry.1.string ≠ later.1.string)
    (perm : entries.Perm entries') (found : List (String × Value)) :
    ofMembers depth found entries = ofMembers depth found entries' := by
  induction perm generalizing found with
  | nil => rfl
  | cons entry _ ih =>
    obtain ⟨_,others⟩ := List.pairwise_cons.mp distinct
    rw [ofMembers,ofMembers]
    simp only [ih others]
  | swap entry entry' entries =>
    obtain ⟨first,_⟩ := List.pairwise_cons.mp distinct
    have apart := first entry (List.mem_cons_self ..)
    simp only [ofMembers]
    cases ofNode depth entry.2 with
    | none => cases ofNode depth entry'.2 <;> simp
    | some value =>
      cases ofNode depth entry'.2 with
      | none => simp
      | some value' =>
        cases entry.1.isText <;> cases entry'.1.isText <;> simp [insert_comm apart]
  | trans perm _ ih ih' =>
    have symmetric {entry later : Literal × Node} (apart : entry.1.string ≠ later.1.string) :
        later.1.string ≠ entry.1.string := apart.symm
    exact (ih distinct found).trans (ih' ((perm.pairwise_iff symmetric).mp distinct) found)

private theorem ofMembers_insert_of_later (later : ∃ entry ∈ entries, entry.1.string = name)
    (found : List (String × Value)) : ofMembers depth (insert name value found) entries = ofMembers depth found entries := by
  induction entries generalizing found with
  | nil => simp at later
  | cons entry entries ih =>
    obtain ⟨key,node⟩ := entry
    rw [ofMembers,ofMembers]
    by_cases same : key.string = name
    · simp only [same,insert_self]
    · have others : ∃ entry ∈ entries, entry.1.string = name := by simpa [same] using later
      simp only [insert_comm same,ih others]

theorem ofMembers_repeated (later : ∃ entry ∈ after, entry.1.string = key.string)
    (means : ofMembers depth found (before ++ (key,node) :: after) = some all) :
    ofMembers depth found (before ++ after) = some all := by
  obtain ⟨between,first,rest⟩ := ofMembers_append_iff.mp means
  obtain ⟨_,_,_,others⟩ := ofMembers_cons_iff.mp rest
  rw [ofMembers_insert_of_later later] at others
  exact ofMembers_append_iff.mpr ⟨between,first,others⟩

end

end PinnedMap.Json.Value

namespace PinnedMap.Json

def lastOf (name : String) : List (Literal × Node) → Option Node
  | [] => none
  | (key,node) :: members => (lastOf name members).or (if key.string = name then some node else none)

theorem mem_of_lastOf {name : String} {entries : List (Literal × Node)} {node : Node}
    (last : lastOf name entries = some node) : ∃ key, (key,node) ∈ entries ∧ key.string = name := by
  induction entries with
  | nil => cases last
  | cons entry entries ih =>
    obtain ⟨key,first⟩ := entry
    rw [lastOf,Option.or_eq_some_iff] at last
    rcases last with later | ⟨_,here⟩
    · obtain ⟨key,member,same⟩ := ih later
      exact ⟨key,List.mem_cons_of_mem _ member,same⟩
    · split_ifs at here with same
      obtain rfl := Option.some.inj here
      exact ⟨key,List.mem_cons_self ..,same⟩

end PinnedMap.Json
