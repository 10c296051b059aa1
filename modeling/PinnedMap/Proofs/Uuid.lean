import PinnedMap.Proofs.Text.Digits
import PinnedMap.Proofs.Text.Parts
import PinnedMap.Uuid

/-! An identifier is read from its written form. -/
namespace PinnedMap

namespace Uuid

private theorem length_cut {sizes : List Nat} {digits : List Char} (enough : sizes.sum ≤ digits.length) :
    (cut sizes digits).map List.length = sizes := by
  induction sizes generalizing digits with
  | nil => rfl
  | cons size sizes ih =>
    rw [List.sum_cons] at enough
    rw [cut,List.map_cons,ih (by rw [List.length_drop]; omega),List.length_take_of_le (by omega)]

private theorem flatten_cut {sizes : List Nat} {digits : List Char} (all : sizes.sum = digits.length) :
    (cut sizes digits).flatten = digits := by
  induction sizes generalizing digits with
  | nil => exact (List.eq_nil_of_length_eq_zero all.symm).symm
  | cons size sizes ih =>
    rw [List.sum_cons] at all
    rw [cut,List.flatten_cons,ih (by rw [List.length_drop]; omega),List.take_append_drop]

def IsPlain (c : Char) : Prop :=
  (Text.hexDigit? c).isSome ∧ c ≠ '-' ∧ c ≠ '\x7b' ∧ c.toLower ≠ 'u' ∧ c.utf8Size = 1

private theorem isPlain_hex (width n : Nat) : ∀ c ∈ Text.hex width n, IsPlain c := by
  refine Text.forall_mem_hex (fun digit below => ?_) width n
  have all : ∀ digit < 16, (Text.hexDigit? (Nat.digitChar digit)).isSome ∧ Nat.digitChar digit ≠ '-' ∧
      Nat.digitChar digit ≠ '\x7b' ∧ (Nat.digitChar digit).toLower ≠ 'u' ∧ (Nat.digitChar digit).utf8Size = 1 := by
    decide
  exact all digit below

private theorem unwrap_plain {c : Char} (plain : IsPlain c) (rest : List Char) :
    unwrap (c :: rest) = (c :: rest,0) := by
  obtain ⟨_,_,notBrace,notUrn,_⟩ := plain
  have opening : "urn:uuid:".toList = ['u','r','n',':','u','u','i','d',':'] := by simp
  have other : Text.lower ((c :: rest).take "urn:uuid:".toList.length) ≠ "urn:uuid:".toList := by
    rw [opening]
    exact fun same => notUrn (List.cons.inj same).1
  unfold unwrap
  dsimp only
  rw [if_neg other]
  split
  next same => exact absurd (List.cons.inj same).1 notBrace
  next => rfl

private theorem ofGroups_of_sizes {parts : List (List Char)} (sizes : parts.map List.length = groups) (total : Nat) :
    ofGroups total parts = .ok (ofDigits parts.flatten) := by
  have five : parts.length = groups.length := by rw [← sizes,List.length_map]
  unfold ofGroups
  rw [if_neg (by simp [five]),sizes]
  rfl

private theorem first_of_sizes {parts : List (List Char)} (sizes : parts.map List.length = groups)
    (plain : ∀ part ∈ parts, ∀ c ∈ part, IsPlain c) : ∃ c rest, Text.join ['-'] parts = c :: rest ∧ IsPlain c := by
  rcases parts with _ | ⟨_ | ⟨c,one⟩,others⟩
  · cases sizes
  · exact absurd (List.cons.inj sizes).1 (by simp)
  · have isPlain := plain (c :: one) (by simp) c (by simp)
    cases others with
    | nil => exact ⟨c,one,rfl,isPlain⟩
    | cons => exact ⟨c,_,rfl,isPlain⟩

private theorem ofChars_join {parts : List (List Char)} (sizes : parts.map List.length = groups)
    (plain : ∀ part ∈ parts, ∀ c ∈ part, IsPlain c) :
    ofChars (Text.join ['-'] parts) = .ok (ofDigits parts.flatten) := by
  have some : parts ≠ [] := by
    rintro rfl
    cases sizes
  have shown : ∀ c ∈ Text.join ['-'] parts, c = '-' ∨ IsPlain c := by
    intro c member
    rcases Text.mem_join member with separator | ⟨part,listed,member⟩
    · exact .inl (List.mem_singleton.mp separator)
    · exact .inr (plain part listed c member)
  have narrow : (String.ofList (Text.join ['-'] parts)).utf8ByteSize = 36 := by
    have length := Text.length_join '-' some
    have five : parts.length = groups.length := by rw [← sizes,List.length_map]
    rw [sizes,five] at length
    rw [Text.utf8ByteSize_ofList]
    · exact Nat.succ.inj length
    · intro c member
      rcases shown c member with rfl | isPlain
      · rfl
      · exact isPlain.2.2.2.2
  have known : ∀ entry ∈ (Text.join ['-'] parts).zipIdx, entry.1 = '-' ∨ (Text.hexDigit? entry.1).isSome := by
    intro entry member
    exact (shown entry.1 (List.fst_mem_of_mem_zipIdx member)).imp_right And.left
  have groupsOf := Text.splitOn_join some fun part listed separator => (plain part listed '-' separator).2.1 rfl
  obtain ⟨c,rest,front,isPlain⟩ := first_of_sizes sizes plain
  rw [front] at narrow known groupsOf ⊢
  unfold ofChars
  rw [narrow,unwrap_plain isPlain]
  dsimp only
  rw [if_neg (by decide),List.find?_eq_none.mpr,groupsOf]
  · dsimp only
    split
    next digits => exact absurd (congrArg List.length sizes) (by simp [groups])
    next => exact ofGroups_of_sizes sizes 36
  · intro entry member
    rcases known entry member with same | digit
    · simp [same]
    · simp [Option.isSome_iff_ne_none.mp digit]

private theorem mem_of_mem_cut {sizes : List Nat} {digits part : List Char} (listed : part ∈ cut sizes digits)
    {c : Char} (member : c ∈ part) : c ∈ digits := by
  induction sizes generalizing digits with
  | nil => cases listed
  | cons size sizes ih =>
    rcases List.mem_cons.mp listed with rfl | later
    · exact List.mem_of_mem_take member
    · exact List.mem_of_mem_drop (ih later)

/-- An identifier is read back from its text. -/
theorem ofChars_chars (id : Uuid) : ofChars id.chars = .ok id := by
  have length : groups.sum = (Text.hex 32 id.value.toNat).length :=
    (Text.length_hex 32 (by simp) id.value.isLt).symm
  have read := ofChars_join (length_cut (Nat.le_of_eq length)) fun part listed c member =>
    isPlain_hex 32 id.value.toNat c (mem_of_mem_cut listed member)
  rw [flatten_cut length,ofDigits,Text.hexValue?_hex,Option.getD_some,BitVec.ofNat_toNat,BitVec.setWidth_eq] at read
  exact read

end Uuid
end PinnedMap
