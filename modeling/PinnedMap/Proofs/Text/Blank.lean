import Mathlib.Data.List.Forall2
import Mathlib.Data.List.TakeWhile
import Mathlib.Tactic.Common
import PinnedMap.Text.Blank

/-! Blanks around texts, and letters in either case. -/
namespace PinnedMap.Text

theorem trim_of_ends {text : List Char} (first : ∀ c ∈ text.head?, isBlank c = false)
    (last : ∀ c ∈ text.getLast?, isBlank c = false) : trim text = text := by
  have stays : ∀ text : List Char, (∀ c ∈ text.head?, isBlank c = false) → text.dropWhile isBlank = text := by
    rintro (_ | ⟨c,text⟩) visible
    · rfl
    · exact List.dropWhile_cons_of_neg (by simpa using visible c rfl)
  unfold trim trimStart trimEnd
  rw [stays text first,stays text.reverse (by rwa [List.head?_reverse]),List.reverse_reverse]

theorem trim_eq_self {text : List Char} (visible : ∀ c ∈ text, isBlank c = false) : trim text = text :=
  trim_of_ends (fun c first => visible c (List.mem_of_mem_head? first)) fun c last =>
    visible c (List.mem_of_mem_getLast? last)

theorem trim_of_blank {before after : List Char} (blank : ∀ c ∈ before, isBlank c) (blank' : ∀ c ∈ after, isBlank c)
    (text : List Char) : trim (before ++ text ++ after) = trim text := by
  have front (text : List Char) : trim (before ++ text) = trim text := by
    rw [trim,trimStart,List.dropWhile_append_of_pos blank,trim,trimStart]
  rw [List.append_assoc,front,trim,trim,trimStart,trimStart,List.dropWhile_append]
  split_ifs with nothing
  · have gone : after.dropWhile isBlank = [] := List.dropWhile_eq_nil_iff.mpr blank'
    rw [gone,List.isEmpty_iff.mp nothing]
  · rw [trimEnd,List.reverse_append,List.dropWhile_append_of_pos (by simpa using blank'),trimEnd]

theorem exists_blanks_of_trimStart {text rest : List Char} (trimmed : trimStart text = rest) :
    ∃ blanks, (∀ c ∈ blanks, isBlank c) ∧ text = blanks ++ rest :=
  ⟨text.takeWhile isBlank,fun _ => List.mem_takeWhile_imp,by
    rw [← trimmed,trimStart,List.takeWhile_append_dropWhile]⟩

def Spells (word text : List Char) : Prop := List.Forall₂ (fun letter c => c = letter ∨ c = letter.toUpper) word text

private theorem ofNat_case :
    ∀ n < 128, ((Char.ofNat n).isUpper = true → (Char.ofNat n).toLower.toUpper = Char.ofNat n) ∧
    ((Char.ofNat n).isUpper = false → (Char.ofNat n).toUpper.toLower = Char.ofNat n) := by
  decide

private theorem toLower_eq_self {c : Char} (other : c.isUpper = false) : c.toLower = c := by
  unfold Char.toLower
  rw [dif_neg (of_decide_eq_false other)]

private theorem toUpper_eq_self {c : Char} (wide : 128 ≤ c.toNat) : c.toUpper = c := by
  unfold Char.toUpper
  rw [dif_neg]
  rintro ⟨_,high⟩
  have high : c.toNat ≤ 122 := high
  omega

-- Only the letters of ASCII have a case, so the others are themselves on both sides.
private theorem toLower_eq_iff {c letter : Char} (small : letter.isUpper = false) :
    c.toLower = letter ↔ c = letter ∨ c = letter.toUpper := by
  constructor
  · rintro rfl
    cases upper : c.isUpper with
    | true =>
      have high : c.toNat ≤ 90 := (of_decide_eq_true upper).2
      have back := (ofNat_case c.toNat (by omega)).1
      rw [Char.ofNat_toNat] at back
      exact .inr (back upper).symm
    | false => exact .inl (toLower_eq_self upper).symm
  · rintro (rfl | rfl)
    · exact toLower_eq_self small
    · rcases Nat.lt_or_ge letter.toNat 128 with narrow | wide
      · have back := (ofNat_case letter.toNat narrow).2
        rw [Char.ofNat_toNat] at back
        exact back small
      · rw [toUpper_eq_self wide,toLower_eq_self small]

theorem lower_eq_iff {word text : List Char} (small : word.any Char.isUpper = false) :
    lower text = word ↔ Spells word text := by
  induction word generalizing text with
  | nil => simp [lower,Spells]
  | cons letter word ih =>
    obtain ⟨first,others⟩ := Bool.or_eq_false_iff.mp small
    cases text with
    | nil => simp [lower,Spells]
    | cons c text =>
      rw [Spells,List.forall₂_cons,← toLower_eq_iff first,← Spells,← ih others,lower,List.map_cons,List.cons.injEq,lower]

theorem without?_eq_some_iff {opening text rest : List Char} :
    without? opening text = some rest ↔ text = opening ++ rest := by
  induction opening generalizing text with
  | nil => simp [without?]
  | cons c opening ih =>
    cases text with
    | nil => simp [without?]
    | cons d text =>
      rw [without?,List.cons_append,List.cons.injEq]
      split_ifs with same
      · rw [ih,and_iff_right same.symm]
      · exact iff_of_false nofun fun both => same both.1.symm

end PinnedMap.Text
