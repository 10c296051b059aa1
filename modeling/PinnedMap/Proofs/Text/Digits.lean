import Mathlib.Algebra.Ring.Nat
import Mathlib.Tactic.Common
import PinnedMap.Text.Blank

/-! The characters of written numbers. -/
namespace PinnedMap.Text

theorem forall_mem_toDigits {base : Nat} (large : 1 < base) {holds : Char → Prop}
    (each : ∀ digit < base, holds digit.digitChar) (n : Nat) : ∀ c ∈ Nat.toDigits base n, holds c := by
  induction n using Nat.strongRecOn with
  | ind n ih =>
    rw [Nat.toDigits_eq_if large]
    split_ifs with small
    · simpa using each n small
    · intro c member
      rcases List.mem_append.mp member with front | last
      · have less : n / base < n := Nat.div_lt_self (by omega) large
        exact ih (n / base) less c front
      · rw [List.mem_singleton.mp last]
        exact each _ (Nat.mod_lt n (by omega))

theorem forall_mem_hex {holds : Char → Prop} (each : ∀ digit < 16, holds (Nat.digitChar digit))
    (width n : Nat) :
    ∀ c ∈ hex width n, holds c := by
  intro c member
  rcases List.mem_append.mp member with filling | digit
  · rw [(List.mem_replicate.mp filling).2]
    exact each 0 (by simp)
  · exact forall_mem_toDigits (by simp) each n c digit

theorem isBlank_of_isDigit {c : Char} (digit : c.isDigit = true) : isBlank c = false := by
  simp only [Char.isDigit,Bool.and_eq_true,decide_eq_true_eq,ge_iff_le,UInt32.le_iff_toNat_le] at digit
  have low : 48 ≤ c.toNat := digit.1
  have high : c.toNat ≤ 57 := digit.2
  simp [isBlank]
  omega

private theorem hexValue?_append (front back : List Char) :
    hexValue? (front ++ back) = (hexValue? front).bind fun value =>
      back.foldlM (fun value c => (hexDigit? c).map (16 * value + ·)) value :=
  List.foldlM_append

private theorem hexValue?_toDigits (n : Nat) : hexValue? (Nat.toDigits 16 n) = some n := by
  have digit : ∀ digit < 16, hexDigit? digit.digitChar = some digit := by decide
  induction n using Nat.strongRecOn with
  | ind n ih =>
    rw [Nat.toDigits_eq_if (by simp)]
    split_ifs with small
    · simp [hexValue?,digit n small]
    · rw [hexValue?_append,ih (n / 16) (by omega)]
      simp [digit (n % 16) (by omega),Nat.div_add_mod]

theorem hexValue?_hex (width n : Nat) : hexValue? (hex width n) = some n := by
  have zeros (count : Nat) : hexValue? (List.replicate count '0') = some 0 := by
    induction count with
    | zero => rfl
    | succ count ih =>
      rw [List.replicate_succ',hexValue?_append,ih]
      rfl
  rw [hex,hexValue?_append,zeros]
  exact hexValue?_toDigits n

theorem length_hex (width : Nat) {n : Nat} (positive : 0 < width) (fits : n < 16 ^ width) :
    (hex width n).length = width := by
  have short := (Nat.length_toDigits_le_iff (by simp) positive).mpr fits
  simp only [hex,List.length_append,List.length_replicate]
  omega

theorem takeWhile_digits {digits rest : List Char} (digit : ∀ c ∈ digits, c.isDigit)
    (stops : ∀ c ∈ rest.head?, c.isDigit = false) : (digits ++ rest).takeWhile Char.isDigit = digits := by
  rw [List.takeWhile_append_of_pos digit]
  cases rest with
  | nil => rw [List.takeWhile_nil,List.append_nil]
  | cons c rest => rw [List.takeWhile_cons_of_neg (by simp [stops c rfl]),List.append_nil]

theorem dropWhile_digits {digits rest : List Char} (digit : ∀ c ∈ digits, c.isDigit)
    (stops : ∀ c ∈ rest.head?, c.isDigit = false) : (digits ++ rest).dropWhile Char.isDigit = rest := by
  rw [List.dropWhile_append_of_pos digit]
  cases rest with
  | nil => rfl
  | cons c rest => rw [List.dropWhile_cons_of_neg (by simp [stops c rfl])]

end PinnedMap.Text
