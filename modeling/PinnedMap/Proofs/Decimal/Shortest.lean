import PinnedMap.Decimal.Shortest
import PinnedMap.Proofs.Decimal.Nearest

/-! The shortest decimal of a double lies in the interval of the double, so that it rounds to it. -/
namespace PinnedMap.Decimal

private theorem compare_ratios {a b c d : Nat} (first : 0 < b) (second : 0 < d) :
    Ord.compare (a * d) (c * b) = Ord.compare ((a : ℚ) / b) (c / d) := by
  have first' : (0 : ℚ) < b := by exact_mod_cast first
  have second' : (0 : ℚ) < d := by exact_mod_cast second
  rcases lt_trichotomy (a * d) (c * b) with less | same | more
  · have less' : (a : ℚ) / b < c / d := by
      rw [div_lt_div_iff₀ first' second']
      exact_mod_cast less
    rw [compare_lt_iff_lt.mpr less,compare_lt_iff_lt.mpr less']
  · have same' : (a : ℚ) / b = c / d := by
      rw [div_eq_div_iff first'.ne' second'.ne']
      exact_mod_cast same
    rw [compare_eq_iff_eq.mpr same,compare_eq_iff_eq.mpr same']
  · have more' : (c : ℚ) / d < a / b := by
      rw [div_lt_div_iff₀ second' first']
      exact_mod_cast more
    rw [compare_gt_iff_gt.mpr more,compare_gt_iff_gt.mpr more']

namespace Digits

def number (decimal : Digits) : ℚ := decimal.digits * 10 ^ decimal.exponent

private theorem compare_eq (decimal : Digits) (m : Nat) (q : ℤ) :
    decimal.compare m q = Ord.compare decimal.number (m * 2 ^ q) := by
  have tens : 0 < Nat.pow 10 (-decimal.exponent).toNat := Nat.pow_pos (by simp)
  have twos : 0 < Nat.pow 2 (-q).toNat := Nat.pow_pos (by simp)
  unfold compare number
  rw [compare_ratios tens twos,zpow_eq_div (by norm_num) decimal.exponent,zpow_eq_div (by norm_num) q,
    mul_div_assoc',mul_div_assoc']
  push_cast [Nat.pow_eq]
  rfl

end Digits

namespace Binary

theorem readsBack_iff {value : Binary} (nonzero : 0 < value.mantissa) (decimal : Digits) :
    value.readsBack decimal = true ↔ value.Covers decimal.number := by
  have quarter : (2 : ℚ) ^ (value.exponent - 2) = 2 ^ value.exponent / 4 := by
    rw [zpow_sub₀ (by norm_num)]
    norm_num
  have low : (((if value.narrowBelow then 4 * value.mantissa - 1 else 4 * value.mantissa - 2 : ℕ) : ℚ) *
      2 ^ (value.exponent - 2)) = value.low := by
    rw [quarter,Binary.low]
    split_ifs
    · rw [Nat.cast_sub (by omega)]
      push_cast
      ring
    · rw [Nat.cast_sub (by omega)]
      push_cast
      ring
  have high : (((4 * value.mantissa + 2 : ℕ) : ℚ) * 2 ^ (value.exponent - 2)) = value.high := by
    rw [quarter,Binary.high]
    push_cast
    ring
  unfold readsBack
  simp only [Digits.compare_eq,low,high,Bool.and_eq_true,Bool.or_eq_true,decide_eq_true_eq,compare_gt_iff_gt,
    compare_eq_iff_eq,compare_lt_iff_lt]
  constructor
  · rintro ⟨above,below⟩
    exact ⟨above.imp_right (And.imp_right Eq.symm),below⟩
  · rintro ⟨above,below⟩
    exact ⟨above.imp_right (And.imp_right Eq.symm),below⟩

theorem of_neighbour {value : Binary} {tie : Tie} {exponent : ℤ} {decimal : Digits}
    (hit : value.neighbour tie exponent = some decimal) : value.readsBack decimal = true ∧
      (decimal = ⟨value.floorAt exponent,exponent⟩ ∨ decimal = ⟨value.floorAt exponent + 1,exponent⟩) := by
  unfold neighbour at hit
  dsimp only at hit
  split at hit
  next lower _ =>
    cases hit
    exact ⟨lower,.inl rfl⟩
  next _ upper =>
    cases hit
    exact ⟨upper,.inr rfl⟩
  next => contradiction
  next lower upper =>
    split at hit
    · cases hit
      exact ⟨lower,.inl rfl⟩
    · cases hit
      exact ⟨upper,.inr rfl⟩
    · split_ifs at hit
      · cases hit
        exact ⟨lower,.inl rfl⟩
      · cases hit
        exact ⟨upper,.inr rfl⟩

private theorem number_exact (value : Binary) : value.exact.number = value.number := by
  unfold exact Digits.number number
  rcases le_total 0 value.exponent with whole | broken
  · have none : (-value.exponent).toNat = 0 := by omega
    rw [min_eq_right whole,none,zpow_eq_div (by norm_num) value.exponent,none]
    push_cast [Nat.pow_eq]
    simp
  · have none : value.exponent.toNat = 0 := by omega
    have powers : (10 : ℚ) ^ value.exponent = 2 ^ value.exponent * 5 ^ value.exponent := by
      rw [← mul_zpow]
      norm_num
    rw [min_eq_left broken,none,powers,zpow_eq_div (by norm_num : (5 : ℚ) ≠ 0) value.exponent,none]
    push_cast [Nat.pow_eq]
    field_simp

private theorem covers_exact (value : Binary) : value.Covers value.exact.number := by
  rw [number_exact]
  exact value.covers_number

end Binary

private theorem number_stripZeros (digits : Nat) (exponent : ℤ) :
    (stripZeros digits exponent).number = digits * 10 ^ exponent := by
  fun_induction stripZeros digits exponent with
  | case1 exponent => simp [Digits.number]
  | case2 digits exponent nonzero round ih =>
    have whole : (10 * (digits / 10) : ℕ) = digits := by omega
    have whole' : (digits : ℚ) = 10 * (digits / 10 : ℕ) := by exact_mod_cast whole.symm
    rw [ih,whole',zpow_add_one₀ (by norm_num)]
    ring
  | case3 digits exponent => rfl

namespace Binary

theorem covers_shortest {value : Binary} (nonzero : 0 < value.mantissa) (tie : Tie) :
    value.Covers (value.shortest tie).number := by
  unfold shortest
  rw [number_stripZeros]
  cases found : (List.range 17).findSome? fun count : Nat => value.neighbour tie (value.scale - (count + 1)) with
  | none => exact value.covers_exact
  | some decimal =>
    obtain ⟨count,_,hit⟩ := List.exists_of_findSome?_eq_some found
    exact (readsBack_iff nonzero decimal).mp (of_neighbour hit).1

end Binary
end PinnedMap.Decimal
