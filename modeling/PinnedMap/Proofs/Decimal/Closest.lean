import PinnedMap.Proofs.Decimal.Positional
import PinnedMap.Proofs.Decimal.Rounding

/-! Decimals are read as the closest double. No other double is nearer to the number that the decimal names, of two
that are equally near the one with an even mantissa is taken, and numbers beyond the doubles are infinite. -/
namespace PinnedMap.Decimal

namespace Binary

variable {value other : Binary} {x : ℚ}

/-- A double to which no other is preferred. -/
structure IsClosest (value : Binary) (x : ℚ) : Prop where
  canonical : value.IsCanonical
  le : ∀ other : Binary, other.IsCanonical → |x - value.number| ≤ |x - other.number|
  even_of_tie : ∀ other : Binary, other.IsCanonical → other.number ≠ value.number →
    |x - other.number| = |x - value.number| → value.mantissa % 2 = 0

theorem number_lt_high (value : Binary) : value.number < value.high := by
  have unit := two_zpow_pos value.exponent
  unfold number high
  gcongr
  linarith

private theorem low_lt_number (value : Binary) : value.low < value.number := by
  have unit := two_zpow_pos value.exponent
  unfold number low
  gcongr
  split_ifs <;> linarith

theorem number_lt (canonical : value.IsCanonical) (canonical' : other.IsCanonical) (less : value.bits < other.bits) :
    value.number < other.number :=
  calc value.number < value.high := value.number_lt_high
    _ ≤ other.low := high_le_low canonical canonical' less
    _ < other.number := other.low_lt_number

private theorem high_sub_le (canonical : value.IsCanonical) (canonical' : other.IsCanonical)
    (less : value.bits < other.bits) : value.high - value.number ≤ other.number - value.high := by
  obtain ⟨_,_,fits,full,_⟩ := canonical
  obtain ⟨_,_,_,full',_⟩ := canonical'
  have reaches : (value.mantissa + 1) * (2 : ℚ) ^ value.exponent ≤ other.number := by
    unfold bits at less
    unfold number
    rcases lt_trichotomy value.exponent other.exponent with below | same | above
    · have last : (value.mantissa : ℚ) + 1 ≤ 2 ^ 53 := by exact_mod_cast fits
      have first : (2 : ℚ) ^ 52 ≤ other.mantissa := by exact_mod_cast full'.resolve_left (by omega)
      have powers := two_zpow_le_iff.mpr below
      calc (value.mantissa + 1) * (2 : ℚ) ^ value.exponent ≤ 2 ^ 53 * 2 ^ value.exponent := by gcongr
        _ = 2 ^ 52 * 2 ^ (value.exponent + 1) := by
          rw [two_zpow_succ]
          ring
        _ ≤ other.mantissa * 2 ^ other.exponent := by gcongr
    · rw [same] at less ⊢
      have more : (value.mantissa : ℚ) + 1 ≤ other.mantissa := by
        exact_mod_cast (by omega : value.mantissa + 1 ≤ other.mantissa)
      gcongr
    · rcases full with finest | large <;> omega
  unfold number high at *
  linarith

private theorem sub_low_le (canonical : value.IsCanonical) (canonical' : other.IsCanonical)
    (less : other.bits < value.bits) : value.number - value.low ≤ value.low - other.number := by
  obtain ⟨_,_,_,full,narrow⟩ := canonical
  obtain ⟨least',_,fits',full',_⟩ := canonical'
  have reaches : other.number ≤ (value.mantissa - if value.narrowBelow then 1 / 2 else 1) * 2 ^ value.exponent := by
    unfold bits at less
    unfold number
    rcases lt_trichotomy other.exponent value.exponent with below | same | above
    · have last : (other.mantissa : ℚ) ≤ 2 ^ 53 - 1 := by
        rw [le_sub_iff_add_le]
        exact_mod_cast fits'
      have first : (2 ^ 52 - 1 / 2 : ℚ) ≤ value.mantissa - if value.narrowBelow then 1 / 2 else 1 := by
        by_cases power : value.mantissa = 2 ^ 52
        · rw [if_pos (narrow.mpr ⟨power,by omega⟩),power]
          norm_num
        · have more : (2 ^ 52 + 1 : ℚ) ≤ value.mantissa := by
            exact_mod_cast (by omega : 2 ^ 52 + 1 ≤ value.mantissa)
          split_ifs <;> linarith
      have powers := two_zpow_le_iff.mpr below
      calc other.mantissa * (2 : ℚ) ^ other.exponent ≤ (2 ^ 53 - 1) * 2 ^ other.exponent := by gcongr
        _ = (2 ^ 52 - 1 / 2) * 2 ^ (other.exponent + 1) := by
          rw [two_zpow_succ]
          ring
        _ ≤ (2 ^ 52 - 1 / 2) * 2 ^ value.exponent := by gcongr
        _ ≤ _ := by gcongr
    · rw [same] at less ⊢
      have more : (other.mantissa : ℚ) + 1 ≤ value.mantissa := by
        exact_mod_cast (by omega : other.mantissa + 1 ≤ value.mantissa)
      gcongr
      split_ifs <;> linarith
    · rcases full' with finest | large <;> omega
  unfold number low at *
  split_ifs at * <;> linarith

theorem number_eq_of_bits_eq (canonical : value.IsCanonical) (canonical' : other.IsCanonical)
    (same : value.bits = other.bits) : value.number = other.number := by
  obtain ⟨_,_,fits,full,_⟩ := canonical
  obtain ⟨_,_,fits',full',_⟩ := canonical'
  unfold bits at same
  have exponents : value.exponent = other.exponent := by omega
  have mantissas : value.mantissa = other.mantissa := by omega
  rw [number,number,exponents,mantissas]

/-- Within the interval of a double no other double is closer, and only at an end of it another is equally close. -/
theorem Covers.preferred (covers : value.Covers x) (canonical : value.IsCanonical) (canonical' : other.IsCanonical)
    (apart : other.number ≠ value.number) : |x - value.number| ≤ |x - other.number| ∧
      (|x - other.number| = |x - value.number| → value.mantissa % 2 = 0) := by
  have most := covers.le_high
  have least := covers.low_le
  have above := value.number_lt_high
  have below := value.low_lt_number
  rcases lt_trichotomy value.bits other.bits with greater | same | lesser
  · have gap := high_sub_le canonical canonical' greater
    have far : |x - other.number| = other.number - x := by
      rw [abs_sub_comm]
      exact abs_of_nonneg (by linarith)
    rw [far]
    refine ⟨abs_le.mpr ⟨by linarith,by linarith⟩,fun tie => ?_⟩
    rcases covers.to_high with inside | ⟨even,_⟩
    · rcases abs_cases (x - value.number) with ⟨distance,_⟩ | ⟨distance,_⟩ <;> linarith
    · exact even
  · exact absurd (number_eq_of_bits_eq canonical' canonical same.symm) apart
  · have gap := sub_low_le canonical canonical' lesser
    have far : |x - other.number| = x - other.number := abs_of_nonneg (by linarith)
    rw [far]
    refine ⟨abs_le.mpr ⟨by linarith,by linarith⟩,fun tie => ?_⟩
    rcases covers.from_low with inside | ⟨even,_⟩
    · rcases abs_cases (x - value.number) with ⟨distance,_⟩ | ⟨distance,_⟩ <;> linarith
    · exact even

private theorem isClosest_of_covers (canonical : value.IsCanonical) (covers : value.Covers x) : value.IsClosest x := by
  refine ⟨canonical,fun other canonical' => ?_,
    fun other canonical' apart => (covers.preferred canonical canonical' apart).2⟩
  by_cases same : other.number = value.number
  · rw [same]
  · exact (covers.preferred canonical canonical' same).1

private theorem bits_mod_two (value : Binary) : value.bits % 2 = value.mantissa % 2 := by
  unfold bits
  omega

theorem IsClosest.not_bits_lt (closest : value.IsClosest x) (closest' : other.IsClosest x) :
    ¬ value.bits < other.bits := by
  intro less
  have apart := number_lt closest.canonical closest'.canonical less
  have tie : |x - value.number| = |x - other.number| :=
    le_antisymm (closest.le other closest'.canonical) (closest'.le value closest.canonical)
  have even := closest.even_of_tie other closest'.canonical apart.ne' tie.symm
  have even' := closest'.even_of_tie value closest.canonical apart.ne tie
  have top := bits_lt closest'.canonical
  have further : value.bits + 1 < other.bits := by
    have parity := bits_mod_two value
    have parity' := bits_mod_two other
    omega
  obtain ⟨between,isCanonical,one,_⟩ := exists_next closest.canonical (by omega)
  have up := number_lt closest.canonical isCanonical (by omega)
  have down := number_lt isCanonical closest'.canonical (by omega)
  have closer := closest.le between isCanonical
  rcases abs_cases (x - value.number) with ⟨first,_⟩ | ⟨first,_⟩ <;>
    rcases abs_cases (x - other.number) with ⟨second,_⟩ | ⟨second,_⟩ <;>
      rcases abs_cases (x - between.number) with ⟨third,_⟩ | ⟨third,_⟩ <;> linarith

theorem IsClosest.bits_eq (closest : value.IsClosest x) (closest' : other.IsClosest x) : value.bits = other.bits :=
  le_antisymm (not_lt.mp (closest'.not_bits_lt closest)) (not_lt.mp (closest.not_bits_lt closest'))

end Binary

/-- The double that a number without a sign is rounded to. -/
inductive RoundsTo (x : ℚ) : Float → Prop where
  | finite {value : Binary} (fits : x < Binary.overflow) (closest : value.IsClosest x) : RoundsTo x value.double
  | infinite (large : Binary.overflow ≤ x) : RoundsTo x infinity

theorem RoundsTo.unique {x : ℚ} {value other : Float} (rounds : RoundsTo x value) (rounds' : RoundsTo x other) :
    value = other := by
  cases rounds with
  | finite fits closest =>
    cases rounds' with
    | finite _ closest' => rw [Binary.double,Binary.double,closest.bits_eq closest']
    | infinite large => exact absurd large (not_le.mpr fits)
  | infinite large =>
    cases rounds' with
    | finite fits _ => exact absurd large (not_le.mpr fits)
    | infinite _ => rfl

private theorem le_overflow : (2 : ℚ) ^ (1023 : ℤ) ≤ Binary.overflow := by
  rw [Binary.overflow,show (1023 : ℤ) = 971 + 52 from rfl,Binary.two_zpow_add]
  gcongr
  norm_num

private theorem overflow_bits_le {x : ℚ} (large : Binary.overflow ≤ x) {grid : ℤ} {m : Nat}
    (rounded : IsRounded m (x / 2 ^ grid)) (below : x < 2 ^ (grid + 53)) (full : grid = -1074 ∨ 2 ^ (grid + 52) ≤ x) :
    0x7FF0000000000000 ≤ (grid + 1074).toNat * 2 ^ 52 + m := by
  have top := two_zpow_pos 971
  have coarse := two_zpow_lt_iff.mp ((le_overflow.trans large).trans_lt below)
  rcases (by omega : grid = 971 ∨ 972 ≤ grid) with rfl | more
  · have high := rounded.high
    have reaches : (2 ^ 53 - 1 / 2 : ℚ) ≤ x / 2 ^ (971 : ℤ) := (le_div_iff₀ top).mpr large
    have carries : 2 ^ 53 ≤ m := by
      rcases high with less | ⟨even,same⟩
      · have less' : ((2 ^ 53 : ℕ) : ℚ) < (m + 1 : ℕ) := by
          push_cast
          linarith
        exact Nat.lt_succ_iff.mp (by exact_mod_cast less')
      · have least : ((2 ^ 53 : ℕ) : ℚ) ≤ (m + 1 : ℕ) := by
          push_cast
          linarith
        have least' : 2 ^ 53 ≤ m + 1 := by exact_mod_cast least
        omega
    omega
  · have filled : 2 ^ 52 ≤ m := by
      refine rounded.le_of_ge ((le_div_iff₀ (two_zpow_pos grid)).mpr ?_)
      exact_mod_cast Binary.two_zpow_add grid 52 ▸ full.resolve_left (by omega)
    omega

private theorem nearest_of_overflow {numerator denominator : Nat} (positive : denominator ≠ 0)
    (large : Binary.overflow ≤ (numerator : ℚ) / denominator) : nearest numerator denominator = infinity := by
  have something : numerator ≠ 0 := by
    rintro rfl
    rw [Nat.cast_zero,zero_div] at large
    exact absurd large (not_le.mpr ((two_zpow_pos _).trans_le le_overflow))
  obtain ⟨_,below,full⟩ := gridExponent_spec something positive
  have divides : 0 < denominator * Nat.pow 2 (gridExponent numerator denominator).toNat :=
    Nat.mul_pos (Nat.pos_of_ne_zero positive) (Nat.pow_pos (by simp))
  have rounded := isRounded_roundedQuotient
    (numerator * Nat.pow 2 (-gridExponent numerator denominator).toNat) divides
  rw [← ratio_div_zpow] at rounded
  have bits := overflow_bits_le large rounded below full
  unfold nearest
  rw [if_neg something]
  simp only [Nat.pow_eq] at bits ⊢
  rw [min_eq_right bits]
  rfl

private theorem roundsTo_zero {x : ℚ} (nonneg : 0 ≤ x) (small : x < 2 ^ (-1075 : ℤ)) : RoundsTo x (Float.ofBits 0) := by
  have unit := two_zpow_pos (-1074)
  have half : (2 : ℚ) ^ (-1074 : ℤ) = 2 * 2 ^ (-1075 : ℤ) := by
    rw [← two_zpow_succ]
    congr 1
  have canonical : Binary.IsCanonical ⟨0,-1074,false⟩ := by constructor <;> decide
  have covers : Binary.Covers ⟨0,-1074,false⟩ x := by
    constructor <;> left
    · norm_num only [Binary.low,Bool.false_eq_true,if_false,Nat.cast_zero]
      linarith
    · norm_num only [Binary.high,Nat.cast_zero]
      linarith
  have fits : x < Binary.overflow := small.trans ((two_zpow_lt_iff.mpr (by simp)).trans_le le_overflow)
  have zero : Float.ofBits 0 = Binary.double ⟨0,-1074,false⟩ := by
    rw [Binary.double,bits_of_zero canonical rfl]
    rfl
  rw [zero]
  exact .finite fits (Binary.isClosest_of_covers canonical covers)

private theorem roundsTo_nearest (numerator : Nat) {denominator : Nat} (positive : denominator ≠ 0) :
    RoundsTo (numerator / denominator) (nearest numerator denominator) := by
  by_cases something : numerator = 0
  · subst something
    rw [Nat.cast_zero,zero_div]
    exact roundsTo_zero le_rfl (two_zpow_pos _)
  rcases lt_or_ge ((numerator : ℚ) / denominator) Binary.overflow with fits | large
  · obtain ⟨value,canonical,covers,same⟩ := nearest_covers something positive fits
    rw [same]
    exact .finite fits (Binary.isClosest_of_covers canonical covers)
  · rw [nearest_of_overflow positive large]
    exact .infinite large

/-- A decimal is rounded once, also where its power of ten is not computed. -/
theorem roundsTo_ofScientific (digits : Nat) (exponent : ℤ) :
    RoundsTo (digits * 10 ^ exponent) (ofScientific digits exponent) := by
  unfold ofScientific
  simp only [Bool.or_eq_true,decide_eq_true_eq]
  by_cases none : digits = 0
  · subst none
    rw [if_pos (.inl rfl),Nat.cast_zero,zero_mul]
    exact roundsTo_zero le_rfl (two_zpow_pos _)
  obtain ⟨least,most⟩ := scientific_between none exponent
  split_ifs with small large
  · have tiny : (10 : ℚ) ^ (digitCount digits + exponent) ≤ 10 ^ (-330 : ℤ) :=
      zpow_le_zpow_right₀ (by norm_num) (by omega)
    exact roundsTo_zero (by positivity) (most.trans_le (tiny.trans ten_zpow_lt_two_zpow.le))
  · have huge : (10 : ℚ) ^ (320 : ℤ) ≤ 10 ^ (digitCount digits + exponent - 1) :=
      zpow_le_zpow_right₀ (by norm_num) (by omega)
    exact .infinite ((Binary.overflow_lt.trans two_zpow_lt_ten_zpow).le.trans (huge.trans least))
  · rw [scientific_eq_ratio]
    exact roundsTo_nearest _ (Nat.pow_pos (by simp)).ne'

end PinnedMap.Decimal
