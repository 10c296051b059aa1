import Mathlib.Algebra.Order.Field.Rat
import Mathlib.Algebra.Order.Field.Power
import Mathlib.Data.Rat.Cast.Order
import Mathlib.Tactic.FieldSimp
import Mathlib.Tactic.Linarith
import Mathlib.Tactic.NormNum
import Mathlib.Tactic.Positivity
import PinnedMap.Proofs.Decimal.Bits

/-! Which ratios are nearest to a given double. Each finite double covers an interval, and every ratio in the interval
rounds to it; the ends belong to the double if its mantissa is even. -/
namespace PinnedMap.Decimal

theorem zpow_eq_div {base : ℚ} (nonzero : base ≠ 0) (power : ℤ) :
    base ^ power = base ^ power.toNat / base ^ (-power).toNat := by
  have parts : power = power.toNat - ((-power).toNat : ℤ) := by omega
  conv_lhs => rw [parts]
  rw [zpow_sub₀ nonzero,zpow_natCast,zpow_natCast]

theorem two_zpow_pos (power : ℤ) : (0 : ℚ) < 2 ^ power := by positivity

theorem two_zpow_succ (power : ℤ) : (2 : ℚ) ^ (power + 1) = 2 * 2 ^ power := by
  rw [zpow_add_one₀ (by norm_num)]
  ring

theorem two_zpow_lt_iff {a b : ℤ} : (2 : ℚ) ^ a < 2 ^ b ↔ a < b := zpow_lt_zpow_iff_right₀ (by norm_num)

theorem two_zpow_le_iff {a b : ℤ} : (2 : ℚ) ^ a ≤ 2 ^ b ↔ a ≤ b := zpow_le_zpow_iff_right₀ (by norm_num)

namespace Binary

def low (value : Binary) : ℚ := (value.mantissa - if value.narrowBelow then 1 / 4 else 1 / 2) * 2 ^ value.exponent

def high (value : Binary) : ℚ := (value.mantissa + 1 / 2) * 2 ^ value.exponent

/-- The numbers that round to a double. -/
structure Covers (value : Binary) (x : ℚ) : Prop where
  from_low : value.low < x ∨ value.mantissa % 2 = 0 ∧ value.low = x
  to_high : x < value.high ∨ value.mantissa % 2 = 0 ∧ x = value.high

theorem Covers.low_le {value : Binary} {x : ℚ} (covers : value.Covers x) : value.low ≤ x :=
  covers.from_low.elim le_of_lt fun ⟨_,same⟩ => le_of_eq same

theorem Covers.le_high {value : Binary} {x : ℚ} (covers : value.Covers x) : x ≤ value.high :=
  covers.to_high.elim le_of_lt fun ⟨_,same⟩ => le_of_eq same

/-- The parts of a double that is not infinite. -/
structure IsCanonical (value : Binary) : Prop where
  exponent_ge : -1074 ≤ value.exponent
  exponent_le : value.exponent ≤ 971
  mantissa_lt : value.mantissa < 2 ^ 53
  full : value.exponent = -1074 ∨ 2 ^ 52 ≤ value.mantissa
  narrow_iff : value.narrowBelow = true ↔ value.mantissa = 2 ^ 52 ∧ -1074 < value.exponent

def bits (value : Binary) : Nat := (value.exponent + 1074).toNat * 2 ^ 52 + value.mantissa

private theorem isCanonical_ofBits {field fraction : Nat} (finite : field < 2047) (fits : fraction < 2 ^ 52) :
    (ofBits field fraction).IsCanonical := by
  unfold ofBits
  split_ifs with zero
  · exact ⟨by norm_num,by norm_num,by dsimp only; omega,.inl rfl,by simp⟩
  · have narrow : (decide (fraction = 0) && decide (1 < field)) = true ↔
        2 ^ 52 + fraction = 2 ^ 52 ∧ -1074 < (field : ℤ) - 1075 := by
      rw [Bool.and_eq_true,decide_eq_true_eq,decide_eq_true_eq]
      omega
    refine ⟨?_,?_,?_,.inr ?_,narrow⟩ <;> dsimp only <;> norm_num <;> omega

private theorem bits_ofBits (field fraction : Nat) : (ofBits field fraction).bits = field * 2 ^ 52 + fraction := by
  unfold ofBits bits
  split_ifs with zero
  · rw [zero]
    rfl
  · change ((field : ℤ) - 1075 + 1074).toNat * 2 ^ 52 + (2 ^ 52 + fraction) = _
    omega

end Binary

theorem isCanonical_of_kind {value : Float} {magnitude : Binary} (finite : kind value = .finite magnitude) :
    magnitude.IsCanonical ∧ magnitude.bits = magnitudeBits value := by
  have fits : magnitudeBits value < 2 ^ 63 := Nat.mod_lt _ (by simp)
  rw [kind_eq] at finite
  split_ifs at finite with special
  cases finite
  rw [Binary.bits_ofBits]
  exact ⟨Binary.isCanonical_ofBits (by omega) (Nat.mod_lt _ (by simp)),by omega⟩

namespace Binary

theorem Covers.in_units {value : Binary} {x : ℚ} (covers : value.Covers x) :
    (value.mantissa - (if value.narrowBelow then 1 / 4 else 1 / 2) < x / 2 ^ value.exponent ∨
      value.mantissa % 2 = 0 ∧
        value.mantissa - (if value.narrowBelow then 1 / 4 else 1 / 2) = x / 2 ^ value.exponent) ∧
    (x / 2 ^ value.exponent < value.mantissa + 1 / 2 ∨
      value.mantissa % 2 = 0 ∧ x / 2 ^ value.exponent = value.mantissa + 1 / 2) := by
  have unit := two_zpow_pos value.exponent
  constructor
  · rw [lt_div_iff₀ unit,eq_div_iff unit.ne']
    exact covers.from_low
  · rw [div_lt_iff₀ unit,div_eq_iff unit.ne']
    exact covers.to_high

theorem low_ge {value : Binary} (canonical : value.IsCanonical) (something : 0 < value.mantissa) :
    2 ^ (-1075 : ℤ) ≤ value.low := by
  have one : (1 : ℚ) ≤ value.mantissa := by exact_mod_cast something
  have least := two_zpow_le_iff.mpr canonical.exponent_ge
  have half : (2 : ℚ) ^ (-1074 : ℤ) = 2 * 2 ^ (-1075 : ℤ) := by
    rw [← two_zpow_succ]
    congr 1
  have gap : 1 / 2 ≤ (value.mantissa - if value.narrowBelow then 1 / 4 else 1 / 2 : ℚ) := by
    split_ifs <;> linarith
  calc (2 : ℚ) ^ (-1075 : ℤ) = 1 / 2 * 2 ^ (-1074 : ℤ) := by rw [half]; ring
    _ ≤ 1 / 2 * 2 ^ value.exponent := by gcongr
    _ ≤ value.low := by
      unfold low
      gcongr

theorem low_pos {value : Binary} (canonical : value.IsCanonical) (something : 0 < value.mantissa) :
    0 < value.low :=
  (two_zpow_pos _).trans_le (low_ge canonical something)

private theorem high_lt {value : Binary} (canonical : value.IsCanonical) :
    value.high < 2 ^ (value.exponent + 53) := by
  have most : (value.mantissa : ℚ) + 1 ≤ 2 ^ 53 := by exact_mod_cast canonical.mantissa_lt
  rw [high,add_comm value.exponent,zpow_add₀ (by norm_num)]
  gcongr
  norm_num at most ⊢
  linarith

theorem high_lt_top {value : Binary} (canonical : value.IsCanonical) : value.high < 2 ^ (1024 : ℤ) := by
  have most := canonical.exponent_le
  exact (high_lt canonical).trans_le (two_zpow_le_iff.mpr (by omega))

theorem bits_lt {value : Binary} (canonical : value.IsCanonical) : value.bits < 0x7FF0000000000000 := by
  have least := canonical.exponent_ge
  have most := canonical.exponent_le
  have fits := canonical.mantissa_lt
  unfold bits
  omega

def number (value : Binary) : ℚ := value.mantissa * 2 ^ value.exponent

theorem number_pos {value : Binary} (some : 0 < value.mantissa) : 0 < value.number := by
  have positive : (0 : ℚ) < value.mantissa := by exact_mod_cast some
  exact mul_pos positive (two_zpow_pos _)

theorem covers_number (value : Binary) : value.Covers value.number := by
  have unit := two_zpow_pos value.exponent
  constructor
  · left
    unfold low number
    gcongr
    split_ifs <;> linarith
  · left
    unfold high number
    gcongr
    linarith

theorem toNat_bits {value : Binary} (canonical : value.IsCanonical) : (UInt64.ofNat value.bits).toNat = value.bits := by
  have small := bits_lt canonical
  rw [UInt64.toNat_ofNat',Nat.mod_eq_of_lt (by omega)]

theorem isNumber_bits {value : Binary} (canonical : value.IsCanonical) : IsNumber (UInt64.ofNat value.bits).toNat := by
  have small := bits_lt canonical
  rw [toNat_bits canonical,IsNumber]
  omega

end Binary

private theorem roundedQuotient_eq_of_doubled {numerator denominator m : Nat} (positive : 0 < denominator)
    (low : 2 * m * denominator < 2 * numerator + denominator ∨
      m % 2 = 0 ∧ 2 * m * denominator = 2 * numerator + denominator)
    (high : 2 * numerator < 2 * m * denominator + denominator ∨
      m % 2 = 0 ∧ 2 * numerator = 2 * m * denominator + denominator) :
    roundedQuotient numerator denominator = m := by
  have parts := Nat.div_add_mod numerator denominator
  have rest := Nat.mod_lt numerator positive
  unfold roundedQuotient
  generalize numerator / denominator = quotient at *
  generalize numerator % denominator = left at *
  -- The quotient is the mantissa or one less.
  have above : quotient ≤ m := by
    by_contra more
    have : denominator * (m + 1) ≤ denominator * quotient := Nat.mul_le_mul_left _ (by omega)
    have : denominator * (m + 1) = m * denominator + denominator := by ring
    have : 2 * m * denominator = 2 * (m * denominator) := by ring
    omega
  have below : m ≤ quotient + 1 := by
    by_contra more
    have : denominator * (quotient + 2) ≤ denominator * m := Nat.mul_le_mul_left _ (by omega)
    have : denominator * (quotient + 2) = denominator * quotient + 2 * denominator := by ring
    have : 2 * m * denominator = 2 * (denominator * m) := by ring
    omega
  dsimp only
  simp only [Bool.or_eq_true,Bool.and_eq_true,decide_eq_true_eq]
  rcases (by omega : m = quotient ∨ m = quotient + 1) with same | same
  · subst same
    have : 2 * m * denominator = 2 * (denominator * m) := by ring
    rw [if_neg (by omega)]
  · subst same
    have : 2 * (quotient + 1) * denominator = 2 * (denominator * quotient) + 2 * denominator := by ring
    rw [if_pos (by omega)]

theorem roundedQuotient_eq {numerator denominator m : Nat} (positive : 0 < denominator)
    (low : (m : ℚ) - 1 / 2 < numerator / denominator ∨ m % 2 = 0 ∧ (m : ℚ) - 1 / 2 = numerator / denominator)
    (high : (numerator : ℚ) / denominator < m + 1 / 2 ∨ m % 2 = 0 ∧ (numerator : ℚ) / denominator = m + 1 / 2) :
    roundedQuotient numerator denominator = m := by
  have positive' : (0 : ℚ) < denominator := by exact_mod_cast positive
  apply roundedQuotient_eq_of_doubled positive
  · rcases low with less | ⟨even,same⟩
    · left
      rw [lt_div_iff₀ positive'] at less
      have : (2 * m * denominator : ℚ) < 2 * numerator + denominator := by linarith
      exact_mod_cast this
    · right
      rw [eq_div_iff positive'.ne'] at same
      have : (2 * m * denominator : ℚ) = 2 * numerator + denominator := by linarith
      exact ⟨even,by exact_mod_cast this⟩
  · rcases high with less | ⟨even,same⟩
    · left
      rw [div_lt_iff₀ positive'] at less
      have : (2 * numerator : ℚ) < 2 * m * denominator + denominator := by linarith
      exact_mod_cast this
    · right
      rw [div_eq_iff positive'.ne'] at same
      have : (2 * numerator : ℚ) = 2 * m * denominator + denominator := by linarith
      exact ⟨even,by exact_mod_cast this⟩

theorem ratio_div_zpow (numerator denominator : Nat) (grid : ℤ) :
    (numerator : ℚ) / denominator / 2 ^ grid =
      (numerator * Nat.pow 2 (-grid).toNat : ℕ) / (denominator * Nat.pow 2 grid.toNat : ℕ) := by
  rw [zpow_eq_div (by norm_num) grid]
  push_cast [Nat.pow_eq]
  field_simp

private theorem ratio_between {numerator denominator : Nat} (something : numerator ≠ 0) (positive : denominator ≠ 0)
    {guess : ℤ} (guessed : guess = (numerator.log2 : ℤ) - denominator.log2 - 52) :
    2 ^ (guess + 51) < (numerator : ℚ) / denominator ∧ (numerator : ℚ) / denominator < 2 ^ (guess + 53) := by
  have positive' : (0 : ℚ) < denominator := by exact_mod_cast Nat.pos_of_ne_zero positive
  have numeratorLow : (2 : ℚ) ^ (numerator.log2 : ℤ) ≤ numerator := by
    rw [zpow_natCast]
    exact_mod_cast Nat.log2_self_le something
  have numeratorHigh : (numerator : ℚ) < 2 ^ ((numerator.log2 : ℤ) + 1) := by
    rw [← Nat.cast_succ,zpow_natCast]
    exact_mod_cast Nat.lt_log2_self
  have denominatorLow : (2 : ℚ) ^ (denominator.log2 : ℤ) ≤ denominator := by
    rw [zpow_natCast]
    exact_mod_cast Nat.log2_self_le positive
  have denominatorHigh : (denominator : ℚ) < 2 ^ ((denominator.log2 : ℤ) + 1) := by
    rw [← Nat.cast_succ,zpow_natCast]
    exact_mod_cast Nat.lt_log2_self
  constructor
  · rw [lt_div_iff₀ positive']
    calc (2 : ℚ) ^ (guess + 51) * denominator < 2 ^ (guess + 51) * 2 ^ ((denominator.log2 : ℤ) + 1) := by gcongr
      _ = 2 ^ (numerator.log2 : ℤ) := by
        rw [← zpow_add₀ (by norm_num)]
        congr 1
        omega
      _ ≤ numerator := numeratorLow
  · rw [div_lt_iff₀ positive']
    calc (numerator : ℚ) < 2 ^ ((numerator.log2 : ℤ) + 1) := numeratorHigh
      _ = 2 ^ (guess + 53) * 2 ^ (denominator.log2 : ℤ) := by
        rw [← zpow_add₀ (by norm_num)]
        congr 1
        omega
      _ ≤ 2 ^ (guess + 53) * denominator := by gcongr

theorem gridExponent_spec {numerator denominator : Nat} (something : numerator ≠ 0)
    (positive : denominator ≠ 0) :
    -1074 ≤ gridExponent numerator denominator ∧
      (numerator : ℚ) / denominator < 2 ^ (gridExponent numerator denominator + 53) ∧
      (gridExponent numerator denominator = -1074 ∨
        2 ^ (gridExponent numerator denominator + 52) ≤ (numerator : ℚ) / denominator) := by
  have positive' : (0 : ℚ) < denominator := by exact_mod_cast Nat.pos_of_ne_zero positive
  obtain ⟨guess,guessed⟩ : ∃ guess : ℤ, guess = (numerator.log2 : ℤ) - denominator.log2 - 52 := ⟨_,rfl⟩
  obtain ⟨above,below⟩ := ratio_between something positive guessed
  have coarse : numerator * Nat.pow 2 (-guess).toNat < denominator * Nat.pow 2 (guess.toNat + 52) ↔
      (numerator : ℚ) / denominator < 2 ^ (guess + 52) := by
    rw [zpow_add₀ (by norm_num),zpow_eq_div (by norm_num) guess,div_mul_eq_mul_div,div_lt_div_iff₀ positive' (by positivity),
      Nat.pow_eq,Nat.pow_eq,pow_add,← Nat.cast_lt (α := ℚ)]
    push_cast
    rw [mul_comm (_ * _ : ℚ)]
  obtain ⟨best,chosen,low,high⟩ : ∃ best : ℤ, gridExponent numerator denominator = max best (-1074) ∧
      2 ^ (best + 52) ≤ (numerator : ℚ) / denominator ∧ (numerator : ℚ) / denominator < 2 ^ (best + 53) := by
    by_cases tooCoarse : numerator * Nat.pow 2 (-guess).toNat < denominator * Nat.pow 2 (guess.toNat + 52)
    · refine ⟨guess - 1,?_,?_,?_⟩
      · unfold gridExponent
        rw [← guessed]
        simp only [tooCoarse,if_true]
      · rw [show guess - 1 + 52 = guess + 51 by omega]
        exact above.le
      · rw [show guess - 1 + 53 = guess + 52 by omega]
        exact coarse.mp tooCoarse
    · refine ⟨guess,?_,?_,below⟩
      · unfold gridExponent
        rw [← guessed]
        simp only [tooCoarse,if_false]
      · exact not_lt.mp (mt coarse.mpr tooCoarse)
  rw [chosen]
  refine ⟨le_max_right _ _,?_,?_⟩
  · refine high.trans_le (two_zpow_le_iff.mpr ?_)
    have := le_max_left best (-1074)
    omega
  · rcases le_total best (-1074) with finest | coarser
    · left
      exact max_eq_right finest
    · right
      rw [max_eq_left coarser]
      exact low

theorem nearest_of_grid {numerator denominator : Nat} (something : numerator ≠ 0) {value : Binary}
    (canonical : value.IsCanonical)
    (bits : (gridExponent numerator denominator + 1074).toNat * 2 ^ 52 +
      roundedQuotient (numerator * Nat.pow 2 (-gridExponent numerator denominator).toNat)
        (denominator * Nat.pow 2 (gridExponent numerator denominator).toNat) = value.bits) :
    nearest numerator denominator = Float.ofBits (UInt64.ofNat value.bits) := by
  have small := Binary.bits_lt canonical
  unfold nearest
  rw [if_neg something]
  simp only [Nat.pow_eq] at bits ⊢
  rw [bits,min_eq_left small.le]

private theorem roundedQuotient_same_grid {value : Binary} {x : ℚ} (covers : value.Covers x)
    {numerator denominator : Nat}
    (positive : 0 < denominator) (scaled : x / 2 ^ value.exponent = numerator / denominator) :
    roundedQuotient numerator denominator = value.mantissa := by
  obtain ⟨low,high⟩ := covers.in_units
  rw [scaled] at low high
  refine roundedQuotient_eq positive ?_ high
  rcases low with less | ⟨even,same⟩
  · left
    refine lt_of_le_of_lt ?_ less
    split_ifs <;> linarith
  · by_cases narrow : value.narrowBelow
    · left
      rw [← same,if_pos narrow]
      linarith
    · right
      rw [← same,if_neg narrow]
      exact ⟨even,rfl⟩

private theorem roundedQuotient_finer_grid {value : Binary} (canonical : value.IsCanonical) {x : ℚ}
    (covers : value.Covers x)
    {grid : ℤ} (least : -1074 ≤ grid) (below : x < 2 ^ (grid + 53)) (finer : grid < value.exponent)
    {numerator denominator : Nat} (positive : 0 < denominator)
    (scaled : x / 2 ^ grid = numerator / denominator) :
    grid + 1 = value.exponent ∧ value.mantissa = 2 ^ 52 ∧ roundedQuotient numerator denominator = 2 ^ 53 := by
  obtain ⟨low,_⟩ := covers.in_units
  have full := canonical.full.resolve_left (by omega)
  have full' : (4503599627370496 : ℚ) ≤ value.mantissa := by exact_mod_cast full
  have atLeast : (value.mantissa : ℚ) - 1 / 2 ≤ x / 2 ^ value.exponent := by
    rcases low with less | ⟨_,same⟩
    · refine le_trans ?_ less.le
      split_ifs <;> linarith
    · rw [← same]
      split_ifs <;> linarith
  have under : ∀ bits : ℤ, grid + 53 ≤ value.exponent + bits → x / 2 ^ value.exponent < 2 ^ bits := by
    intro bits enough
    rw [div_lt_iff₀ (two_zpow_pos value.exponent),← zpow_add₀ (by norm_num)]
    exact below.trans_le (two_zpow_le_iff.mpr (by omega))
  have next : grid + 1 = value.exponent := by
    by_contra further
    have tooSmall := under 51 (by omega)
    norm_num at tooSmall
    linarith
  have within := under 52 (by omega)
  norm_num at within
  have power : value.mantissa = 2 ^ 52 := by
    have most : (value.mantissa : ℚ) < 4503599627370497 := by linarith
    have most' : value.mantissa < 4503599627370497 := by exact_mod_cast most
    omega
  have narrow : value.narrowBelow = true := canonical.narrow_iff.mpr ⟨power,by omega⟩
  have twice : x / 2 ^ grid = 2 * (x / 2 ^ value.exponent) := by
    rw [← next,two_zpow_succ]
    field_simp
  refine ⟨next,power,roundedQuotient_eq positive ?_ (.inl ?_)⟩
  · rw [← scaled,twice]
    rw [if_pos narrow,power] at low
    push_cast at low ⊢
    rcases low with less | ⟨_,same⟩
    · left
      linarith
    · right
      exact ⟨by norm_num,by linarith⟩
  · rw [← scaled,twice]
    norm_num
    linarith

/-- A ratio in the interval of a double rounds to it. -/
theorem nearest_of_covers {value : Binary} (canonical : value.IsCanonical) (nonzero : 0 < value.mantissa)
    {numerator denominator : Nat} (positive : denominator ≠ 0)
    (covers : value.Covers (numerator / denominator)) :
    nearest numerator denominator = Float.ofBits (UInt64.ofNat value.bits) := by
  have above : (0 : ℚ) < numerator / denominator := (Binary.low_pos canonical nonzero).trans_le covers.low_le
  have something : numerator ≠ 0 := by
    rintro rfl
    simp at above
  apply nearest_of_grid something canonical
  obtain ⟨least,below,fine⟩ := gridExponent_spec something positive
  have notAbove : gridExponent numerator denominator ≤ value.exponent := by
    rcases fine with finest | large
    · rw [finest]
      exact canonical.exponent_ge
    · have := two_zpow_lt_iff.mp (large.trans_lt (covers.le_high.trans_lt (Binary.high_lt canonical)))
      omega
  have divides : 0 < denominator * Nat.pow 2 (gridExponent numerator denominator).toNat :=
    Nat.mul_pos (Nat.pos_of_ne_zero positive) (Nat.pow_pos (by simp))
  have scaled := ratio_div_zpow numerator denominator (gridExponent numerator denominator)
  generalize gridExponent numerator denominator = grid at *
  rcases notAbove.eq_or_lt with same | finer
  · subst same
    rw [roundedQuotient_same_grid covers divides scaled]
    rfl
  · obtain ⟨next,power,rounds⟩ := roundedQuotient_finer_grid canonical covers least below finer divides scaled
    rw [rounds]
    unfold Binary.bits
    omega

end PinnedMap.Decimal
