import Mathlib.Data.Rat.Floor
import PinnedMap.Proofs.Decimal.Nearest

/-! Rounding to doubles, and how far it leads. One rounding changes a number by no more than a factor, and the ends of
the intervals of two doubles that follow each other differ by more than this factor. So every rounding before the last
one moves the result by one double at most. -/
namespace PinnedMap.Decimal

/-- One of the whole numbers nearest to `x`, the even one of two. -/
structure IsRounded (m : Nat) (x : ℚ) : Prop where
  low : (m : ℚ) - 1 / 2 < x ∨ m % 2 = 0 ∧ (m : ℚ) - 1 / 2 = x
  high : x < m + 1 / 2 ∨ m % 2 = 0 ∧ x = m + 1 / 2

namespace IsRounded

variable {m : Nat} {x : ℚ}

private theorem low_le (rounded : IsRounded m x) : (m : ℚ) - 1 / 2 ≤ x :=
  rounded.low.elim le_of_lt fun ⟨_,same⟩ => same.le

private theorem le_high (rounded : IsRounded m x) : x ≤ m + 1 / 2 := rounded.high.elim le_of_lt fun ⟨_,same⟩ => same.le

private theorem le_of_le {most : Nat} (rounded : IsRounded m x) (bound : x ≤ most) : m ≤ most := by
  have low := rounded.low_le
  have less : (m : ℚ) < (most + 1 : ℕ) := by
    push_cast
    linarith
  exact Nat.lt_succ_iff.mp (by exact_mod_cast less)

theorem le_of_ge {least : Nat} (rounded : IsRounded m x) (bound : least ≤ x) : least ≤ m := by
  have high := rounded.le_high
  have less : (least : ℚ) < (m + 1 : ℕ) := by
    push_cast
    linarith
  exact Nat.lt_succ_iff.mp (by exact_mod_cast less)

private theorem scale {grid : ℤ} (rounded : IsRounded m (x / 2 ^ grid)) :
    ((m - 1 / 2) * 2 ^ grid < x ∨ m % 2 = 0 ∧ (m - 1 / 2) * 2 ^ grid = x) ∧
      (x < (m + 1 / 2) * 2 ^ grid ∨ m % 2 = 0 ∧ x = (m + 1 / 2) * 2 ^ grid) := by
  have unit := two_zpow_pos grid
  obtain ⟨low,high⟩ := rounded
  rw [lt_div_iff₀ unit,eq_div_iff unit.ne'] at low
  rw [div_lt_iff₀ unit,div_eq_iff unit.ne'] at high
  exact ⟨low,high⟩

end IsRounded

private theorem exists_isRounded {x : ℚ} (nonneg : 0 ≤ x) : ∃ m, IsRounded m x := by
  obtain ⟨floor,below,above⟩ : ∃ floor : Nat, (floor : ℚ) ≤ x ∧ x < floor + 1 :=
    ⟨⌊x⌋₊,Nat.floor_le nonneg,Nat.lt_floor_add_one x⟩
  rcases lt_trichotomy x (floor + 1 / 2) with less | same | more
  · exact ⟨floor,.inl (by linarith),.inl less⟩
  · rcases Nat.mod_two_eq_zero_or_one floor with even | odd
    · exact ⟨floor,.inl (by linarith),.inr ⟨even,same⟩⟩
    · refine ⟨floor + 1,.inr ⟨by omega,?_⟩,.inl ?_⟩ <;> push_cast <;> linarith
  · refine ⟨floor + 1,.inl ?_,.inl ?_⟩ <;> push_cast <;> linarith

theorem isRounded_roundedQuotient (numerator : Nat) {denominator : Nat} (positive : 0 < denominator) :
    IsRounded (roundedQuotient numerator denominator) (numerator / denominator) := by
  obtain ⟨m,rounded⟩ := exists_isRounded (x := (numerator : ℚ) / denominator) (by positivity)
  rwa [roundedQuotient_eq positive rounded.low rounded.high]

namespace Binary

abbrev double (value : Binary) : Float := Float.ofBits (UInt64.ofNat value.bits)

def overflow : ℚ := (2 ^ 53 - 1 / 2) * 2 ^ (971 : ℤ)

theorem overflow_lt : overflow < 2 ^ (1024 : ℤ) := by
  have power : (2 : ℚ) ^ (1024 : ℤ) = 2 ^ 53 * 2 ^ (971 : ℤ) := by rw [← zpow_natCast,← zpow_add₀ (by norm_num)]; rfl
  rw [power,overflow]
  gcongr
  norm_num

/-- A double that has the mantissa on the grid, where a mantissa of `2^53` carries into the exponent. -/
def HasMantissa (value : Binary) (grid : ℤ) (m : Nat) : Prop :=
  m < 2 ^ 53 ∧ value.mantissa = m ∧ value.exponent = grid ∨
    m = 2 ^ 53 ∧ value.mantissa = 2 ^ 52 ∧ value.exponent = grid + 1

theorem HasMantissa.bits_eq {value : Binary} {grid : ℤ} {m : Nat} (has : value.HasMantissa grid m)
    (least : -1074 ≤ grid) : value.bits = (grid + 1074).toNat * 2 ^ 52 + m := by
  unfold bits
  rcases has with ⟨_,mantissa,exponent⟩ | ⟨carry,mantissa,exponent⟩
  · rw [mantissa,exponent]
  · rw [mantissa,exponent,carry]
    omega

theorem two_zpow_add (grid bits : ℤ) : (2 : ℚ) ^ (grid + bits) = 2 ^ bits * 2 ^ grid := by
  rw [add_comm,zpow_add₀ (by norm_num)]

section Grid

variable {grid : ℤ} {m : Nat} {x : ℚ}

private theorem exists_covers_of_fits (least : -1074 ≤ grid) (rounded : IsRounded m (x / 2 ^ grid)) (fits : m < 2 ^ 53)
    (full : grid = -1074 ∨ 2 ^ (grid + 52) ≤ x) (finite : x < overflow) :
    ∃ value : Binary, value.IsCanonical ∧ value.Covers x ∧ value.mantissa = m ∧ value.exponent = grid := by
  have unit := two_zpow_pos grid
  have filled : grid = -1074 ∨ 2 ^ 52 ≤ m := by
    refine full.imp_right fun large => rounded.le_of_ge ?_
    rw [le_div_iff₀ unit]
    exact_mod_cast two_zpow_add grid 52 ▸ large
  obtain ⟨low,high⟩ := rounded.scale
  refine ⟨⟨m,grid,decide (m = 2 ^ 52 ∧ -1074 < grid)⟩,⟨least,?_,fits,filled,by simp⟩,⟨?_,high⟩,rfl,rfl⟩
  · rcases full with finest | large
    · dsimp only
      omega
    · have := two_zpow_lt_iff.mp ((large.trans_lt finite).trans overflow_lt)
      dsimp only
      omega
  · unfold Binary.low
    by_cases narrow : m = 2 ^ 52 ∧ -1074 < grid
    · left
      have large : 2 ^ 52 * (2 : ℚ) ^ grid ≤ x := by exact_mod_cast two_zpow_add grid 52 ▸ full.resolve_left (by omega)
      rw [if_pos (by simpa using narrow),narrow.1]
      push_cast
      linarith
    · rwa [if_neg (by simpa using narrow)]

private theorem exists_covers_of_carry (least : -1074 ≤ grid) (rounded : IsRounded (2 ^ 53) (x / 2 ^ grid))
    (below : x < 2 ^ (grid + 53)) (finite : x < overflow) :
    ∃ value : Binary, value.IsCanonical ∧ value.Covers x ∧ value.mantissa = 2 ^ 52 ∧ value.exponent = grid + 1 := by
  have unit := two_zpow_pos grid
  have next : (2 : ℚ) ^ (grid + 1) = 2 * 2 ^ grid := two_zpow_succ grid
  have low := rounded.scale.1
  have least' := rounded.low_le
  rw [le_div_iff₀ unit] at least'
  push_cast at low least'
  have range : grid < 971 := by
    have reaches := least'.trans_lt finite
    rw [overflow] at reaches
    exact two_zpow_lt_iff.mp (lt_of_mul_lt_mul_left reaches (by norm_num))
  refine ⟨⟨2 ^ 52,grid + 1,true⟩,⟨?_,?_,by simp,.inr le_rfl,?_⟩,⟨?_,.inl ?_⟩,rfl,rfl⟩
  · dsimp only
    omega
  · dsimp only
    omega
  · simp only [true_iff,true_and]
    omega
  · have same : Binary.low ⟨2 ^ 52,grid + 1,true⟩ = (2 ^ 53 - 1 / 2) * 2 ^ grid := by
      simp only [Binary.low,if_true,next]
      push_cast
      ring
    rw [same]
    exact low.imp_right fun ⟨_,same⟩ => ⟨by norm_num,same⟩
  · rw [two_zpow_add] at below
    simp only [Binary.high,next]
    push_cast
    norm_num at below ⊢
    linarith

theorem exists_covers (least : -1074 ≤ grid) (rounded : IsRounded m (x / 2 ^ grid))
    (below : x < 2 ^ (grid + 53)) (full : grid = -1074 ∨ 2 ^ (grid + 52) ≤ x) (finite : x < overflow) :
    ∃ value : Binary, value.IsCanonical ∧ value.Covers x ∧ value.HasMantissa grid m := by
  have most : m ≤ 2 ^ 53 := by
    apply rounded.le_of_le
    rw [div_le_iff₀ (two_zpow_pos grid)]
    exact_mod_cast (two_zpow_add grid 53 ▸ below).le
  rcases most.lt_or_eq with fits | rfl
  · obtain ⟨value,canonical,covers,parts⟩ := exists_covers_of_fits least rounded fits full finite
    exact ⟨value,canonical,covers,.inl ⟨fits,parts⟩⟩
  · obtain ⟨value,canonical,covers,parts⟩ := exists_covers_of_carry least rounded below finite
    exact ⟨value,canonical,covers,.inr ⟨rfl,parts⟩⟩

end Grid

end Binary

/-- A ratio that is not too large rounds to a double that covers it. -/
theorem nearest_covers {numerator denominator : Nat} (something : numerator ≠ 0) (positive : denominator ≠ 0)
    (finite : (numerator : ℚ) / denominator < Binary.overflow) : ∃ value : Binary,
      value.IsCanonical ∧ value.Covers (numerator / denominator) ∧ nearest numerator denominator = value.double := by
  obtain ⟨least,below,full⟩ := gridExponent_spec something positive
  have divides : 0 < denominator * Nat.pow 2 (gridExponent numerator denominator).toNat :=
    Nat.mul_pos (Nat.pos_of_ne_zero positive) (Nat.pow_pos (by simp))
  have rounded := isRounded_roundedQuotient
    (numerator * Nat.pow 2 (-gridExponent numerator denominator).toNat) divides
  rw [← ratio_div_zpow] at rounded
  obtain ⟨value,canonical,covers,has⟩ := Binary.exists_covers least rounded below full finite
  exact ⟨value,canonical,covers,nearest_of_grid something canonical (has.bits_eq least).symm⟩

namespace Binary

/-- The factor by which one rounding changes a number at most, unless the number is too small for 53 bits. -/
def drift : ℚ := 1 + 1 / 2 ^ 53

theorem drift_pos : 0 < drift := by norm_num [drift]

/-- Two numbers that are so many roundings apart at most. -/
structure Drifts (steps : Nat) (x y : ℚ) : Prop where
  le : x ≤ y * drift ^ steps
  ge : y ≤ x * drift ^ steps

namespace Drifts

variable {steps steps' : Nat} {x y z x' y' : ℚ}

theorem refl (x : ℚ) : Drifts 0 x x := by constructor <;> simp

theorem symm (drifts : Drifts steps x y) : Drifts steps y x := ⟨drifts.ge,drifts.le⟩

theorem trans (drifts : Drifts steps x y) (drifts' : Drifts steps' y z) : Drifts (steps + steps') x z := by
  have factor := pow_pos drift_pos steps
  have factor' := pow_pos drift_pos steps'
  constructor
  · calc x ≤ y * drift ^ steps := drifts.le
      _ ≤ z * drift ^ steps' * drift ^ steps := by
        gcongr
        exact drifts'.le
      _ = z * drift ^ (steps + steps') := by ring
  · calc z ≤ y * drift ^ steps' := drifts'.ge
      _ ≤ x * drift ^ steps * drift ^ steps' := by
        gcongr
        exact drifts.ge
      _ = x * drift ^ (steps + steps') := by ring

theorem mul (drifts : Drifts steps x y) (drifts' : Drifts steps' x' y') (positive : 0 < x) (positive' : 0 < x')
    (first : 0 < y) (second : 0 < y') : Drifts (steps + steps') (x * x') (y * y') := by
  have factor := pow_pos drift_pos steps
  have factor' := pow_pos drift_pos steps'
  constructor
  · calc x * x' ≤ (y * drift ^ steps) * (y' * drift ^ steps') :=
          mul_le_mul drifts.le drifts'.le positive'.le (by positivity)
      _ = y * y' * drift ^ (steps + steps') := by ring
  · calc y * y' ≤ (x * drift ^ steps) * (x' * drift ^ steps') :=
          mul_le_mul drifts.ge drifts'.ge second.le (by positivity)
      _ = x * x' * drift ^ (steps + steps') := by ring

private theorem inv (drifts : Drifts steps x y) (positive : 0 < x) (positive' : 0 < y) :
    Drifts steps (1 / x) (1 / y) := by
  have factor := pow_pos drift_pos steps
  constructor
  · rw [div_mul_eq_mul_div,one_mul,div_le_div_iff₀ positive positive',one_mul,mul_comm]
    exact drifts.ge
  · rw [div_mul_eq_mul_div,one_mul,div_le_div_iff₀ positive' positive,one_mul,mul_comm]
    exact drifts.le

theorem div (drifts : Drifts steps x y) (drifts' : Drifts steps' x' y') (positive : 0 < x) (positive' : 0 < x')
    (first : 0 < y) (second : 0 < y') : Drifts (steps + steps') (x / x') (y / y') := by
  rw [div_eq_mul_one_div x,div_eq_mul_one_div y]
  exact drifts.mul (drifts'.inv positive' second) positive (by positivity) first (by positivity)

end Drifts

variable {value other : Binary} {x y : ℚ}

theorem full_of_le (canonical : value.IsCanonical) (covers : value.Covers x) (large : 2 ^ (-1022 : ℤ) ≤ x) :
    2 ^ 52 ≤ value.mantissa := by
  by_contra less
  have finest := canonical.full.resolve_right less
  have short : (value.mantissa : ℚ) + 1 ≤ 2 ^ 52 := by exact_mod_cast not_le.mp less
  have unit := two_zpow_pos (-1074)
  have least : (2 : ℚ) ^ (-1022 : ℤ) = 2 ^ 52 * 2 ^ (-1074 : ℤ) := by exact_mod_cast two_zpow_add (-1074) 52
  have within := large.trans covers.le_high
  rw [high,finest,least] at within
  have := le_of_mul_le_mul_right within unit
  linarith

private theorem number_le_low_mul_drift (canonical : value.IsCanonical) (full : 2 ^ 52 ≤ value.mantissa)
    (coarse : value.mantissa = 2 ^ 52 → value.exponent ≠ -1074) : value.number ≤ value.low * drift := by
  have unit := two_zpow_pos value.exponent
  rw [number,low,drift,mul_right_comm]
  refine mul_le_mul_of_nonneg_right ?_ unit.le
  by_cases power : value.mantissa = 2 ^ 52
  · have narrow : value.narrowBelow = true :=
      canonical.narrow_iff.mpr ⟨power,lt_of_le_of_ne canonical.exponent_ge (coarse power).symm⟩
    rw [narrow,if_pos rfl,power]
    norm_num
  · have more : (2 : ℚ) ^ 52 + 1 ≤ value.mantissa := by
      exact_mod_cast Nat.succ_le_of_lt (lt_of_le_of_ne full (Ne.symm power))
    split_ifs <;> linarith

theorem Covers.drifts (canonical : value.IsCanonical) (covers : value.Covers x) (large : 2 ^ (-1022 : ℤ) ≤ x) :
    Drifts 1 value.number x := by
  have full := full_of_le canonical covers large
  have full' : (2 : ℚ) ^ 52 ≤ value.mantissa := by exact_mod_cast full
  constructor <;> rw [pow_one]
  · by_cases least : value.mantissa = 2 ^ 52 ∧ value.exponent = -1074
    · -- The least double of 53 bits: what is smaller is excluded.
      have same : value.number = 2 ^ (-1022 : ℤ) := by
        rw [number,least.1,least.2]
        exact_mod_cast (two_zpow_add (-1074) 52).symm
      have nonneg : 0 ≤ x := (two_zpow_pos _).le.trans large
      rw [same]
      exact large.trans (le_mul_of_one_le_right nonneg (by norm_num [drift]))
    · calc value.number ≤ value.low * drift :=
            number_le_low_mul_drift canonical full fun power finest => least ⟨power,finest⟩
        _ ≤ x * drift := mul_le_mul_of_nonneg_right covers.low_le drift_pos.le
  · calc x ≤ (value.mantissa + 1 / 2) * 2 ^ value.exponent := covers.le_high
      _ ≤ value.mantissa * drift * 2 ^ value.exponent := by
        rw [drift]
        gcongr
        linarith
      _ = value.number * drift := mul_right_comm _ _ _

theorem exists_next (canonical : value.IsCanonical) (finite : value.bits + 1 < 0x7FF0000000000000) :
    ∃ next : Binary, next.IsCanonical ∧ next.bits = value.bits + 1 ∧ value.high * drift < next.high := by
  obtain ⟨least,most,fits,full,narrow⟩ := canonical
  have unit := two_zpow_pos value.exponent
  have fits' : (value.mantissa : ℚ) + 1 ≤ 2 ^ 53 := by exact_mod_cast fits
  unfold bits at finite ⊢
  by_cases carry : value.mantissa + 1 = 2 ^ 53
  · refine ⟨⟨2 ^ 52,value.exponent + 1,true⟩,⟨?_,?_,by simp,.inr le_rfl,?_⟩,?_,?_⟩
    · dsimp only
      omega
    · dsimp only
      omega
    · simp only [true_iff,true_and]
      omega
    · dsimp only
      omega
    · have last : (value.mantissa : ℚ) = 2 ^ 53 - 1 := by
        rw [eq_sub_iff_add_eq]
        exact_mod_cast carry
      simp only [high,drift,last,two_zpow_succ]
      push_cast
      linarith
  · have fits : value.mantissa + 1 < 2 ^ 53 := by omega
    refine ⟨⟨value.mantissa + 1,value.exponent,false⟩,
      ⟨least,most,fits,full.imp_right Nat.le_succ_of_le,?_⟩,?_,?_⟩
    · simp only [Bool.false_eq_true,false_iff]
      rcases full with finest | large <;> omega
    · exact (Nat.add_assoc _ _ _).symm
    · simp only [high,drift]
      push_cast
      rw [mul_right_comm]
      gcongr
      linarith

theorem high_le_low (canonical : value.IsCanonical) (canonical' : other.IsCanonical) (less : value.bits < other.bits) :
    value.high ≤ other.low := by
  obtain ⟨least,most,fits,full,narrow⟩ := canonical
  obtain ⟨least',most',fits',full',narrow'⟩ := canonical'
  unfold bits at less
  unfold high low
  rcases lt_trichotomy value.exponent other.exponent with below | same | above
  · have unit := two_zpow_pos value.exponent
    have full := full'.resolve_left (by omega)
    have last : (value.mantissa : ℚ) ≤ 2 ^ 53 - 1 := by
      rw [le_sub_iff_add_le]
      exact_mod_cast fits
    have first : (2 ^ 52 - 1 / 4 : ℚ) ≤ other.mantissa - if other.narrowBelow then 1 / 4 else 1 / 2 := by
      by_cases power : other.mantissa = 2 ^ 52
      · rw [if_pos (narrow'.mpr ⟨power,by omega⟩),power]
        norm_num
      · have more : (2 ^ 52 + 1 : ℚ) ≤ other.mantissa := by exact_mod_cast (by omega : 2 ^ 52 + 1 ≤ other.mantissa)
        split_ifs <;> linarith
    calc (value.mantissa + 1 / 2) * (2 : ℚ) ^ value.exponent
        ≤ (2 ^ 52 - 1 / 4) * (2 * 2 ^ value.exponent) := by
          rw [mul_left_comm,← mul_assoc]
          gcongr
          linarith
      _ = (2 ^ 52 - 1 / 4) * 2 ^ (value.exponent + 1) := by rw [two_zpow_succ]
      _ ≤ (2 ^ 52 - 1 / 4) * 2 ^ other.exponent := by
        have powers := two_zpow_le_iff.mpr below
        gcongr
      _ ≤ _ := by gcongr
  · rw [same] at less ⊢
    have more : (value.mantissa : ℚ) + 1 ≤ other.mantissa := by
      exact_mod_cast (by omega : value.mantissa + 1 ≤ other.mantissa)
    gcongr
    split_ifs <;> linarith
  · rcases full with finest | large <;> omega

private theorem high_mul_drift_lt_low (canonical : value.IsCanonical) (canonical' : other.IsCanonical) (steps : Nat)
    (apart : value.bits + (steps + 1) < other.bits) : value.high * drift ^ (steps + 1) < other.low := by
  induction steps generalizing value with
  | zero =>
    obtain ⟨next,isNext,one,more⟩ := exists_next canonical (by have := bits_lt canonical'; omega)
    calc value.high * drift ^ 1 = value.high * drift := by rw [pow_one]
      _ < next.high := more
      _ ≤ other.low := high_le_low isNext canonical' (by omega)
  | succ steps ih =>
    obtain ⟨next,isNext,one,more⟩ := exists_next canonical (by have := bits_lt canonical'; omega)
    have factor : 0 < drift ^ (steps + 1) := pow_pos drift_pos _
    calc value.high * drift ^ (steps + 1 + 1) = value.high * drift * drift ^ (steps + 1) := by ring
      _ < next.high * drift ^ (steps + 1) := by gcongr
      _ < other.low := ih isNext (by omega)

private theorem high_pos (value : Binary) : 0 < value.high := by
  have unit := two_zpow_pos value.exponent
  unfold high
  positivity

private theorem bits_le_of_covers (canonical : value.IsCanonical) (covers : value.Covers x)
    (canonical' : other.IsCanonical) (covers' : other.Covers x) : other.bits ≤ value.bits := by
  by_contra less
  have apart := high_le_low canonical canonical' (not_le.mp less)
  have atHigh : x = value.high := le_antisymm covers.le_high (apart.trans covers'.low_le)
  have atLow : other.low = x := le_antisymm covers'.low_le (covers.le_high.trans apart)
  -- Both doubles are even, so there is one between them.
  have even := (covers.to_high.resolve_left (by rw [atHigh]; exact lt_irrefl _)).1
  have even' := (covers'.from_low.resolve_left (by rw [atLow]; exact lt_irrefl _)).1
  have further : value.bits + (0 + 1) < other.bits := by
    unfold bits at *
    omega
  have beyond := high_mul_drift_lt_low canonical canonical' 0 further
  have grows : value.high < value.high * drift ^ (0 + 1) :=
    lt_mul_of_one_lt_right value.high_pos (by norm_num [drift])
  linarith

/-- A number lies in the intervals of two doubles only if they are the same. -/
theorem bits_eq_of_covers (canonical : value.IsCanonical) (covers : value.Covers x) (canonical' : other.IsCanonical)
    (covers' : other.Covers x) : other.bits = value.bits :=
  le_antisymm (bits_le_of_covers canonical covers canonical' covers')
    (bits_le_of_covers canonical' covers' canonical covers)

theorem bits_le_of_drifts (canonical : value.IsCanonical) (covers : value.Covers x) (canonical' : other.IsCanonical)
    (covers' : other.Covers y) {steps : Nat} (drifts : Drifts (steps + 1) y x) :
    other.bits ≤ value.bits + (steps + 1) := by
  by_contra far
  have factor : 0 < drift ^ (steps + 1) := pow_pos drift_pos _
  have beyond := high_mul_drift_lt_low canonical canonical' steps (not_le.mp far)
  have within : x * drift ^ (steps + 1) ≤ value.high * drift ^ (steps + 1) := by
    gcongr
    exact covers.le_high
  linarith [covers'.low_le,drifts.le]

def largest : Binary := ⟨2 ^ 53 - 1,971,false⟩

theorem isCanonical_largest : largest.IsCanonical := by constructor <;> decide

theorem mul_drift_lt_overflow (canonical : value.IsCanonical) (covers : value.Covers x) {steps : Nat}
    (room : value.bits + (steps + 1) < 0x7FEFFFFFFFFFFFFF) : x * drift ^ (steps + 1) < overflow := by
  have factor : 0 < drift ^ (steps + 1) := pow_pos drift_pos _
  calc x * drift ^ (steps + 1) ≤ value.high * drift ^ (steps + 1) := by
        gcongr
        exact covers.le_high
    _ < largest.low := high_mul_drift_lt_low canonical isCanonical_largest steps room
    _ ≤ overflow := by
      unfold low overflow largest
      rw [if_neg (by simp)]
      gcongr
      norm_num

end Binary
end PinnedMap.Decimal
