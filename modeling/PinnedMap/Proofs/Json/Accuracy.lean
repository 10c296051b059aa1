import PinnedMap.Proofs.Decimal.Accuracy
import PinnedMap.Proofs.Decimal.Precision
import PinnedMap.Proofs.Json.Restoring

/-! How near a number comes to the double that it was written for. The reader rounds the digits, the power of ten and,
for the least doubles, a quotient before it rounds the result. -/
namespace PinnedMap.Json

open Decimal

namespace Number

private theorem ten_pow_lt_overflow {n : Nat} (small : n ≤ 308) : (10 : ℚ) ^ n < Binary.overflow := by
  have powers : 10 ^ 308 < (2 ^ 53 - 1) * 2 ^ 971 := by decide +kernel
  have powers' : (10 : ℚ) ^ 308 < (2 ^ 53 - 1 : ℕ) * 2 ^ 971 := by exact_mod_cast powers
  calc (10 : ℚ) ^ n ≤ 10 ^ 308 := pow_le_pow_right₀ (by norm_num) small
    _ < (2 ^ 53 - 1 : ℕ) * 2 ^ 971 := powers'
    _ ≤ Binary.overflow := by
      unfold Binary.overflow
      rw [zpow_ofNat]
      gcongr
      norm_num

private theorem least_le_one : (2 : ℚ) ^ (-1022 : ℤ) ≤ 1 := by
  rw [← zpow_zero (2 : ℚ)]
  exact two_zpow_le_iff.mpr (by simp)

private theorem approximates_natural {n : Nat} (some : 0 < n) (finite : (n : ℚ) < Binary.overflow) :
    Approximates 1 (nearest n 1) n := by
  have one : (1 : ℚ) ≤ n := by exact_mod_cast some
  exact (rounds_nearest some finite).approximates (by rw [pow_zero,mul_one]; exact least_le_one.trans one)

private theorem approximates_powerOfTen {n : Nat} (small : n ≤ 308) : Approximates 1 (powerOfTen n) (10 ^ n) := by
  have finite : ((Nat.pow 10 n : ℕ) : ℚ) < Binary.overflow := by
    push_cast [Nat.pow_eq]
    exact ten_pow_lt_overflow small
  have power := approximates_natural (Nat.pow_pos (by simp)) finite
  push_cast [Nat.pow_eq] at power
  exact power

private theorem approximates_powerOfTen_exact {n : Nat} (small : n ≤ 22) : Approximates 0 (powerOfTen n) (10 ^ n) := by
  have fits : 5 ^ n < 2 ^ 53 := (Nat.pow_le_pow_right (by simp) small).trans_lt (by norm_num)
  have exact := approximates_exact (5 ^ n) n (by positivity) fits (by omega)
  rw [← Nat.mul_pow] at exact
  push_cast at exact
  exact exact

private theorem scaled_of_neg {n : Nat} {exponent : ℤ} (below : exponent < 0) (range : -308 ≤ exponent) :
    scaled n exponent = some (nearest n 1 / powerOfTen exponent.natAbs) := by
  unfold scaled
  rw [if_pos below,scaleDown,if_pos (by omega)]

private theorem scaled_of_nonneg {n : Nat} {exponent : ℤ} (above : 0 ≤ exponent) (range : exponent ≤ 308)
    (finite : kind (nearest n 1 * powerOfTen exponent.toNat) ≠ .infinite) :
    scaled n exponent = some (nearest n 1 * powerOfTen exponent.toNat) := by
  unfold scaled
  rw [if_neg (by omega),if_pos range]
  dsimp only
  rw [if_neg finite]

private theorem rounds_scaled {n : Nat} {exponent : ℤ} {steps steps' : Nat} (positive : 0 < n)
    (whole : Approximates steps (nearest n 1) n)
    (power : Approximates steps' (powerOfTen exponent.natAbs) (10 ^ exponent.natAbs)) (least : -308 ≤ exponent)
    (most : exponent ≤ 308) (finite : n * 10 ^ exponent * Binary.drift ^ (steps + steps') < Binary.overflow) :
    ∃ value, scaled n exponent = some value ∧ Rounds (steps + steps') value (n * 10 ^ exponent) := by
  have positive' : (0 : ℚ) < n := by exact_mod_cast positive
  have tens : (0 : ℚ) < 10 ^ exponent.natAbs := by positivity
  rcases lt_or_ge exponent 0 with below | above
  · have same : (n : ℚ) * 10 ^ exponent = n / 10 ^ exponent.natAbs := by
      have minus : exponent = -(exponent.natAbs : ℤ) := by omega
      conv_lhs => rw [minus,zpow_neg,zpow_natCast]
      rfl
    rw [same] at finite ⊢
    exact ⟨_,scaled_of_neg below least,whole.div power positive' tens finite⟩
  · have same : (10 : ℚ) ^ exponent = 10 ^ exponent.natAbs := by
      rw [← zpow_natCast]
      congr 1
      omega
    have abs : exponent.natAbs = exponent.toNat := by omega
    rw [same] at finite ⊢
    have rounds := whole.mul power positive' tens finite
    rw [abs] at rounds ⊢
    refine ⟨_,scaled_of_nonneg above most ?_,rounds⟩
    obtain ⟨_,_,canonical,_,_,isDouble⟩ := rounds
    rw [isDouble]
    exact kind_ofBits canonical

private theorem scaled_of_far {n : Nat} {exponent : ℤ} {magnitude : Binary} (canonical : magnitude.IsCanonical)
    (some : 0 < magnitude.mantissa) (isNearest : nearest n 1 = magnitude.double) (far : exponent < -308)
    (range : -616 ≤ exponent) : scaled n exponent =
      Option.some (nearest n 1 / powerOfTen 308 / powerOfTen (exponent.natAbs - 308)) := by
  have notZero : (nearest n 1 == 0) = false := by rw [isNearest,Binary.double_ne_zero canonical some]
  unfold scaled
  rw [if_pos (by omega),scaleDown,if_neg (by omega),notZero,if_neg (by simp),scaleDown,if_pos (by omega)]

private theorem mul_drift_lt_overflow {x : ℚ} (less : x < 2 ^ 64) {steps : Nat} (few : steps ≤ 3) :
    x * Binary.drift ^ steps < Binary.overflow := by
  have factor := pow_pos Binary.drift_pos steps
  apply lt_overflow_of_lt
  calc x * Binary.drift ^ steps < 2 ^ 64 * Binary.drift ^ steps := by gcongr
    _ ≤ 2 ^ 64 * Binary.drift ^ 3 := by
      have powers := pow_le_pow_right₀ one_le_drift few
      gcongr
    _ < 2 ^ 200 := by norm_num [Binary.drift]

private theorem least_le_quotient {n : Nat} (more : 3 ≤ n) :
    (2 : ℚ) ^ (-1022 : ℤ) * Binary.drift ^ (1 + 1) ≤ n / 10 ^ 308 := by
  have powers : 11 * 10 ^ 308 ≤ 30 * 2 ^ 1022 := by decide +kernel
  have powers' : (11 : ℚ) * 10 ^ 308 ≤ 30 * 2 ^ 1022 := by exact_mod_cast powers
  have tenPos : (0 : ℚ) < 10 ^ 308 := by positivity
  have twoPos : (0 : ℚ) < 2 ^ 1022 := by positivity
  have factor : Binary.drift ^ (1 + 1) ≤ 11 / 10 := by norm_num [Binary.drift]
  have more' : (3 : ℚ) ≤ n := by exact_mod_cast more
  rw [zpow_neg,zpow_ofNat,inv_mul_eq_div,div_le_div_iff₀ twoPos tenPos]
  clear powers
  generalize (10 : ℚ) ^ 308 = ten at *
  generalize (2 : ℚ) ^ 1022 = two at *
  calc Binary.drift ^ (1 + 1) * ten ≤ 11 / 10 * ten := by gcongr
    _ ≤ 3 * two := by linarith
    _ ≤ n * two := by gcongr

private theorem rounds_scaled_far {n : Nat} {exponent : ℤ} (more : 3 ≤ n) (fits : n < 2 ^ 64) (far : exponent < -308)
    (least : -330 ≤ exponent) :
    ∃ value, scaled n exponent = some value ∧ Rounds 3 value (n * 10 ^ exponent) := by
  have positive : (0 : ℚ) < n := by exact_mod_cast (show 0 < n by omega)
  have fits' : (n : ℚ) < 2 ^ 64 := by exact_mod_cast fits
  obtain ⟨rest,isRest⟩ : ∃ rest, rest = exponent.natAbs - 308 := ⟨_,rfl⟩
  have tens (power : Nat) : (1 : ℚ) ≤ 10 ^ power := one_le_pow₀ (by norm_num)
  have first : (n : ℚ) / 10 ^ 308 < 2 ^ 64 := (div_le_self positive.le (tens 308)).trans_lt fits'
  have second : (n : ℚ) / 10 ^ 308 / 10 ^ rest < 2 ^ 64 :=
    (div_le_self (by positivity) (tens rest)).trans_lt first
  have whole := approximates_natural (by omega) (lt_overflow_of_lt (fits'.trans (by norm_num)))
  have quotient := whole.div (approximates_powerOfTen le_rfl) positive (by positivity)
    (mul_drift_lt_overflow first (by simp))
  have power : Approximates 0 (powerOfTen rest) (10 ^ rest) := approximates_powerOfTen_exact (by omega)
  have result := (quotient.approximates (least_le_quotient more)).div power (by positivity) (by positivity)
    (mul_drift_lt_overflow second (by simp))
  have same : (n : ℚ) * 10 ^ exponent = n / 10 ^ 308 / 10 ^ rest := by
    have parts : exponent = -((308 + rest : ℕ) : ℤ) := by omega
    rw [parts,zpow_neg,zpow_natCast,pow_add,div_div]
    rfl
  obtain ⟨magnitude,canonical,full,_,isNearest⟩ := whole
  rw [same]
  refine ⟨_,scaled_of_far canonical (by omega) isNearest far (by omega),?_⟩
  rw [← isRest]
  exact result

private theorem isNear_scaled_least : ∀ n ∈ [1,2], ∀ rest ∈ List.range 16, ∃ value ∈ scaled n (-309 - rest),
    IsNear 3 (ofScientific n (-309 - rest)) value := by
  decide +kernel

section Written

variable {magnitude : Binary} {n : Nat} {exponent : ℤ}

private theorem exponent_le_of_covers (canonical : magnitude.IsCanonical) (some : 0 < n)
    (covers : magnitude.Covers (n * 10 ^ exponent)) : exponent ≤ 308 := by
  have powers : 2 ^ 1024 < 10 ^ 309 := by decide +kernel
  have top : (2 : ℚ) ^ (1024 : ℤ) < 10 ^ (309 : ℤ) := by
    rw [zpow_ofNat,zpow_ofNat]
    exact_mod_cast powers
  have one : (1 : ℚ) ≤ n := by exact_mod_cast some
  have less : (10 : ℚ) ^ exponent < 10 ^ (309 : ℤ) := by
    calc (10 : ℚ) ^ exponent ≤ n * 10 ^ exponent := le_mul_of_one_le_left (by positivity) one
      _ ≤ magnitude.high := covers.le_high
      _ < 2 ^ (1024 : ℤ) := Binary.high_lt_top canonical
      _ < 10 ^ (309 : ℤ) := top
  have := (zpow_lt_zpow_iff_right₀ (by norm_num : (1 : ℚ) < 10)).mp less
  omega

private theorem pos_of_covers (canonical : magnitude.IsCanonical) (nonzero : 0 < magnitude.mantissa)
    (covers : magnitude.Covers (n * 10 ^ exponent)) : 0 < n := by
  have covers' : magnitude.Covers (Digits.number ⟨n,exponent⟩) := covers
  exact Nat.pos_of_ne_zero (digits_ne_zero_of_covers canonical nonzero covers')

/-- A number that was written for a double is read as one that is near. -/
theorem isNear_scaled (canonical : magnitude.IsCanonical) (nonzero : 0 < magnitude.mantissa)
    (covers : magnitude.Covers (n * 10 ^ exponent)) (room : magnitude.bits + 2 < 0x7FEFFFFFFFFFFFFF) (fits : n < 2 ^ 64)
    (least : -324 ≤ exponent) : ∃ value, scaled n exponent = some value ∧ IsNear 3 magnitude.double value ∧
      (-308 ≤ exponent → IsNear 2 magnitude.double value) := by
  have positive := pos_of_covers canonical nonzero covers
  have fits' : (n : ℚ) < 2 ^ 64 := by exact_mod_cast fits
  rcases le_or_gt (-308) exponent with plain | far
  · have whole := approximates_natural positive (lt_overflow_of_lt (fits'.trans (by norm_num)))
    have most := exponent_le_of_covers canonical positive covers
    have power := approximates_powerOfTen (n := exponent.natAbs) (by omega)
    obtain ⟨value,reads,rounds⟩ := rounds_scaled positive whole power plain most
      (Binary.mul_drift_lt_overflow canonical covers room)
    have near := rounds.isNear canonical covers
    exact ⟨value,reads,near.mono (by simp),fun _ => near⟩
  · rcases (by simp only [List.mem_cons]; omega : 3 ≤ n ∨ n ∈ [1,2]) with more | few
    · obtain ⟨value,reads,rounds⟩ := rounds_scaled_far more fits far (by omega)
      exact ⟨value,reads,rounds.isNear canonical covers,by omega⟩
    · obtain ⟨rest,isRest⟩ : ∃ rest : Nat, exponent = -309 - rest := ⟨(-309 - exponent).toNat,by omega⟩
      rw [isRest] at covers least ⊢
      obtain ⟨value,reads,near⟩ := isNear_scaled_least n few rest (List.mem_range.mpr (by omega))
      rw [ofScientific_of_covers canonical nonzero covers] at near
      exact ⟨value,reads,near,by omega⟩

/-- With digits and a power that are doubles themselves, only the result is rounded. -/
theorem scaled_eq_double (canonical : magnitude.IsCanonical) (nonzero : 0 < magnitude.mantissa)
    (covers : magnitude.Covers (n * 10 ^ exponent)) (fits : n ≤ 2 ^ 53) (small : exponent.natAbs ≤ 22) :
    scaled n exponent = some magnitude.double := by
  have positive := pos_of_covers canonical nonzero covers
  have less : (n : ℚ) * 10 ^ exponent * Binary.drift ^ (0 + 0) < Binary.overflow := by
    have whole : (n : ℚ) ≤ 2 ^ 53 := by exact_mod_cast fits
    have power : (10 : ℚ) ^ exponent ≤ 10 ^ (22 : ℤ) := zpow_le_zpow_right₀ (by norm_num) (by omega)
    have most : (n : ℚ) * 10 ^ exponent ≤ 2 ^ 53 * 10 ^ (22 : ℤ) := mul_le_mul whole power (by positivity) (by norm_num)
    rw [Nat.add_zero,pow_zero,mul_one]
    exact lt_overflow_of_lt (most.trans_lt (by norm_num))
  obtain ⟨value,reads,rounds⟩ := rounds_scaled positive (approximates_natural_exact positive fits)
    (approximates_powerOfTen_exact small) (by omega) (by omega) less
  rw [reads,rounds.eq_double canonical covers]

end Written

private theorem printed_spec {value : Binary} (canonical : value.IsCanonical) (nonzero : 0 < value.mantissa) :
    value.Covers (printed value).number ∧ (printed value).digits ≤ 10 ^ 17 ∧ -324 ≤ (printed value).exponent := by
  obtain ⟨digits,exponent⟩ := Binary.shortest_spec canonical nonzero .toEven
  unfold printed
  rw [if_neg nonzero.ne',number_shown]
  refine ⟨value.covers_shortest nonzero .toEven,?_⟩
  generalize value.shortest .toEven = decimal at *
  unfold shown
  split_ifs with whole
  · -- Sixteen digits before the point at most, and the zero after it.
    have short : decimal.digits < 10 ^ (Nat.toDigits 10 decimal.digits).length :=
      (Nat.length_toDigits_le_iff (by simp) Nat.length_toDigits_pos).mp le_rfl
    refine ⟨?_,by simp⟩
    calc decimal.digits * 10 ^ (decimal.exponent.toNat + 1)
        ≤ 10 ^ (Nat.toDigits 10 decimal.digits).length * 10 ^ (decimal.exponent.toNat + 1) :=
          Nat.mul_le_mul_right _ short.le
      _ = 10 ^ ((Nat.toDigits 10 decimal.digits).length + (decimal.exponent.toNat + 1)) := (pow_add _ _ _).symm
      _ ≤ 10 ^ 17 := Nat.pow_le_pow_right (by simp) (by omega)
  · exact ⟨digits,exponent⟩

private theorem printed_fits {value : Binary} (canonical : value.IsCanonical) :
    (printed value).digits < 2 ^ 64 ∧ (printed value).exponent.natAbs < 2 ^ 30 := by
  rcases Nat.eq_zero_or_pos value.mantissa with zero | nonzero
  · have digits : printed value = ⟨0,-1⟩ := if_pos zero
    rw [digits]
    exact ⟨by simp,by simp⟩
  · obtain ⟨covers,digits,least⟩ := printed_spec canonical nonzero
    have most := exponent_le_of_covers canonical (pos_of_covers canonical nonzero covers) covers
    exact ⟨digits.trans_lt (by norm_num),by omega⟩

/-- What is read for a written double: the double itself, if neither the digits nor the power of ten have to be
rounded, and otherwise one that is two steps away, or three among the least numbers. -/
structure ComesBack (magnitude : Binary) (value reread : Float) : Prop where
  near : IsNear 3 value reread
  nearer : -308 ≤ (printed magnitude).exponent → IsNear 2 value reread
  same : (printed magnitude).digits ≤ 2 ^ 53 → (printed magnitude).exponent.natAbs ≤ 22 → reread = value

theorem ComesBack.signed {magnitude : Binary} (canonical : magnitude.IsCanonical) {reread : Float}
    (back : ComesBack magnitude magnitude.double reread) (minus : Bool) :
    ComesBack magnitude (signed minus magnitude.double) (signed minus reread) :=
  ⟨back.near.signed canonical minus,fun plain => (back.nearer plain).signed canonical minus,
    fun fits small => congrArg (Decimal.signed minus) (back.same fits small)⟩

private theorem isNear_scaled_largest : ∀ back ∈ List.range 3,
    let magnitude : Binary := ⟨2 ^ 53 - 1 - back,971,false⟩
    22 < (printed magnitude).exponent.natAbs ∧
      ∃ reread ∈ scaled (printed magnitude).digits (printed magnitude).exponent, IsNear 2 magnitude.double reread := by
  decide +kernel

private theorem eq_of_bits_ge {magnitude : Binary} (canonical : magnitude.IsCanonical)
    (full : 0x7FEFFFFFFFFFFFFD ≤ magnitude.bits) :
    ∃ back ∈ List.range 3, magnitude = ⟨2 ^ 53 - 1 - back,971,false⟩ := by
  obtain ⟨least,most,fits,_,narrow⟩ := canonical
  obtain ⟨m,exponent,isNarrow⟩ := magnitude
  unfold Binary.bits at full
  dsimp only at *
  have broad : isNarrow = false := by
    rw [← Bool.not_eq_true,narrow]
    omega
  have last : exponent = 971 := by omega
  refine ⟨2 ^ 53 - 1 - m,List.mem_range.mpr (by omega),?_⟩
  rw [broad,last]
  congr 1
  omega

private theorem comesBack_scaled {magnitude : Binary} (canonical : magnitude.IsCanonical) : ∃ reread,
    scaled (printed magnitude).digits (printed magnitude).exponent = some reread ∧
      ComesBack magnitude magnitude.double reread := by
  rcases Nat.eq_zero_or_pos magnitude.mantissa with zero | nonzero
  · have digits : printed magnitude = ⟨0,-1⟩ := if_pos zero
    have reads : scaled 0 (-1) = some (Float.ofBits 0) := by decide +kernel
    have near : IsNear 2 (Float.ofBits 0) (Float.ofBits 0) := by decide +kernel
    rw [digits]
    unfold Binary.double
    rw [bits_of_zero canonical zero]
    exact ⟨_,reads,near.mono (by simp),fun _ => near,fun _ _ => rfl⟩
  · obtain ⟨covers,digits,least⟩ := printed_spec canonical nonzero
    rcases lt_or_ge magnitude.bits 0x7FEFFFFFFFFFFFFD with room | full
    · obtain ⟨reread,reads,near,nearer⟩ := isNear_scaled canonical nonzero covers (by omega)
        (digits.trans_lt (by norm_num)) least
      refine ⟨reread,reads,near,nearer,fun fits small => ?_⟩
      exact Option.some.inj (reads.symm.trans (scaled_eq_double canonical nonzero covers fits small))
    · obtain ⟨back,listed,rfl⟩ := eq_of_bits_ge canonical full
      obtain ⟨large,reread,reads,near⟩ := isNear_scaled_largest back listed
      exact ⟨reread,reads,near.mono (by simp),fun _ => near,fun _ small => absurd small (by omega)⟩

end Number

namespace Codec

open Number

/-- Every finite double is read from what was written for it, and comes back. -/
theorem exists_rereads {value : Float} {magnitude : Binary} (finite : kind value = .finite magnitude) :
    ∃ reread, Rereads value reread ∧ ComesBack magnitude value reread := by
  obtain ⟨canonical,bits⟩ := isCanonical_of_kind finite
  have isValue : signed (isNegative value) magnitude.double = value := by
    unfold Binary.double
    rw [bits]
    exact signed_magnitudeBits (by rw [finite]; exact Kind.noConfusion)
  rcases chars_json value with ⟨other,_⟩ | ⟨written,whole,fraction,power,sort,isNumeral,shows,shape⟩
  · exact absurd finite (other magnitude)
  · obtain rfl : magnitude = written := Kind.finite.inj (finite.symm.trans sort)
    obtain ⟨fits,small⟩ := printed_fits canonical
    obtain ⟨reread,reads,back⟩ := comesBack_scaled canonical
    have parts := ofParts_of_shows shows fits small (isNegative value)
    rw [reads,ofReal] at parts
    have node : Reads (Codec.number.write value) (.number (.real (signed (isNegative value) reread))) := by
      change Reads (Form.json.chars value) _
      rw [shape,← parts]
      exact reads_numeral isNumeral (isNegative value)
    have result := back.signed canonical (isNegative value)
    rw [isValue] at result
    exact ⟨_,ofChars_of_reads Codec.number node,result⟩

end Codec
end PinnedMap.Json
