import PinnedMap.Geometry
import PinnedMap.Proofs.Decimal.Accuracy
import PinnedMap.Proofs.Decimal.Closest

/-! Which results are finite. Rounding respects order, so a result is no greater than a double that the exact result
does not exceed; a bound on what goes into a product or a quotient becomes a bound on what comes out. -/
namespace PinnedMap.Decimal

open Binary Float.Model Float.Model.UnpackedFloat

def IsFinite (value : Float) : Prop := ∃ magnitude, kind value = .finite magnitude

instance (value : Float) : Decidable (IsFinite value) :=
  match sort : kind value with
  | .finite magnitude => isTrue ⟨magnitude,sort⟩
  | .nan => isFalse fun ⟨_,other⟩ => by cases sort.symm.trans other
  | .infinite => isFalse fun ⟨_,other⟩ => by cases sort.symm.trans other

namespace Binary

variable {value other most : Binary} {x : ℚ}

private theorem ofBits_bits (canonical : value.IsCanonical) :
    ofBits (value.bits / 2 ^ 52) (value.bits % 2 ^ 52) = value := by
  obtain ⟨least,_,fits,full,narrow⟩ := canonical
  obtain ⟨mantissa,exponent,isNarrow⟩ := value
  unfold bits
  dsimp only at *
  by_cases small : mantissa < 2 ^ 52
  · obtain rfl : exponent = -1074 := full.resolve_right (by omega)
    have broad : isNarrow = false := by
      rw [← Bool.not_eq_true,narrow]
      omega
    have field : (((-1074 : ℤ) + 1074).toNat * 2 ^ 52 + mantissa) / 2 ^ 52 = 0 := by omega
    have fraction : (((-1074 : ℤ) + 1074).toNat * 2 ^ 52 + mantissa) % 2 ^ 52 = mantissa := by omega
    rw [field,fraction,broad]
    rfl
  · have field : ((exponent + 1074).toNat * 2 ^ 52 + mantissa) / 2 ^ 52 = (exponent + 1075).toNat := by omega
    have fraction : ((exponent + 1074).toNat * 2 ^ 52 + mantissa) % 2 ^ 52 = mantissa - 2 ^ 52 := by omega
    have same : (decide (mantissa - 2 ^ 52 = 0) && decide (1 < (exponent + 1075).toNat)) = isNarrow := by
      rw [Bool.eq_iff_iff,narrow,Bool.and_eq_true,decide_eq_true_eq,decide_eq_true_eq]
      omega
    rw [field,fraction]
    unfold ofBits
    rw [if_neg (by omega),same]
    simp only [Nat.pow_eq,mk.injEq,and_true]
    omega

theorem kind_double (canonical : value.IsCanonical) : kind value.double = .finite value := by
  have small := bits_lt canonical
  rw [kind_eq,magnitudeBits_double canonical,if_neg (by omega),ofBits_bits canonical]

private theorem number_le_of_covers (canonical : value.IsCanonical) (covers : value.Covers x)
    (canonical' : most.IsCanonical) (bound : x ≤ most.number) : value.number ≤ most.number := by
  rcases lt_trichotomy value.bits most.bits with less | same | more
  · exact (number_lt canonical canonical' less).le
  · exact (number_eq_of_bits_eq canonical canonical' same).le
  · have apart := high_le_low canonical' canonical more
    have below := covers.low_le
    have inside := most.number_lt_high
    linarith

private theorem number_lt_overflow (canonical : most.IsCanonical) : most.number < overflow := by
  obtain ⟨_,range,fits,_⟩ := canonical
  have fits : (most.mantissa : ℚ) ≤ 2 ^ 53 - 1 := by
    rw [le_sub_iff_add_le]
    exact_mod_cast fits
  have unit := two_zpow_pos most.exponent
  calc most.number ≤ (2 ^ 53 - 1) * 2 ^ most.exponent := by
        unfold number
        gcongr
    _ ≤ (2 ^ 53 - 1) * 2 ^ (971 : ℤ) :=
      mul_le_mul_of_nonneg_left (two_zpow_le_iff.mpr range) (by norm_num)
    _ < overflow := mul_lt_mul_of_pos_right (by norm_num) (two_zpow_pos 971)

theorem number_nonneg (value : Binary) : 0 ≤ value.number := mul_nonneg (Nat.cast_nonneg _) (two_zpow_pos _).le

def none : Binary := ⟨0,-1074,false⟩

theorem isCanonical_none : none.IsCanonical := by constructor <;> decide

theorem number_none : none.number = 0 := by simp [number,none]

private theorem eq_none (canonical : value.IsCanonical) (zero : value.mantissa = 0) : value = none := by
  obtain ⟨_,_,_,full,narrow⟩ := canonical
  obtain ⟨mantissa,exponent,isNarrow⟩ := value
  dsimp only at *
  obtain rfl := zero
  obtain rfl : exponent = -1074 := full.resolve_right (by omega)
  have broad : isNarrow = false := by
    rw [← Bool.not_eq_true,narrow]
    omega
  rw [broad]
  rfl

private theorem unpacked_none : none.unpacked = .zero .positive := rfl

private theorem double_none : none.double = 0 := float_ext (by decide +kernel)

private theorem exists_mul (canonical : value.IsCanonical) (canonical' : other.IsCanonical)
    (finite : value.number * other.number < overflow) :
    ∃ product : Binary, product.IsCanonical ∧ product.Covers (value.number * other.number) ∧
      value.double * other.double = product.double := by
  by_cases some : 0 < value.mantissa ∧ 0 < other.mantissa
  · exact mul_double canonical canonical' some.1 some.2 finite
  · have parts : value.double * other.double =
      ⟨.pack (UnpackedFloat.mul Format.binary64 value.double.toModel.unpack other.double.toModel.unpack)⟩ := rfl
    refine ⟨none,isCanonical_none,?_,?_⟩
    · have zero : value.number * other.number = none.number := by
        rw [number_none,mul_eq_zero]
        rcases Nat.eq_zero_or_pos value.mantissa with zero | positive
        · exact .inl (by simp [number,zero])
        · exact .inr (by simp [number,Nat.eq_zero_of_not_pos fun positive' => some ⟨positive,positive'⟩])
      rw [zero]
      exact covers_number none
    · have product : UnpackedFloat.mul Format.binary64 value.unpacked other.unpacked = none.unpacked := by
        rw [unpacked_none]
        rcases value.unpacked_cases with left | ⟨positive,left⟩ <;>
          rcases other.unpacked_cases with right | ⟨positive',right⟩
        case inr.inr => exact absurd ⟨positive,positive'⟩ some
        all_goals
          rw [left,right]
          rfl
      rw [parts,unpack_double canonical,unpack_double canonical',product,double_eq isCanonical_none]

private theorem exists_div (canonical : value.IsCanonical) (canonical' : other.IsCanonical) (some : 0 < other.mantissa)
    (finite : value.number / other.number < overflow) :
    ∃ quotient : Binary, quotient.IsCanonical ∧ quotient.Covers (value.number / other.number) ∧
      value.double / other.double = quotient.double := by
  rcases Nat.eq_zero_or_pos value.mantissa with zero | positive
  · obtain rfl := eq_none canonical zero
    have parts : none.double / other.double =
      ⟨.pack (UnpackedFloat.div Format.binary64 none.double.toModel.unpack other.double.toModel.unpack)⟩ := rfl
    refine ⟨none,isCanonical_none,?_,?_⟩
    · have same : none.number / other.number = none.number := by rw [number_none,zero_div]
      rw [same]
      exact covers_number none
    · rw [parts,unpack_double canonical,unpack_double canonical',unpacked_pos some,double_eq isCanonical_none]
      rfl
  · exact div_double canonical canonical' positive some finite

end Binary

/-- A double from zero to `most`. -/
def IsWithin (most : ℚ) (value : Float) : Prop :=
  ∃ magnitude : Binary, magnitude.IsCanonical ∧ value = magnitude.double ∧ magnitude.number ≤ most

namespace IsWithin

variable {value other : Float} {x y : ℚ} {bound divisor : Binary}

theorem isFinite (within : IsWithin x value) : IsFinite value := by
  obtain ⟨magnitude,canonical,rfl,_⟩ := within
  exact ⟨magnitude,kind_double canonical⟩

theorem mono (within : IsWithin x value) (more : x ≤ y) : IsWithin y value := by
  obtain ⟨magnitude,canonical,same,most⟩ := within
  exact ⟨magnitude,canonical,same,most.trans more⟩

theorem zero (nonneg : 0 ≤ x) : IsWithin x 0 :=
  ⟨none,isCanonical_none,double_none.symm,number_none.le.trans nonneg⟩

theorem mul (first : IsWithin x value) (second : IsWithin y other) (canonical : bound.IsCanonical)
    (fits : x * y ≤ bound.number) : IsWithin bound.number (value * other) := by
  obtain ⟨left,isCanonical,rfl,most⟩ := first
  obtain ⟨right,isCanonical',rfl,most'⟩ := second
  have exact : left.number * right.number ≤ bound.number :=
    (mul_le_mul most most' right.number_nonneg (left.number_nonneg.trans most)).trans fits
  obtain ⟨product,isProduct,covers,same⟩ :=
    exists_mul isCanonical isCanonical' (exact.trans_lt (number_lt_overflow canonical))
  exact ⟨product,isProduct,same,number_le_of_covers isProduct covers canonical exact⟩

theorem div (within : IsWithin x value) (isDivisor : divisor.IsCanonical) (some : 0 < divisor.mantissa)
    (canonical : bound.IsCanonical) (fits : x / divisor.number ≤ bound.number) :
    IsWithin bound.number (value / divisor.double) := by
  obtain ⟨magnitude,isCanonical,rfl,most⟩ := within
  have exact : magnitude.number / divisor.number ≤ bound.number :=
    (div_le_div_of_nonneg_right most divisor.number_nonneg).trans fits
  obtain ⟨quotient,isQuotient,covers,same⟩ :=
    exists_div isCanonical isDivisor some (exact.trans_lt (number_lt_overflow canonical))
  exact ⟨quotient,isQuotient,same,number_le_of_covers isQuotient covers canonical exact⟩

end IsWithin

section Parts

variable {value : Float}

theorem eq_signed {magnitude : Binary} (sort : kind value = .finite magnitude) :
    magnitude.IsCanonical ∧ value = signed (isNegative value) magnitude.double := by
  obtain ⟨canonical,bits⟩ := isCanonical_of_kind sort
  refine ⟨canonical,?_⟩
  unfold double
  rw [bits]
  exact (signed_magnitudeBits (by rw [sort]; exact Kind.noConfusion)).symm

def signOf (value : Float) : Sign := if isNegative value then .negative else .positive

private theorem toBits_eq_signed (value : Float) : ∃ exponent fraction,
    value.toBits.toBitVec = packed (signOf value) exponent fraction ∧
      value.toModel.unpack = ofParts (signOf value) exponent fraction := by
  obtain ⟨sign,exponent,fraction,parts,unpacks⟩ := toBits_eq_packed value
  have own : signOf value = sign := by
    have bits := toBits_eq value parts
    have fits := exponent.isLt
    have fits' := fraction.isLt
    unfold signOf
    rw [isNegative_eq,bits]
    cases sign with
    | positive =>
      have bit : (Sign.toBitVec .positive).toNat = 0 := rfl
      exact if_neg (by simp only [decide_eq_true_eq]; omega)
    | negative =>
      have bit : (Sign.toBitVec .negative).toNat = 1 := rfl
      exact if_pos (by simp only [decide_eq_true_eq]; omega)
  rw [own]
  exact ⟨exponent,fraction,parts,unpacks⟩

theorem ofParts_cases (sign : Sign) (exponent : BitVec 11) (fraction : BitVec 52) :
    (exponent = -1#11 ∧ fraction ≠ 0#52) ∧ ofParts sign exponent fraction = .notANumber ∨
      ofParts sign exponent fraction = .infinity sign ∨ ofParts sign exponent fraction = .zero sign ∨
        ∃ mantissa exponent' positive, ofParts sign exponent fraction = .finite sign mantissa exponent' positive := by
  have unpacks := unpacks_ofParts sign exponent fraction
  generalize ofParts sign exponent fraction = parts at unpacks ⊢
  cases unpacks with
  | infinite => exact .inr (.inl rfl)
  | nan special some => exact .inl ⟨⟨special,some⟩,rfl⟩
  | zero => exact .inr (.inr (.inl rfl))
  | subnormal _ some | normal _ _ some => exact .inr (.inr (.inr ⟨_,_,some,rfl⟩))

private theorem unpack_cases (value : Float) : value.toModel.unpack = .notANumber ∨
    value.toModel.unpack = .infinity (signOf value) ∨ value.toModel.unpack = .zero (signOf value) ∨
      ∃ mantissa exponent positive, value.toModel.unpack = .finite (signOf value) mantissa exponent positive := by
  obtain ⟨exponent,fraction,_,unpacks⟩ := toBits_eq_signed value
  rw [unpacks]
  exact (ofParts_cases _ exponent fraction).imp_left And.right

private theorem unpack_of_infinite (sort : kind value = .infinite) :
    value.toModel.unpack = .infinity (signOf value) := by
  obtain ⟨exponent,fraction,parts,unpacks⟩ := toBits_eq_signed value
  have bits := toBits_eq value parts
  have bit := (signOf value).toBitVec.isLt
  have fits := exponent.isLt
  have fits' := fraction.isLt
  rw [kind_eq,magnitudeBits] at sort
  split_ifs at sort with top none
  have special : exponent = -1#11 := BitVec.eq_of_toNat_eq (by change exponent.toNat = 2047; omega)
  have empty : fraction = 0#52 := BitVec.eq_of_toNat_eq (by change fraction.toNat = 0; omega)
  rw [unpacks,special,empty]
  cases signOf value <;> rfl

end Parts

section Order

variable {value other : Float} {limit : Binary}

theorem lt_iff_unpack : value < other ↔ value.toModel.unpack.lt other.toModel.unpack = true := decide_eq_true_iff

theorem isNaN_eq (value : Float) : value.isNaN = value.toModel.unpack.isNaN := rfl

private theorem number_le_of_lt {magnitude : Binary} (canonical : magnitude.IsCanonical)
    (canonical' : limit.IsCanonical) (less : magnitude.double < limit.double) : magnitude.number ≤ limit.number := by
  have parts : magnitude.double < limit.double ↔
    magnitude.double.toModel.unpack.lt limit.double.toModel.unpack = true := decide_eq_true_iff
  rw [parts,unpack_double canonical,unpack_double canonical'] at less
  rcases Nat.eq_zero_or_pos magnitude.mantissa with zero | some
  · rw [eq_none canonical zero,number_none]
    exact limit.number_nonneg
  rcases Nat.eq_zero_or_pos limit.mantissa with zero | some'
  · rw [unpacked_pos some,eq_none canonical' zero] at less
    cases less
  rw [unpacked_pos some,unpacked_pos some'] at less
  have order : (compare magnitude.exponent limit.exponent).then (compare magnitude.mantissa limit.mantissa) = .lt :=
    Option.some.inj (beq_iff_eq.mp less)
  refine (number_lt canonical canonical' ?_).le
  obtain ⟨_,_,fits,full,_⟩ := canonical
  obtain ⟨_,_,fits',full',_⟩ := canonical'
  unfold bits
  rcases Ordering.then_eq_lt.mp order with below | ⟨same,below⟩
  · have below := Int.compare_eq_lt.mp below
    omega
  · have same := Int.compare_eq_eq.mp same
    have below := Nat.compare_eq_lt.mp below
    omega

private theorem greater_of_isNegative (negative : isNegative value = true) : greater value 0 = 0 := by
  have zero : (0 : Float).toModel.unpack = .zero .positive := rfl
  have same : (value == 0) = value.toModel.unpack.beq (.zero .positive) := rfl
  have sign : signOf value = .negative := if_pos negative
  have least : (value.isNaN || decide (value < 0) || (value == 0 && isNegative value)) = true := by
    have cases := unpack_cases value
    rw [sign] at cases
    rw [isNaN_eq,same,negative,Bool.decide_congr lt_iff_unpack,zero]
    rcases cases with parts | parts | parts | ⟨_,_,_,parts⟩ <;> rw [parts] <;> rfl
  unfold greater
  rw [if_pos (by simpa using least)]

private theorem isNegative_of_lt (less : value < other) (negative : isNegative other = true) :
    isNegative value = true := by
  by_contra positive
  have sign : signOf value = .positive := if_neg positive
  have sign' : signOf other = .negative := if_pos negative
  have parts := unpack_cases value
  have parts' := unpack_cases other
  rw [sign] at parts
  rw [sign'] at parts'
  rw [lt_iff_unpack] at less
  rcases parts with parts | parts | parts | ⟨_,_,_,parts⟩ <;>
    rcases parts' with parts' | parts' | parts' | ⟨_,_,_,parts'⟩ <;>
    · rw [parts,parts'] at less
      cases less

def IsBelow (limit : Binary) (value : Float) : Prop := value = limit.double ∨ value < limit.double

theorem IsBelow.isWithin (canonical : limit.IsCanonical) (below : IsBelow limit value)
    (positive : isNegative value = false) : IsWithin limit.number value := by
  rcases below with rfl | less
  · exact ⟨limit,canonical,rfl,le_rfl⟩
  cases sort : kind value with
  | nan =>
    rw [eq_nan sort,lt_iff_unpack] at less
    exact absurd less Bool.false_ne_true
  | infinite =>
    have sign : signOf value = .positive := if_neg (by simp [positive])
    rw [lt_iff_unpack,unpack_of_infinite sort,sign,unpack_double canonical] at less
    rcases limit.unpacked_cases with parts | ⟨_,parts⟩ <;>
      · rw [parts] at less
        cases less
  | finite magnitude =>
    obtain ⟨isCanonical,same⟩ := eq_signed sort
    rw [positive] at same
    obtain rfl : value = magnitude.double := same
    exact ⟨magnitude,isCanonical,rfl,number_le_of_lt isCanonical canonical less⟩

theorem IsBelow.isNaN (canonical : limit.IsCanonical) (below : IsBelow limit value) : value.isNaN = false := by
  rw [isNaN_eq]
  rcases below with rfl | less
  · rw [unpack_double canonical]
    rcases limit.unpacked_cases with parts | ⟨_,parts⟩ <;>
      · rw [parts]
        rfl
  · rw [lt_iff_unpack] at less
    cases parts : value.toModel.unpack with
    | notANumber =>
      rw [parts] at less
      cases less
    | _ => rfl

theorem isWithin_greater (canonical : limit.IsCanonical) (below : IsBelow limit value) :
    IsWithin limit.number (greater value 0) := by
  cases sign : isNegative value with
  | true =>
    rw [greater_of_isNegative sign]
    exact .zero limit.number_nonneg
  | false =>
    unfold greater
    split_ifs
    · exact .zero limit.number_nonneg
    · exact below.isWithin canonical sign

theorem isBelow_lesser (canonical : limit.IsCanonical) (below : IsBelow limit value) (other : Float) :
    lesser value other = value ∨ lesser value other < value := by
  unfold lesser
  rw [below.isNaN canonical]
  split_ifs with less
  · exact .inr (by simpa using less)
  · exact .inl rfl

theorem isWithin_greater_lesser (canonical : limit.IsCanonical) (below : IsBelow limit value) (other : Float) :
    IsWithin limit.number (greater (lesser value other) 0) := by
  rcases isBelow_lesser canonical below other with same | less
  · rw [same]
    exact isWithin_greater canonical below
  cases sign : isNegative value with
  | true =>
    rw [greater_of_isNegative (isNegative_of_lt less sign)]
    exact .zero limit.number_nonneg
  | false =>
    obtain ⟨magnitude,isCanonical,rfl,most⟩ := below.isWithin canonical sign
    exact (isWithin_greater isCanonical (.inr less)).mono most

end Order

private theorem magnitudeBits_pack_neg (parts : UnpackedFloat) :
    magnitudeBits ⟨.pack parts.neg⟩ = magnitudeBits ⟨.pack parts⟩ := by
  have sameBits (sign : Sign) (exponent : BitVec 11) (fraction : BitVec 52) :
      (packed (-sign) exponent fraction).toNat % 2 ^ 63 = (packed sign exponent fraction).toNat % 2 ^ 63 := by
    have fits := exponent.isLt
    have fits' := fraction.isLt
    rw [toNat_packed,toNat_packed]
    omega
  change (UnpackedFloat.pack Format.binary64 parts.neg).toNat % 2 ^ 63 =
    (UnpackedFloat.pack Format.binary64 parts).toNat % 2 ^ 63
  cases parts with
  | notANumber => rfl
  | infinity sign => exact sameBits sign _ _
  | zero sign => exact sameBits sign _ _
  | finite sign mantissa exponent positive =>
    change (UnpackedFloat.pack Format.binary64 (.finite (-sign) mantissa exponent positive)).toNat % 2 ^ 63 = _
    rw [pack_finite,pack_finite]
    split_ifs <;> exact sameBits sign _ _

private theorem round_neg (sign : Sign) (mantissa : Nat) (exponent : ℤ) (accuracy : Accuracy) :
    roundWithAccuracy Format.binary64 (-sign) mantissa exponent accuracy =
      (roundWithAccuracy Format.binary64 sign mantissa exponent accuracy).neg := by
  unfold roundWithAccuracy
  dsimp only
  refine Eq.symm ((apply_dite UnpackedFloat.neg _ _ _).trans ?_)
  rfl

private theorem neg_mul (left right : UnpackedFloat) :
    UnpackedFloat.mul Format.binary64 left.neg right = (UnpackedFloat.mul Format.binary64 left right).neg := by
  have signs (sign sign' : Sign) : -sign * sign' = -(sign * sign') := by cases sign <;> cases sign' <;> rfl
  have signed (sign sign' : Sign) (parts : Sign → UnpackedFloat) : parts (-sign * sign') = parts (-(sign * sign')) :=
    congrArg parts (signs sign sign')
  cases left <;> cases right
  case finite.finite => exact (signed _ _ fun sign => roundWithAccuracy _ sign _ _ _).trans (round_neg ..)
  all_goals first | rfl | exact signed _ _ .infinity | exact signed _ _ .zero

private theorem unpack_neg {value : Float} (number : kind value ≠ .nan) :
    (-value).toModel.unpack = value.toModel.unpack.neg := by
  obtain ⟨sign,exponent,fraction,parts,unpacks⟩ := toBits_eq_packed value
  have valid := (isNumber_iff value).mpr number
  rw [toBits_eq value parts,← toNat_packed,isNumber_packed] at valid
  change UnpackedFloat.unpack Format.binary64 (UnpackedFloat.pack Format.binary64 value.toModel.unpack.neg) = _
  rw [unpacks,neg_ofParts,if_neg valid,pack_ofParts _ valid]
  rfl

section Products

variable {value other : Float}

theorem mul_eq_pack (value other : Float) : value * other =
    ⟨.pack (UnpackedFloat.mul Format.binary64 value.toModel.unpack other.toModel.unpack)⟩ := rfl

theorem isFinite_mul {magnitude bound : Binary} {x : ℚ} (sort : kind value = .finite magnitude)
    (within : IsWithin x other) (canonical : bound.IsCanonical) (fits : magnitude.number * x ≤ bound.number) :
    IsFinite (value * other) := by
  obtain ⟨isCanonical,same⟩ := eq_signed sort
  have positive : IsFinite (magnitude.double * other) :=
    (IsWithin.mul ⟨magnitude,isCanonical,rfl,le_rfl⟩ within canonical fits).isFinite
  cases sign : isNegative value with
  | false =>
    rw [sign] at same
    rw [same]
    exact positive
  | true =>
    rw [sign] at same
    obtain rfl : value = -magnitude.double := same
    have number : kind magnitude.double ≠ .nan := by
      rw [kind_double isCanonical]
      exact Kind.noConfusion
    have bits : magnitudeBits (-magnitude.double * other) = magnitudeBits (magnitude.double * other) := by
      rw [mul_eq_pack,unpack_neg number,neg_mul,magnitudeBits_pack_neg,mul_eq_pack]
    unfold IsFinite at *
    rw [kind_eq,bits,← kind_eq]
    exact positive

theorem not_isFinite_mul (infinite : ¬ IsFinite value) (other : Float) : ¬ IsFinite (value * other) := by
  have nan : ¬ IsFinite ⟨.pack .notANumber⟩ := by decide +kernel
  have unbounded (sign : Sign) : ¬ IsFinite ⟨.pack (.infinity sign)⟩ := by cases sign <;> decide +kernel
  rw [mul_eq_pack]
  cases sort : kind value with
  | nan =>
    rw [eq_nan sort]
    exact nan
  | infinite =>
    rw [unpack_of_infinite sort]
    cases other.toModel.unpack with
    | notANumber | zero => exact nan
    | infinity | finite => exact unbounded _
  | finite magnitude => exact absurd ⟨magnitude,sort⟩ infinite

end Products
theorem exists_whole {n : Nat} (fits : n < 2 ^ 53) :
    ∃ magnitude : Binary, magnitude.IsCanonical ∧ magnitude.number = n ∧ nearest n 1 = magnitude.double := by
  rcases Nat.eq_zero_or_pos n with rfl | some
  · exact ⟨none,isCanonical_none,by simp [number_none],by decide +kernel⟩
  · obtain ⟨magnitude,canonical,full,same⟩ := exists_exact some fits (Nat.zero_le 900)
    rw [pow_zero,mul_one] at same
    have covers := magnitude.covers_number
    rw [same] at covers
    exact ⟨magnitude,canonical,same,nearest_of_covers canonical (by omega) one_ne_zero (by simpa using covers)⟩

theorem mantissa_pos {magnitude : Binary} (positive : 0 < magnitude.number) : 0 < magnitude.mantissa := by
  refine Nat.pos_of_ne_zero fun zero => ?_
  simp [number,zero] at positive

end PinnedMap.Decimal
