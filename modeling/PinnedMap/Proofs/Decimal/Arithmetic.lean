import PinnedMap.Proofs.Decimal.Rounding

/-! Products and quotients of doubles: the exact result, rounded once. -/
namespace PinnedMap.Decimal

open Float.Model Float.Model.UnpackedFloat

def StandsFor (extended : ExtendedMantissa) (x : ℚ) : Prop :=
  ∃ rest : ℚ, 0 ≤ rest ∧ rest < 1 / 2 ∧ (extended.stickyBit = true ↔ rest ≠ 0) ∧
    x = extended.mantissa + (if extended.roundBit then 1 / 2 else 0) + rest

private theorem standsFor_exact (m : Nat) : StandsFor (.ofMantissaAndAccuracy m .exact) m :=
  ⟨0,le_rfl,by norm_num,by simp [ExtendedMantissa.ofMantissaAndAccuracy],
    by simp [ExtendedMantissa.ofMantissaAndAccuracy]⟩

private theorem standsFor_fraction (quotient : Nat) {left denominator : Nat} (below : left < denominator) :
    StandsFor (.ofMantissaAndAccuracy quotient (accuracyOfFraction left denominator))
      (quotient + left / denominator) := by
  have positive : (0 : ℚ) < denominator := by exact_mod_cast Nat.zero_lt_of_lt below
  unfold accuracyOfFraction
  split_ifs with none
  · rw [none]
    simpa using standsFor_exact quotient
  · have something : (0 : ℚ) < left := by exact_mod_cast Nat.pos_of_ne_zero none
    rcases lt_trichotomy (2 * left) denominator with less | same | more
    · have less' : (2 * left : ℚ) < denominator := by exact_mod_cast less
      rw [Nat.compare_eq_lt.mpr less]
      refine ⟨left / denominator,by positivity,?_,?_,?_⟩
      · rw [div_lt_iff₀ positive]
        linarith
      · simp [ExtendedMantissa.ofMantissaAndAccuracy,positive.ne',none]
      · simp [ExtendedMantissa.ofMantissaAndAccuracy]
    · have same' : (2 * left : ℚ) = denominator := by exact_mod_cast same
      rw [Nat.compare_eq_eq.mpr same]
      refine ⟨0,le_rfl,by norm_num,by simp [ExtendedMantissa.ofMantissaAndAccuracy],?_⟩
      have half : (left : ℚ) / denominator = 1 / 2 := by
        rw [← same']
        field_simp
      simp [ExtendedMantissa.ofMantissaAndAccuracy,half]
    · have more' : (denominator : ℚ) < 2 * left := by exact_mod_cast more
      have half : 1 / 2 < (left : ℚ) / denominator := by
        rw [lt_div_iff₀ positive]
        linarith
      have one : (left : ℚ) / denominator < 1 := by
        rw [div_lt_one positive]
        exact_mod_cast below
      rw [Nat.compare_eq_gt.mpr more]
      refine ⟨left / denominator - 1 / 2,by linarith,by linarith,?_,?_⟩
      · simp only [ExtendedMantissa.ofMantissaAndAccuracy,true_iff]
        linarith
      · simp only [ExtendedMantissa.ofMantissaAndAccuracy,if_true]
        ring

private theorem standsFor_quotient (numerator : Nat) {denominator : Nat} (positive : 0 < denominator) :
    StandsFor (.ofMantissaAndAccuracy (numerator / denominator)
      (accuracyOfFraction (numerator % denominator) denominator)) (numerator / denominator) := by
  have positive' : (denominator : ℚ) ≠ 0 := by exact_mod_cast positive.ne'
  have whole : (denominator : ℚ) * (numerator / denominator : ℕ) + (numerator % denominator : ℕ) = numerator := by
    exact_mod_cast Nat.div_add_mod numerator denominator
  have parts : (numerator : ℚ) / denominator =
      (numerator / denominator : ℕ) + (numerator % denominator : ℕ) / denominator := by
    conv_lhs => rw [← whole,add_div,mul_div_cancel_left₀ _ positive']
  rw [parts]
  exact standsFor_fraction _ (Nat.mod_lt numerator positive)

namespace StandsFor

variable {extended : ExtendedMantissa} {x : ℚ}

private theorem within {m : Nat} {accuracy : Accuracy} (stands : StandsFor (.ofMantissaAndAccuracy m accuracy) x) :
    m ≤ x ∧ x < m + 1 := by
  obtain ⟨rest,nonneg,small,_,rfl⟩ := stands
  have same : (ExtendedMantissa.ofMantissaAndAccuracy m accuracy).mantissa = m := by
    unfold ExtendedMantissa.ofMantissaAndAccuracy
    split <;> rfl
  rw [same]
  constructor <;> split_ifs <;> linarith

private theorem shiftRightOne (stands : StandsFor extended x) : StandsFor extended.shiftRightOne (x / 2) := by
  obtain ⟨rest,nonneg,small,sticky,rfl⟩ := stands
  obtain ⟨m,round,far⟩ := extended
  have halves : (m : ℚ) = 2 * (m / 2 : ℕ) + (m % 2 : ℕ) := by exact_mod_cast (Nat.div_add_mod m 2).symm
  refine ⟨(if round then 1 / 4 else 0) + rest / 2,?_,?_,?_,?_⟩
  · split_ifs <;> linarith
  · split_ifs <;> linarith
  · dsimp only [ExtendedMantissa.shiftRightOne] at sticky ⊢
    cases round with
    | true =>
      simp only [Bool.true_or,true_iff,if_true]
      linarith
    | false => simpa using sticky
  · dsimp only [ExtendedMantissa.shiftRightOne]
    rw [halves]
    rcases Nat.mod_two_eq_zero_or_one m with even | odd
    · simp only [even,bne_self_eq_false,Bool.false_eq_true,if_false]
      split_ifs <;> push_cast <;> ring
    · simp only [odd,show (1 != 0) = true from rfl,if_true]
      split_ifs <;> push_cast <;> ring

private theorem shiftRight (stands : StandsFor extended x) (count : Nat) :
    StandsFor (extended >>> count) (x / 2 ^ count) := by
  induction count with
  | zero =>
    rw [pow_zero,div_one]
    exact stands
  | succ count ih =>
    rw [pow_succ,← div_div]
    exact ih.shiftRightOne

private theorem isRounded (stands : StandsFor extended x) : IsRounded extended.roundedMantissa x := by
  obtain ⟨rest,nonneg,small,sticky,rfl⟩ := stands
  obtain ⟨m,round,far⟩ := extended
  dsimp only at sticky ⊢
  cases round with
  | false =>
    have down : ExtendedMantissa.roundedMantissa ⟨m,false,far⟩ = m := by cases far <;> rfl
    rw [down,if_neg (by simp)]
    exact ⟨.inl (by linarith),.inl (by linarith)⟩
  | true =>
    rw [if_pos rfl]
    cases far with
    | false =>
      have none : rest = 0 := by simpa using sticky
      have toEven : ExtendedMantissa.roundedMantissa ⟨m,true,false⟩ = m + m % 2 := rfl
      rw [toEven,none]
      rcases Nat.mod_two_eq_zero_or_one m with even | odd
      · rw [even]
        exact ⟨.inl (by push_cast; linarith),.inr ⟨even,by push_cast; ring⟩⟩
      · rw [odd]
        exact ⟨.inr ⟨by omega,by push_cast; ring⟩,.inl (by push_cast; linarith)⟩
    | true =>
      have some : 0 < rest := lt_of_le_of_ne nonneg (Ne.symm (sticky.mp rfl))
      have up : ExtendedMantissa.roundedMantissa ⟨m,true,true⟩ = m + 1 := rfl
      rw [up]
      exact ⟨.inl (by push_cast; linarith),.inl (by push_cast; linarith)⟩

end StandsFor

namespace Binary

def unpacked (value : Binary) : Float.Model.UnpackedFloat :=
  if some : 0 < value.mantissa then .finite .positive value.mantissa value.exponent some else .zero .positive

theorem unpacked_pos {value : Binary} (some : 0 < value.mantissa) :
    value.unpacked = .finite .positive value.mantissa value.exponent some := dif_pos some

private theorem unpacked_of_zero {value : Binary} (none : value.mantissa = 0) : value.unpacked = .zero .positive :=
  dif_neg none.not_gt

theorem unpacked_cases (value : Binary) : value.unpacked = .zero .positive ∨
    ∃ some : 0 < value.mantissa, value.unpacked = .finite .positive value.mantissa value.exponent some :=
  (Nat.eq_zero_or_pos value.mantissa).imp unpacked_of_zero fun some => ⟨some,unpacked_pos some⟩

private theorem targetExponent_eq (total : ℤ) : Format.binary64.targetExponent total = max (total - 53) (-1074) := rfl

private theorem shiftToTargetExponent_eq (m : Nat) (exponent : ℤ) (accuracy : Accuracy) :
    shiftToTargetExponent Format.binary64 m exponent accuracy =
      (ExtendedMantissa.ofMantissaAndAccuracy m accuracy >>> (max (m.log2 + exponent - 52) (-1074) - exponent).toNat,
        exponent + (max (m.log2 + exponent - 52) (-1074) - exponent).toNat) := by
  have target : Format.binary64.targetExponent (totalExponent m exponent) = max (m.log2 + exponent - 52) (-1074) := by
    rw [targetExponent_eq,totalExponent]
    omega
  unfold shiftToTargetExponent shiftToExponent
  rw [target]

theorem HasMantissa.shiftToTargetExponent {value : Binary} {grid : ℤ} {m : Nat} (has : value.HasMantissa grid m)
    (least : -1074 ≤ grid) : ∃ round sticky,
      shiftToTargetExponent Format.binary64 m grid .exact = (⟨value.mantissa,round,sticky⟩,value.exponent) := by
  rw [shiftToTargetExponent_eq]
  rcases has with ⟨fits,mantissa,exponent⟩ | ⟨carry,mantissa,exponent⟩
  · have short : m.log2 ≤ 52 := by
      rcases Nat.eq_zero_or_pos m with rfl | positive
      · simp
      · exact Nat.lt_succ_iff.mp ((Nat.log2_lt positive.ne').mpr fits)
    have stays : (max ((m.log2 : ℤ) + grid - 52) (-1074) - grid).toNat = 0 := by omega
    rw [stays,mantissa,exponent]
    exact ⟨_,_,by rw [Nat.cast_zero,add_zero]; rfl⟩
  · have long : m.log2 = 53 := by rw [carry,Nat.log2_two_pow]
    have shifts : (max ((m.log2 : ℤ) + grid - 52) (-1074) - grid).toNat = 1 := by omega
    rw [shifts,mantissa,exponent,carry]
    exact ⟨_,_,rfl⟩

private theorem grid_spec {m : Nat} {exponent : ℤ} {x : ℚ} (begins : m ≤ x) (ends : x < m + 1)
    (long : exponent ≤ -1074 ∨ 2 ^ 52 ≤ m) {grid : ℤ} (isGrid : grid = max (m.log2 + exponent - 52) (-1074)) :
    exponent ≤ grid ∧ x * 2 ^ exponent < 2 ^ (grid + 53) ∧ (grid = -1074 ∨ 2 ^ (grid + 52) ≤ x * 2 ^ exponent) := by
  have unit := two_zpow_pos exponent
  have enough : 2 ^ 52 ≤ m → 52 ≤ m.log2 := fun full => (Nat.le_log2 (by omega)).mpr full
  refine ⟨?_,?_,?_⟩
  · rcases long with small | full
    · omega
    · have := enough full
      omega
  · have size : (m : ℚ) + 1 ≤ 2 ^ ((m.log2 : ℤ) + 1) := by
      rw [← Nat.cast_succ m.log2,zpow_natCast]
      exact_mod_cast Nat.lt_log2_self
    calc x * 2 ^ exponent < 2 ^ ((m.log2 : ℤ) + 1) * 2 ^ exponent := by
          gcongr
          linarith
      _ = 2 ^ ((m.log2 : ℤ) + 1 + exponent) := (zpow_add₀ (by norm_num) _ _).symm
      _ ≤ 2 ^ (grid + 53) := two_zpow_le_iff.mpr (by omega)
  · rcases le_or_gt ((m.log2 : ℤ) + exponent - 52) (-1074) with finest | coarser
    · exact .inl (isGrid.trans (max_eq_right finest))
    · have something : m ≠ 0 := by
        rintro rfl
        simp at coarser
        omega
      have size : (2 : ℚ) ^ (m.log2 : ℤ) ≤ m := by
        rw [zpow_natCast]
        exact_mod_cast Nat.log2_self_le something
      right
      calc (2 : ℚ) ^ (grid + 52) = 2 ^ ((m.log2 : ℤ) + exponent) := by
            congr 1
            omega
        _ = 2 ^ (m.log2 : ℤ) * 2 ^ exponent := zpow_add₀ (by norm_num) _ _
        _ ≤ x * 2 ^ exponent := by
          gcongr
          linarith

private theorem roundWithAccuracy_eq {m : Nat} {exponent : ℤ} {accuracy : Accuracy} {x : ℚ}
    (stands : StandsFor (.ofMantissaAndAccuracy m accuracy) x) (long : exponent ≤ -1074 ∨ 2 ^ 52 ≤ m)
    (finite : x * 2 ^ exponent < overflow) :
    ∃ value : Binary, value.IsCanonical ∧ value.Covers (x * 2 ^ exponent) ∧
      roundWithAccuracy Format.binary64 .positive m exponent accuracy = value.unpacked := by
  obtain ⟨grid,isGrid⟩ : ∃ grid : ℤ, grid = max (m.log2 + exponent - 52) (-1074) := ⟨_,rfl⟩
  obtain ⟨shift,isShift⟩ : ∃ shift : Nat, shift = (grid - exponent).toNat := ⟨_,rfl⟩
  obtain ⟨begins,ends⟩ := stands.within
  obtain ⟨reaches,below,full⟩ := grid_spec begins ends long isGrid
  have rounded := (stands.shiftRight shift).isRounded
  have same : x / 2 ^ shift = x * 2 ^ exponent / 2 ^ grid := by
    have unit := two_zpow_pos exponent
    have parts : grid = exponent + (shift : ℤ) := by omega
    rw [parts,zpow_add₀ (by norm_num),zpow_natCast]
    field_simp
  rw [same] at rounded
  obtain ⟨value,canonical,covers,has⟩ := exists_covers (by omega) rounded below full finite
  refine ⟨value,canonical,covers,?_⟩
  obtain ⟨round,sticky,last⟩ := has.shiftToTargetExponent (by omega)
  unfold roundWithAccuracy
  rw [shiftToTargetExponent_eq,← isGrid,← isShift]
  have moved : exponent + shift = grid := by omega
  dsimp only
  rw [moved,last]
  by_cases none : value.mantissa = 0
  · exact (dif_pos none).trans (unpacked_of_zero none).symm
  · exact (dif_neg none).trans (unpacked_pos (Nat.pos_of_ne_zero none)).symm

variable {value other : Binary}

private theorem bits_eq_packed (canonical : value.IsCanonical) : (UInt64.ofNat value.bits).toBitVec =
    packed .positive (BitVec.ofNat 11 (value.bits / 2 ^ 52)) (BitVec.ofNat 52 (value.bits % 2 ^ 52)) := by
  have small := bits_lt canonical
  apply BitVec.eq_of_toNat_eq
  have sign : (Sign.toBitVec .positive).toNat = 0 := rfl
  rw [toNat_packed,sign,BitVec.toNat_ofNat,BitVec.toNat_ofNat]
  change (UInt64.ofNat value.bits).toNat = _
  rw [toNat_bits canonical]
  omega

private theorem unpack_bits (canonical : value.IsCanonical) :
    UnpackedFloat.unpack Format.binary64 (UInt64.ofNat value.bits).toBitVec = value.unpacked := by
  have small := bits_lt canonical
  rw [bits_eq_packed canonical]
  obtain ⟨least,most,fits,full,_⟩ := canonical
  obtain ⟨field,isField⟩ : ∃ field, field = BitVec.ofNat 11 (value.bits / 2 ^ 52) := ⟨_,rfl⟩
  obtain ⟨fraction,isFraction⟩ : ∃ fraction, fraction = BitVec.ofNat 52 (value.bits % 2 ^ 52) := ⟨_,rfl⟩
  have fieldIs : field.toNat = value.bits / 2 ^ 52 := by
    rw [isField,BitVec.toNat_ofNat]
    omega
  have fractionIs : fraction.toNat = value.bits % 2 ^ 52 := by
    rw [isFraction,BitVec.toNat_ofNat]
    omega
  rw [← isField,← isFraction]
  unfold bits at small fieldIs fractionIs
  have notSpecial : field ≠ -1#11 := by
    intro special
    have top : field.toNat = 2047 := by rw [special]; rfl
    omega
  have isFinest : field = 0#11 ↔ value.mantissa < 2 ^ 52 := by
    rw [← BitVec.toNat_inj,fieldIs,BitVec.toNat_zero]
    omega
  change ofParts .positive field fraction = value.unpacked
  rcases Nat.eq_zero_or_pos value.mantissa with none | some
  · have empty : fraction = 0#52 := BitVec.eq_of_toNat_eq (by rw [fractionIs,BitVec.toNat_zero]; omega)
    rw [unpacked_of_zero none,(Unpacks.zero (isFinest.mpr (by omega)) empty).eq]
  · rw [unpacked_pos some]
    by_cases short : value.mantissa < 2 ^ 52
    · have finest := isFinest.mpr short
      rw [(Unpacks.subnormal finest (by omega)).eq]
      exact finite_eq _ _ rfl (by omega) (by omega)
    · rw [(Unpacks.normal notSpecial (mt isFinest.mp short) (by omega)).eq]
      exact finite_eq _ _ rfl (by omega) (by omega)

theorem double_eq (canonical : value.IsCanonical) : value.double = ⟨.pack value.unpacked⟩ := by
  rw [← unpack_bits canonical]
  rfl

theorem unpack_double (canonical : value.IsCanonical) : value.double.toModel.unpack = value.unpacked := by
  have parts : value.double.toModel.unpack =
    UnpackedFloat.unpack Format.binary64 value.double.toBits.toBitVec := rfl
  rw [parts,toBits_ofBits (isNumber_bits canonical),unpack_bits canonical]

theorem double_ne_zero (canonical : value.IsCanonical) (some : 0 < value.mantissa) : (value.double == 0) = false := by
  have zero : Float.toBits 0 = 0 := by decide +kernel
  have parts : (value.double == 0) = value.double.toModel.unpack.beq
    (UnpackedFloat.unpack Format.binary64 (Float.toBits 0).toBitVec) := rfl
  rw [parts,unpack_double canonical,unpacked_pos some,zero]
  rfl

private theorem product_long (canonical : value.IsCanonical) (canonical' : other.IsCanonical)
    (some : 0 < value.mantissa) (some' : 0 < other.mantissa) :
    value.exponent + other.exponent ≤ -1074 ∨ 2 ^ 52 ≤ value.mantissa * other.mantissa := by
  rcases canonical.full with finest | full
  · rcases canonical'.full with finest' | full'
    · left
      omega
    · exact .inr (full'.trans (Nat.le_mul_of_pos_left _ some))
  · exact .inr (full.trans (Nat.le_mul_of_pos_right _ some'))

theorem mul_double (canonical : value.IsCanonical) (canonical' : other.IsCanonical) (some : 0 < value.mantissa)
    (some' : 0 < other.mantissa) (finite : value.number * other.number < overflow) :
    ∃ product : Binary, product.IsCanonical ∧ product.Covers (value.number * other.number) ∧
      value.double * other.double = product.double := by
  have exact : value.number * other.number =
      (value.mantissa * other.mantissa : ℕ) * 2 ^ (value.exponent + other.exponent) := by
    rw [zpow_add₀ (by norm_num),number,number]
    push_cast
    ring
  rw [exact] at finite ⊢
  obtain ⟨product,isCanonical,covers,rounds⟩ := roundWithAccuracy_eq
    (standsFor_exact (value.mantissa * other.mantissa)) (product_long canonical canonical' some some') finite
  refine ⟨product,isCanonical,covers,?_⟩
  have parts : value.double * other.double =
    ⟨.pack (UnpackedFloat.mul Format.binary64 value.double.toModel.unpack other.double.toModel.unpack)⟩ := rfl
  rw [parts,unpack_double canonical,unpack_double canonical',unpacked_pos some,unpacked_pos some',
    double_eq isCanonical,← rounds]
  rfl

/-- The numerator is shifted until the quotient has 53 bits, or as far as the finest grid reaches. -/
theorem divCore_eq (some : 0 < value.mantissa) (some' : 0 < other.mantissa) : ∃ (numerator : Nat) (exponent : ℤ),
    divCore Format.binary64 value.mantissa value.exponent other.mantissa other.exponent =
      (numerator / other.mantissa,exponent,accuracyOfFraction (numerator % other.mantissa) other.mantissa) ∧
    (exponent ≤ -1074 ∨ 2 ^ 52 ≤ numerator / other.mantissa) ∧
    (numerator : ℚ) / other.mantissa * 2 ^ exponent = value.number / other.number := by
  obtain ⟨target,isTarget⟩ : ∃ target, target = min (value.exponent - other.exponent) (Format.binary64.targetExponent
      (totalExponent value.mantissa value.exponent - totalExponent other.mantissa other.exponent)) := ⟨_,rfl⟩
  obtain ⟨shift,isShift⟩ : ∃ shift, shift = (value.exponent - other.exponent - target).toNat := ⟨_,rfl⟩
  have core : divCore Format.binary64 value.mantissa value.exponent other.mantissa other.exponent =
      ((value.mantissa <<< shift) / other.mantissa,target,
        accuracyOfFraction ((value.mantissa <<< shift) % other.mantissa) other.mantissa) := by
    rw [isShift,isTarget]
    rfl
  rw [targetExponent_eq,totalExponent,totalExponent] at isTarget
  refine ⟨value.mantissa <<< shift,target,core,?_,?_⟩
  · by_cases finest : target ≤ -1074
    · exact .inl finest
    · right
      have enough : other.mantissa.log2 + 1 + 52 ≤ value.mantissa.log2 + shift := by omega
      rw [Nat.le_div_iff_mul_le some',Nat.shiftLeft_eq]
      calc 2 ^ 52 * other.mantissa ≤ 2 ^ 52 * 2 ^ (other.mantissa.log2 + 1) :=
            Nat.mul_le_mul_left _ Nat.lt_log2_self.le
        _ = 2 ^ (other.mantissa.log2 + 1 + 52) := by ring
        _ ≤ 2 ^ (value.mantissa.log2 + shift) := Nat.pow_le_pow_right (by simp) enough
        _ = 2 ^ value.mantissa.log2 * 2 ^ shift := pow_add _ _ _
        _ ≤ value.mantissa * 2 ^ shift := Nat.mul_le_mul_right _ (Nat.log2_self_le some.ne')
  · have parts : value.exponent = shift + target + other.exponent := by omega
    have unit := two_zpow_pos other.exponent
    have divides : (0 : ℚ) < other.mantissa := by exact_mod_cast some'
    rw [number,number,parts,zpow_add₀ (by norm_num),zpow_add₀ (by norm_num),Nat.shiftLeft_eq,zpow_natCast]
    push_cast
    field_simp

theorem div_double (canonical : value.IsCanonical) (canonical' : other.IsCanonical)
    (some : 0 < value.mantissa) (some' : 0 < other.mantissa) (finite : value.number / other.number < overflow) :
    ∃ quotient : Binary, quotient.IsCanonical ∧ quotient.Covers (value.number / other.number) ∧
      value.double / other.double = quotient.double := by
  obtain ⟨numerator,exponent,core,long,exact⟩ := divCore_eq some some'
  rw [← exact] at finite ⊢
  obtain ⟨quotient,isCanonical,covers,rounds⟩ :=
    roundWithAccuracy_eq (standsFor_quotient numerator some') long finite
  refine ⟨quotient,isCanonical,covers,?_⟩
  have parts : value.double / other.double =
    ⟨.pack (UnpackedFloat.div Format.binary64 value.double.toModel.unpack other.double.toModel.unpack)⟩ := rfl
  have divides : UnpackedFloat.div Format.binary64 value.unpacked other.unpacked =
      match divCore Format.binary64 value.mantissa value.exponent other.mantissa other.exponent with
      | (mantissa,exponent,accuracy) => roundWithAccuracy Format.binary64 .positive mantissa exponent accuracy := by
    rw [unpacked_pos some,unpacked_pos some']
    rfl
  rw [parts,unpack_double canonical,unpack_double canonical',divides,core,double_eq isCanonical,← rounds]

end Binary
end PinnedMap.Decimal
