import PinnedMap.Proofs.Decimal.Arithmetic

/-! What several roundings in a row come to: exact numbers stay exact, and the last result is no more doubles away than
there were roundings before it. -/
namespace PinnedMap.Decimal

open Binary

variable {steps steps' : Nat} {value other : Float} {x y : ℚ}

/-- A double of 53 bits that so many roundings have changed. -/
def Approximates (steps : Nat) (value : Float) (x : ℚ) : Prop :=
  ∃ magnitude : Binary, magnitude.IsCanonical ∧ 2 ^ 52 ≤ magnitude.mantissa ∧ Drifts steps magnitude.number x ∧
    value = magnitude.double

/-- A result that is rounded once more, after so many roundings of what it was computed from. -/
def Rounds (steps : Nat) (value : Float) (x : ℚ) : Prop :=
  ∃ (magnitude : Binary) (exact : ℚ), magnitude.IsCanonical ∧ magnitude.Covers exact ∧ Drifts steps exact x ∧
    value = magnitude.double

theorem one_le_drift : 1 ≤ drift := by norm_num [drift]

theorem exists_exact {m shift : Nat} (some : 0 < m) (fits : m < 2 ^ 53) (small : shift ≤ 900) :
    ∃ value : Binary, value.IsCanonical ∧ 2 ^ 52 ≤ value.mantissa ∧ value.number = m * 2 ^ shift := by
  have short : m.log2 ≤ 52 := Nat.lt_succ_iff.mp ((Nat.log2_lt some.ne').mpr fits)
  obtain ⟨fill,isFill⟩ : ∃ fill, fill = 52 - m.log2 := ⟨_,rfl⟩
  have low : 2 ^ 52 ≤ m * 2 ^ fill := by
    calc 2 ^ 52 = 2 ^ m.log2 * 2 ^ fill := by rw [← pow_add]; congr 1; omega
      _ ≤ m * 2 ^ fill := Nat.mul_le_mul_right _ (Nat.log2_self_le some.ne')
  have high : m * 2 ^ fill < 2 ^ 53 := by
    calc m * 2 ^ fill < 2 ^ (m.log2 + 1) * 2 ^ fill := Nat.mul_lt_mul_of_pos_right Nat.lt_log2_self (by positivity)
      _ = 2 ^ 53 := by rw [← pow_add]; congr 1; omega
  refine ⟨⟨m * 2 ^ fill,(shift : ℤ) - fill,decide (m * 2 ^ fill = 2 ^ 52)⟩,
    ⟨by dsimp only; omega,by dsimp only; omega,high,.inr low,?_⟩,low,?_⟩
  · dsimp only
    rw [decide_eq_true_eq]
    omega
  · rw [number,zpow_sub₀ (by norm_num),zpow_natCast,zpow_natCast]
    push_cast
    field_simp

theorem approximates_exact (m shift : Nat) (some : 0 < m) (fits : m < 2 ^ 53) (small : shift ≤ 900) :
    Approximates 0 (nearest (m * 2 ^ shift) 1) (m * 2 ^ shift : ℕ) := by
  obtain ⟨value,canonical,full,same⟩ := exists_exact some fits small
  have covers := value.covers_number
  have exact : value.number = (m * 2 ^ shift : ℕ) := by
    rw [same]
    push_cast
    rfl
  rw [exact] at covers
  refine ⟨value,canonical,full,exact ▸ Drifts.refl _,nearest_of_covers canonical (by omega) (by simp) ?_⟩
  rwa [Nat.cast_one,div_one]

theorem approximates_natural_exact {n : Nat} (some : 0 < n) (fits : n ≤ 2 ^ 53) : Approximates 0 (nearest n 1) n := by
  rcases fits.lt_or_eq with less | rfl
  · have exact := approximates_exact n 0 some less (by simp)
    rwa [pow_zero,Nat.mul_one] at exact
  · have exact := approximates_exact 1 53 (by simp) (by simp) (by simp)
    rwa [Nat.one_mul] at exact

theorem lt_overflow_of_lt (less : x < 2 ^ 200) : x < overflow := by
  have power : (2 : ℚ) ^ 200 ≤ 2 ^ (971 : ℤ) := by
    rw [← zpow_natCast]
    exact two_zpow_le_iff.mpr (by simp)
  have factor : (2 : ℚ) ^ (971 : ℤ) ≤ overflow := le_mul_of_one_le_left (by positivity) (by norm_num)
  exact less.trans_le (power.trans factor)

theorem rounds_nearest {n : Nat} (some : 0 < n) (finite : (n : ℚ) < overflow) : Rounds 0 (nearest n 1) n := by
  have ratio : (n : ℚ) = n / (1 : ℕ) := by rw [Nat.cast_one,div_one]
  rw [ratio] at finite
  obtain ⟨magnitude,canonical,covers,same⟩ := nearest_covers some.ne' one_ne_zero finite
  rw [← ratio] at covers
  exact ⟨magnitude,n,canonical,covers,.refl _,same⟩

/-- Numbers that are not too small keep 53 bits. -/
theorem Rounds.approximates (rounds : Rounds steps value x) (large : 2 ^ (-1022 : ℤ) * drift ^ steps ≤ x) :
    Approximates (steps + 1) value x := by
  obtain ⟨magnitude,exact,canonical,covers,drifts,same⟩ := rounds
  have factor := pow_pos drift_pos steps
  have large' : 2 ^ (-1022 : ℤ) ≤ exact := le_of_mul_le_mul_right (large.trans drifts.ge) factor
  have close := (covers.drifts canonical large').trans drifts
  rw [Nat.add_comm] at close
  exact ⟨magnitude,canonical,full_of_le canonical covers large',close,same⟩

theorem Approximates.mul (approximates : Approximates steps value x) (approximates' : Approximates steps' other y)
    (positive : 0 < x) (positive' : 0 < y) (finite : x * y * drift ^ (steps + steps') < overflow) :
    Rounds (steps + steps') (value * other) (x * y) := by
  obtain ⟨left,canonical,full,drifts,rfl⟩ := approximates
  obtain ⟨right,canonical',full',drifts',rfl⟩ := approximates'
  have drifts := drifts.mul drifts' (number_pos (by omega)) (number_pos (by omega)) positive positive'
  obtain ⟨product,isCanonical,covers,same⟩ :=
    mul_double canonical canonical' (by omega) (by omega) (drifts.le.trans_lt finite)
  exact ⟨product,_,isCanonical,covers,drifts,same⟩

theorem Approximates.div (approximates : Approximates steps value x) (approximates' : Approximates steps' other y)
    (positive : 0 < x) (positive' : 0 < y) (finite : x / y * drift ^ (steps + steps') < overflow) :
    Rounds (steps + steps') (value / other) (x / y) := by
  obtain ⟨left,canonical,full,drifts,rfl⟩ := approximates
  obtain ⟨right,canonical',full',drifts',rfl⟩ := approximates'
  have drifts := drifts.div drifts' (number_pos (by omega)) (number_pos (by omega)) positive positive'
  obtain ⟨quotient,isCanonical,covers,same⟩ :=
    div_double canonical canonical' (by omega) (by omega) (drifts.le.trans_lt finite)
  exact ⟨quotient,_,isCanonical,covers,drifts,same⟩

/-- A finite double of the same sign, so many doubles away at most. -/
structure IsNear (steps : Nat) (value other : Float) : Prop where
  finite : magnitudeBits other < 0x7FF0000000000000
  sign : isNegative other = isNegative value
  above : magnitudeBits other ≤ magnitudeBits value + steps
  below : magnitudeBits value ≤ magnitudeBits other + steps

instance (steps : Nat) (value other : Float) : Decidable (IsNear steps value other) :=
  decidable_of_iff (magnitudeBits other < 0x7FF0000000000000 ∧ isNegative other = isNegative value ∧
      magnitudeBits other ≤ magnitudeBits value + steps ∧ magnitudeBits value ≤ magnitudeBits other + steps)
    ⟨fun parts => ⟨parts.1,parts.2.1,parts.2.2.1,parts.2.2.2⟩,
      fun near => ⟨near.finite,near.sign,near.above,near.below⟩⟩

theorem IsNear.mono (near : IsNear steps value other) (more : steps ≤ steps') : IsNear steps' value other :=
  ⟨near.finite,near.sign,near.above.trans (by omega),near.below.trans (by omega)⟩

theorem magnitudeBits_double {magnitude : Binary} (canonical : magnitude.IsCanonical) :
    magnitudeBits magnitude.double = magnitude.bits := by
  have small := bits_lt canonical
  rw [magnitudeBits,toBits_ofBits (isNumber_bits canonical),toNat_bits canonical]
  omega

private theorem isNegative_double {magnitude : Binary} (canonical : magnitude.IsCanonical) :
    isNegative magnitude.double = false := by
  have small := bits_lt canonical
  rw [isNegative_eq,toBits_ofBits (isNumber_bits canonical),toNat_bits canonical,decide_eq_false_iff_not]
  omega

theorem Rounds.isNear {magnitude : Binary} (canonical : magnitude.IsCanonical) (covers : magnitude.Covers x)
    (rounds : Rounds (steps + 1) value x) : IsNear (steps + 1) magnitude.double value := by
  obtain ⟨result,exact,canonical',covers',drifts,rfl⟩ := rounds
  have above := bits_le_of_drifts canonical covers canonical' covers' drifts
  have below := bits_le_of_drifts canonical' covers' canonical covers drifts.symm
  constructor
  · rw [magnitudeBits_double canonical']
    exact bits_lt canonical'
  · rw [isNegative_double canonical,isNegative_double canonical']
  · rw [magnitudeBits_double canonical,magnitudeBits_double canonical']
    exact above
  · rw [magnitudeBits_double canonical,magnitudeBits_double canonical']
    exact below

theorem Rounds.eq_double {magnitude : Binary} (canonical : magnitude.IsCanonical) (covers : magnitude.Covers x)
    (rounds : Rounds 0 value x) : value = magnitude.double := by
  obtain ⟨result,exact,canonical',covers',drifts,rfl⟩ := rounds
  have same : exact = x := le_antisymm (by simpa using drifts.le) (by simpa using drifts.ge)
  rw [same] at covers'
  unfold double
  rw [bits_eq_of_covers canonical covers canonical' covers']

private theorem magnitudeBits_signed {minus : Bool} (number : IsNumber value.toBits.toNat) :
    magnitudeBits (signed minus value) = magnitudeBits value := by
  unfold signed magnitudeBits
  split_ifs
  · rw [toBits_neg number]
    omega
  · rfl

private theorem isNegative_signed {minus : Bool} (number : IsNumber value.toBits.toNat)
    (positive : isNegative value = false) : isNegative (signed minus value) = minus := by
  unfold signed
  cases minus with
  | false => exact positive
  | true =>
    have fits := value.toBits.toNat_lt
    rw [isNegative_eq,decide_eq_false_iff_not] at positive
    rw [if_pos rfl,isNegative_eq,toBits_neg number,decide_eq_true_eq]
    omega

theorem IsNear.signed {magnitude : Binary} (canonical : magnitude.IsCanonical)
    (near : IsNear steps magnitude.double value) (minus : Bool) : IsNear steps (signed minus magnitude.double) (signed minus value) := by
  obtain ⟨finite,sign,above,below⟩ := near
  have number : IsNumber value.toBits.toNat := by
    unfold magnitudeBits at finite
    unfold IsNumber
    omega
  have number' : IsNumber magnitude.double.toBits.toNat := by
    rw [toBits_ofBits (isNumber_bits canonical)]
    exact isNumber_bits canonical
  have positive := isNegative_double canonical
  constructor
  · rwa [magnitudeBits_signed number]
  · rw [isNegative_signed number (sign.trans positive),isNegative_signed number' positive]
  · rwa [magnitudeBits_signed number,magnitudeBits_signed number']
  · rwa [magnitudeBits_signed number,magnitudeBits_signed number']

end PinnedMap.Decimal
