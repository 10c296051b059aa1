import PinnedMap.Decimal.Form
import PinnedMap.Proofs.Decimal.Shortest

/-! A double is read back from the decimal that settings files have for it, and from its text in a style. -/
namespace PinnedMap.Decimal

theorem digitCount_spec {n : Nat} (nonzero : n ≠ 0) :
    10 ^ (digitCount n - 1) ≤ n ∧ n < 10 ^ digitCount n := by
  have some := Nat.length_toDigits_pos (b := 10) (n := n)
  unfold digitCount
  rw [if_neg nonzero]
  constructor
  · rcases (by omega : (Nat.toDigits 10 n).length = 1 ∨ 1 < (Nat.toDigits 10 n).length) with one | more
    · rw [one]
      exact Nat.pos_of_ne_zero nonzero
    · by_contra less
      have := (Nat.length_toDigits_le_iff (by simp) (by omega)).mpr (not_le.mp less)
      omega
  · exact (Nat.length_toDigits_le_iff (by simp) some).mp le_rfl

theorem digitCount_pos {n : Nat} (nonzero : n ≠ 0) : 0 < digitCount n := by
  unfold digitCount
  rw [if_neg nonzero]
  exact Nat.length_toDigits_pos

theorem scientific_between {digits : Nat} (nonzero : digits ≠ 0) (exponent : ℤ) :
    (10 : ℚ) ^ (digitCount digits + exponent - 1) ≤ digits * 10 ^ exponent ∧
      (digits : ℚ) * 10 ^ exponent < 10 ^ (digitCount digits + exponent) := by
  obtain ⟨low,high⟩ := digitCount_spec nonzero
  have low' : (10 : ℚ) ^ (digitCount digits - 1) ≤ digits := by exact_mod_cast low
  have high' : (digits : ℚ) < 10 ^ digitCount digits := by exact_mod_cast high
  have some := digitCount_pos nonzero
  constructor
  · have parts : (digitCount digits + exponent - 1 : ℤ) = (digitCount digits - 1 : ℕ) + exponent := by omega
    rw [parts,zpow_add₀ (by norm_num),zpow_natCast]
    gcongr
  · rw [zpow_add₀ (by norm_num),zpow_natCast]
    gcongr

theorem ten_zpow_lt_two_zpow : (10 : ℚ) ^ (-330 : ℤ) < 2 ^ (-1075 : ℤ) := by
  calc (10 : ℚ) ^ (-330 : ℤ) = (10 ^ (-10 : ℤ)) ^ 33 := by rw [← zpow_natCast,← zpow_mul]; rfl
    _ < (2 ^ (-33 : ℤ)) ^ 33 := pow_lt_pow_left₀ (by norm_num) (by norm_num) (by simp)
    _ = 2 ^ (-1089 : ℤ) := by rw [← zpow_natCast,← zpow_mul]; rfl
    _ < 2 ^ (-1075 : ℤ) := two_zpow_lt_iff.mpr (by simp)

theorem two_zpow_lt_ten_zpow : (2 : ℚ) ^ (1024 : ℤ) < 10 ^ (320 : ℤ) := by
  calc (2 : ℚ) ^ (1024 : ℤ) < 2 ^ (1056 : ℤ) := two_zpow_lt_iff.mpr (by simp)
    _ = (2 ^ (33 : ℤ)) ^ 32 := by rw [← zpow_natCast,← zpow_mul]; rfl
    _ < (10 ^ (10 : ℤ)) ^ 32 := pow_lt_pow_left₀ (by norm_num) (by positivity) (by simp)
    _ = 10 ^ (320 : ℤ) := by rw [← zpow_natCast,← zpow_mul]; rfl

theorem scientific_eq_ratio (digits : Nat) (exponent : ℤ) : (digits : ℚ) * 10 ^ exponent =
    (digits * Nat.pow 10 exponent.toNat : ℕ) / (Nat.pow 10 (-exponent).toNat : ℕ) := by
  rw [zpow_eq_div (by norm_num) exponent,mul_div_assoc']
  push_cast [Nat.pow_eq]
  rfl

theorem ofScientific_of_covers {value : Binary} (canonical : value.IsCanonical) (nonzero : 0 < value.mantissa)
    {digits : Nat} {exponent : ℤ} (covers : value.Covers (digits * 10 ^ exponent)) :
    ofScientific digits exponent = Float.ofBits (UInt64.ofNat value.bits) := by
  have above := (Binary.low_pos canonical nonzero).trans_le covers.low_le
  have something : digits ≠ 0 := by
    rintro rfl
    simp at above
  obtain ⟨least,most⟩ := scientific_between something exponent
  have notTooSmall : ¬ (digitCount digits : ℤ) + exponent < -330 := by
    intro small
    have tiny : (10 : ℚ) ^ (digitCount digits + exponent) ≤ 10 ^ (-330 : ℤ) :=
      zpow_le_zpow_right₀ (by norm_num) (by omega)
    have smallest := ten_zpow_lt_two_zpow.trans_le (Binary.low_ge canonical nonzero)
    linarith [covers.low_le]
  have notTooLarge : ¬ 320 < (digitCount digits : ℤ) + exponent := by
    intro large
    have huge : (10 : ℚ) ^ (320 : ℤ) ≤ 10 ^ (digitCount digits + exponent - 1) :=
      zpow_le_zpow_right₀ (by norm_num) (by omega)
    have largest := (Binary.high_lt_top canonical).trans two_zpow_lt_ten_zpow
    linarith [covers.le_high]
  rw [scientific_eq_ratio] at covers
  unfold ofScientific
  simp only [something,notTooSmall,notTooLarge,decide_false,Bool.or_self,if_false,Bool.false_eq_true]
  exact nearest_of_covers canonical nonzero (Nat.pow_pos (by simp)).ne' covers

theorem digitsValue_append (front back : List Char) :
    digitsValue (front ++ back) = 10 ^ back.length * digitsValue front + digitsValue back := by
  change Nat.ofDigitChars 10 (front ++ back) 0 = _
  rw [Nat.ofDigitChars_append,Nat.ofDigitChars_eq_ofDigitChars_zero]
  rfl

theorem digitsValue_toDigits (n : Nat) : digitsValue (Nat.toDigits 10 n) = n := Nat.ofDigitChars_ten_toDigits

theorem digitsValue_zeros (count : Nat) : digitsValue (List.replicate count '0') = 0 :=
  Nat.ofDigitChars_replicate_zero.trans (Nat.mul_zero _)

theorem toDigits_head {n : Nat} (nonzero : n ≠ 0) : ∃ c rest, Nat.toDigits 10 n = c :: rest ∧ c ≠ '0' := by
  induction n using Nat.strongRecOn with
  | ind n ih =>
    rw [Nat.toDigits_eq_if (by simp)]
    split_ifs with small
    · have heads : ∀ digit < 10, digit ≠ 0 → Nat.digitChar digit ≠ '0' := by simp
      exact ⟨n.digitChar,[],rfl,heads n small nonzero⟩
    · obtain ⟨c,rest,front,head⟩ := ih (n / 10) (by omega) (by omega)
      exact ⟨c,rest ++ [(n % 10).digitChar],by rw [front]; rfl,head⟩

structure IsPointed (whole fraction : List Char) : Prop where
  whole_digits : ∀ c ∈ whole, c.isDigit
  fraction_digits : ∀ c ∈ fraction, c.isDigit
  begins : whole = ['0'] ∨ ∃ c rest, whole = c :: rest ∧ c ≠ '0'
  continues : fraction ≠ []

namespace IsPointed

variable {digits : List Char} (isDigit : ∀ c ∈ digits, c.isDigit)

private theorem isDigit_zeros (count : Nat) : ∀ c ∈ List.replicate count '0', c.isDigit := by
  intro c member
  rw [(List.mem_replicate.mp member).2]
  rfl

include isDigit

private theorem filled (begins : ∃ c rest, digits = c :: rest ∧ c ≠ '0') (count : Nat) :
    IsPointed (digits ++ List.replicate count '0') ['0'] := by
  obtain ⟨c,rest,rfl,head⟩ := begins
  refine ⟨?_,by simp,.inr ⟨c,rest ++ List.replicate count '0',rfl,head⟩,by simp⟩
  exact fun d member => (List.mem_append.mp member).elim (isDigit d) (isDigit_zeros count d)

private theorem divided (begins : ∃ c rest, digits = c :: rest ∧ c ≠ '0') {point : Nat} (positive : 0 < point)
    (less : point < digits.length) : IsPointed (digits.take point) (digits.drop point) := by
  obtain ⟨c,rest,rfl,head⟩ := begins
  obtain ⟨taken,rfl⟩ := Nat.exists_eq_add_one.mpr positive
  refine ⟨?_,?_,.inr ⟨c,rest.take taken,rfl,head⟩,fun none => ?_⟩
  · exact fun d member => isDigit d (List.mem_of_mem_take member)
  · exact fun d member => isDigit d (List.mem_of_mem_drop member)
  · exact (List.drop_eq_nil_iff.mp none).not_gt less

private theorem led (something : digits ≠ []) (count : Nat) : IsPointed ['0'] (List.replicate count '0' ++ digits) := by
  refine ⟨by simp,?_,.inl rfl,by simp [something]⟩
  exact fun c member => (List.mem_append.mp member).elim (isDigit_zeros count c) (isDigit c)

end IsPointed

theorem positional_parts {n : Nat} (nonzero : n ≠ 0) (exponent : ℤ) : ∃ whole fraction,
    positional (Nat.toDigits 10 n) ((Nat.toDigits 10 n).length + exponent) true = whole ++ '.' :: fraction ∧
      IsPointed whole fraction ∧ digitsValue (whole ++ fraction) = n * 10 ^ (exponent + 1).toNat ∧
      (fraction.length : ℤ) = (exponent + 1).toNat - exponent := by
  have isDigit : ∀ c ∈ Nat.toDigits 10 n, c.isDigit := fun c member =>
    Nat.isDigit_of_mem_toDigits (by simp) (by simp) member
  have value := digitsValue_toDigits n
  have begins := toDigits_head nonzero
  have some : 0 < (Nat.toDigits 10 n).length := Nat.length_toDigits_pos
  have zero : digitsValue ['0'] = 0 := rfl
  generalize Nat.toDigits 10 n = digits at *
  unfold positional
  rw [if_pos rfl]
  split_ifs with whole mixed
  · have fill : ((digits.length + exponent).toNat - digits.length : ℕ) = exponent.toNat := by omega
    have power : (exponent + 1).toNat = exponent.toNat + 1 := by omega
    refine ⟨_,_,by rw [fill],.filled isDigit begins exponent.toNat,?_,?_⟩
    · rw [digitsValue_append,digitsValue_append,digitsValue_zeros,value,zero,power,List.length_replicate,
        List.length_singleton]
      ring
    · rw [List.length_singleton]
      omega
  · have power : (exponent + 1).toNat = 0 := by omega
    rw [power]
    refine ⟨_,_,rfl,.divided isDigit begins (by omega) (by omega),?_,?_⟩
    · rw [List.take_append_drop,value,pow_zero,Nat.mul_one]
    · rw [List.length_drop]
      omega
  · have power : (exponent + 1).toNat = 0 := by omega
    rw [power]
    refine ⟨['0'],_,rfl,.led isDigit (List.ne_nil_of_length_pos some) _,?_,?_⟩
    · rw [digitsValue_append,digitsValue_append,digitsValue_zeros,value,zero]
      simp
    · rw [List.length_append,List.length_replicate]
      omega

private theorem positional_spec {n : Nat} (nonzero : n ≠ 0) (exponent : ℤ) : ∃ whole fraction,
    positional (Nat.toDigits 10 n) ((Nat.toDigits 10 n).length + exponent) true = whole ++ '.' :: fraction ∧
      IsPointed whole fraction ∧
      (digitsValue (whole ++ fraction) : ℚ) * 10 ^ (0 - (fraction.length : ℤ)) = n * 10 ^ exponent := by
  obtain ⟨whole,fraction,shape,pointed,value,length⟩ := positional_parts nonzero exponent
  refine ⟨whole,fraction,shape,pointed,?_⟩
  have parts : exponent = (exponent + 1).toNat + (0 - (fraction.length : ℤ)) := by omega
  rw [value]
  conv_rhs => rw [parts,zpow_add₀ (by norm_num),zpow_natCast]
  push_cast
  ring

def withPoint (whole fraction : List Char) : List Char := whole ++ if fraction.isEmpty then [] else '.' :: fraction

private theorem positional_plain_spec {n : Nat} (nonzero : n ≠ 0) (exponent : ℤ) : ∃ whole fraction,
    positional (Nat.toDigits 10 n) ((Nat.toDigits 10 n).length + exponent) false = withPoint whole fraction ∧
      whole ≠ [] ∧ (∀ c ∈ whole, c.isDigit) ∧ (∀ c ∈ fraction, c.isDigit) ∧
      (digitsValue (whole ++ fraction) : ℚ) * 10 ^ (0 - (fraction.length : ℤ)) = n * 10 ^ exponent := by
  by_cases long : ((Nat.toDigits 10 n).length : ℤ) ≤ (Nat.toDigits 10 n).length + exponent
  · refine ⟨Nat.toDigits 10 n ++ List.replicate exponent.toNat '0',[],?_,?_,?_,nofun,?_⟩
    · have filled : (((Nat.toDigits 10 n).length + exponent).toNat - (Nat.toDigits 10 n).length : ℕ) =
          exponent.toNat := by omega
      unfold positional withPoint
      rw [if_pos long,filled]
      simp
    · simp
    · intro c member
      rcases List.mem_append.mp member with digit | zero
      · exact Nat.isDigit_of_mem_toDigits (by simp) (by simp) digit
      · exact IsPointed.isDigit_zeros _ c zero
    · have power : (10 : ℚ) ^ exponent = 10 ^ exponent.toNat := by
        rw [← zpow_natCast,Int.toNat_of_nonneg (by omega)]
      rw [List.append_nil,digitsValue_append,digitsValue_zeros,digitsValue_toDigits,power]
      simp
      ring
  -- Where the point stands among the digits, or before them, both forms have it.
  · obtain ⟨whole,fraction,shape,pointed,value⟩ := positional_spec nonzero exponent
    refine ⟨whole,fraction,?_,?_,pointed.whole_digits,pointed.fraction_digits,value⟩
    · have same : positional (Nat.toDigits 10 n) ((Nat.toDigits 10 n).length + exponent) false =
          positional (Nat.toDigits 10 n) ((Nat.toDigits 10 n).length + exponent) true := by
        unfold positional
        rw [if_neg long,if_neg long]
      rw [same,shape,withPoint,if_neg (by simpa using pointed.continues)]
    · rcases pointed.begins with rfl | ⟨_,_,rfl,_⟩ <;> simp

theorem kind_ofBits {value : Binary} (canonical : value.IsCanonical) :
    kind (Float.ofBits (UInt64.ofNat value.bits)) ≠ .infinite := by
  have small := Binary.bits_lt canonical
  rw [kind_eq,magnitudeBits,toBits_ofBits (Binary.isNumber_bits canonical),Binary.toNat_bits canonical,
    if_neg (by omega)]
  exact Kind.noConfusion

theorem bits_of_zero {value : Binary} (canonical : value.IsCanonical) (zero : value.mantissa = 0) : value.bits = 0 := by
  have finest := canonical.full.resolve_right (by omega)
  unfold Binary.bits
  rw [finest,zero]
  rfl

theorem digits_ne_zero_of_covers {value : Binary} (canonical : value.IsCanonical) (nonzero : 0 < value.mantissa)
    {decimal : Digits} (covers : value.Covers decimal.number) : decimal.digits ≠ 0 := by
  intro none
  have above := (Binary.low_pos canonical nonzero).trans_le covers.low_le
  simp [Digits.number,none] at above

private theorem finite_spec {value : Binary} (canonical : value.IsCanonical) : ∃ whole fraction,
    Form.settings.finite value = whole ++ '.' :: fraction ∧ IsPointed whole fraction ∧
      ofPoint whole fraction 0 = Float.ofBits (UInt64.ofNat value.bits) := by
  unfold Form.finite
  split_ifs with zero
  · refine ⟨['0'],['0'],rfl,⟨by simp,by simp,.inl rfl,by simp⟩,?_⟩
    rw [bits_of_zero canonical zero]
    rfl
  · have covers := value.covers_shortest (Nat.pos_of_ne_zero zero) .up
    have something := digits_ne_zero_of_covers canonical (Nat.pos_of_ne_zero zero) covers
    obtain ⟨whole,fraction,shape,pointed,same⟩ := positional_spec something (value.shortest .up).exponent
    refine ⟨whole,fraction,shape,pointed,?_⟩
    apply ofScientific_of_covers canonical (Nat.pos_of_ne_zero zero)
    rw [same]
    exact covers

theorem chars_settings (value : Float) :
    (kind value = .nan ∧ Form.settings.chars value = ['n','a','n'] ∧ value = 0 / 0) ∨
    (kind value = .infinite ∧ signed (isNegative value) infinity = value ∧
      Form.settings.chars value = (if isNegative value then ['-'] else []) ++ ['i','n','f']) ∨
    ∃ whole fraction, IsPointed whole fraction ∧ kind (ofPoint whole fraction 0) ≠ .infinite ∧
      signed (isNegative value) (ofPoint whole fraction 0) = value ∧
      Form.settings.chars value = (if isNegative value then ['-'] else []) ++ (whole ++ '.' :: fraction) := by
  cases sort : kind value with
  | nan =>
    left
    refine ⟨rfl,?_,eq_nan sort⟩
    unfold Form.chars
    rw [sort]
    rfl
  | infinite =>
    right; left
    have isNumber : kind value ≠ .nan := by
      rw [sort]
      exact Kind.noConfusion
    have bits : magnitudeBits value = 0x7FF0000000000000 := by
      have fits : magnitudeBits value < 2 ^ 63 := Nat.mod_lt _ (by simp)
      rw [kind_eq] at sort
      split_ifs at sort with top none
      omega
    refine ⟨rfl,?_,?_⟩
    · have same := signed_magnitudeBits isNumber
      rw [bits] at same
      exact same
    · unfold Form.chars
      rw [sort]
      rfl
  | finite magnitude =>
    right; right
    obtain ⟨canonical,bits⟩ := isCanonical_of_kind sort
    obtain ⟨whole,fraction,shape,pointed,reads⟩ := finite_spec canonical
    refine ⟨whole,fraction,pointed,?_,?_,?_⟩
    · rw [reads]
      exact kind_ofBits canonical
    · rw [reads,bits]
      exact signed_magnitudeBits (by rw [sort]; exact Kind.noConfusion)
    · unfold Form.chars
      rw [sort]
      exact congrArg _ shape

private theorem finite_plain_spec {value : Binary} (canonical : value.IsCanonical) : ∃ whole fraction,
    Form.plain.finite value = withPoint whole fraction ∧ whole ≠ [] ∧ (∀ c ∈ whole, c.isDigit) ∧
      (∀ c ∈ fraction, c.isDigit) ∧ ofPoint whole fraction 0 = Float.ofBits (UInt64.ofNat value.bits) := by
  unfold Form.finite
  split_ifs with zero
  · refine ⟨['0'],[],rfl,by simp,by simp,nofun,?_⟩
    rw [bits_of_zero canonical zero]
    rfl
  · have covers := value.covers_shortest (Nat.pos_of_ne_zero zero) .up
    have something := digits_ne_zero_of_covers canonical (Nat.pos_of_ne_zero zero) covers
    obtain ⟨whole,fraction,shape,some,digits,digits',same⟩ :=
      positional_plain_spec something (value.shortest .up).exponent
    refine ⟨whole,fraction,shape,some,digits,digits',?_⟩
    apply ofScientific_of_covers canonical (Nat.pos_of_ne_zero zero)
    rw [same]
    exact covers

/-- The text of a double in a style reads as the double, if it is a number. -/
theorem chars_plain (value : Float) :
    (kind value = .nan ∧ Form.plain.chars value = ['N','a','N']) ∨
    (kind value = .infinite ∧ Form.plain.chars value = (if isNegative value then ['-'] else []) ++ ['i','n','f']) ∨
    ∃ magnitude whole fraction, kind value = .finite magnitude ∧ whole ≠ [] ∧ (∀ c ∈ whole, c.isDigit) ∧
      (∀ c ∈ fraction, c.isDigit) ∧ signed (isNegative value) (ofPoint whole fraction 0) = value ∧
      Form.plain.chars value = (if isNegative value then ['-'] else []) ++ withPoint whole fraction := by
  unfold Form.chars
  cases sort : kind value with
  | nan => exact .inl ⟨rfl,rfl⟩
  | infinite => exact .inr (.inl ⟨rfl,rfl⟩)
  | finite magnitude =>
    obtain ⟨canonical,bits⟩ := isCanonical_of_kind sort
    obtain ⟨whole,fraction,shape,some,digits,digits',reads⟩ := finite_plain_spec canonical
    refine .inr (.inr ⟨magnitude,whole,fraction,rfl,some,digits,digits',?_,congrArg _ shape⟩)
    rw [reads,bits]
    exact signed_magnitudeBits (by rw [sort]; exact Kind.noConfusion)

end PinnedMap.Decimal
