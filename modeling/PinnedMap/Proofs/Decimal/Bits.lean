import Mathlib.Tactic.NormNum
import Mathlib.Tactic.Ring
import PinnedMap.Decimal.Binary

/-! Doubles as their 64 bits: a sign, an exponent and a fraction. All bits but those of NaN come back from a double
as they are, and a change of sign changes the first of them. -/
namespace PinnedMap.Decimal

open Float.Model Float.Model.UnpackedFloat

theorem float_ext {left right : Float} (same : left.toBits = right.toBits) : left = right := by
  obtain ⟨⟨bits,_⟩⟩ := left
  obtain ⟨⟨bits',_⟩⟩ := right
  cases (same : bits = bits')
  rfl

abbrev packed (sign : Sign) (exponent : BitVec 11) (fraction : BitVec 52) : BitVec Format.binary64.numBits :=
  packComponents Format.binary64 sign exponent fraction

theorem toNat_packed (sign : Sign) (exponent : BitVec 11) (fraction : BitVec 52) :
    (packed sign exponent fraction).toNat =
    sign.toBitVec.toNat * 2 ^ 63 + exponent.toNat * 2 ^ 52 + fraction.toNat := by
  unfold packed packComponents
  rw [BitVec.toNat_append,BitVec.toNat_append,← Nat.shiftLeft_add_eq_or_of_lt exponent.isLt,
    ← Nat.shiftLeft_add_eq_or_of_lt fraction.isLt,Nat.shiftLeft_eq,Nat.shiftLeft_eq]
  ring

private theorem unpackSign_packed (sign : Sign) (exponent : BitVec 11) (fraction : BitVec 52) :
    Sign.ofBitVec (unpackSign (packed sign exponent fraction)) = sign := by
  have top :
      (unpackSign (packed sign exponent fraction)).toNat = (packed sign exponent fraction).toNat >>> 63 % 2 := rfl
  have fits := exponent.isLt
  have fits' := fraction.isLt
  rw [toNat_packed,Nat.shiftRight_eq_div_pow] at top
  have same : unpackSign (packed sign exponent fraction) = sign.toBitVec := by
    apply BitVec.eq_of_toNat_eq
    rw [top]
    have bit := sign.toBitVec.isLt
    omega
  rw [same]
  cases sign <;> rfl

private theorem exists_packed (bits : BitVec Format.binary64.numBits) :
    ∃ sign exponent fraction, bits = packed sign exponent fraction := by
  have fits : bits.toNat < 2 ^ 64 := bits.isLt
  refine ⟨if bits.toNat < 2 ^ 63 then .positive else .negative,BitVec.ofNat 11 (bits.toNat / 2 ^ 52),
    BitVec.ofNat 52 bits.toNat,BitVec.eq_of_toNat_eq ?_⟩
  rw [toNat_packed,BitVec.toNat_ofNat,BitVec.toNat_ofNat]
  split_ifs with below
  · have sign : (Sign.toBitVec .positive).toNat = 0 := rfl
    omega
  · have sign : (Sign.toBitVec .negative).toNat = 1 := rfl
    omega

def ofParts (sign : Sign) (exponent : BitVec 11) (fraction : BitVec 52) : Float.Model.UnpackedFloat :=
  UnpackedFloat.unpack Format.binary64 (packed sign exponent fraction)

/-- What a sign, an exponent and a fraction stand for. -/
inductive Unpacks (sign : Sign) (exponent : BitVec 11) (fraction : BitVec 52) : UnpackedFloat → Prop
  | infinite (special : exponent = -1#11) (none : fraction = 0#52) : Unpacks sign exponent fraction (.infinity sign)
  | nan (special : exponent = -1#11) (some : fraction ≠ 0#52) : Unpacks sign exponent fraction .notANumber
  | zero (finest : exponent = 0#11) (none : fraction = 0#52) : Unpacks sign exponent fraction (.zero sign)
  | subnormal (finest : exponent = 0#11) (some : 0 < fraction.toNat) :
      Unpacks sign exponent fraction (.finite sign fraction.toNat (-1074) some)
  | normal (number : exponent ≠ -1#11) (coarser : exponent ≠ 0#11) (some : 0 < 2 ^ 52 + fraction.toNat) :
      Unpacks sign exponent fraction (.finite sign (2 ^ 52 + fraction.toNat) (exponent.toNat - 1075) some)

theorem finite_eq {sign sign' : Sign} {mantissa mantissa' : Nat} {exponent exponent' : ℤ} (some : 0 < mantissa)
    (some' : 0 < mantissa') (signs : sign = sign') (mantissas : mantissa = mantissa') (exponents : exponent = exponent') :
    UnpackedFloat.finite sign mantissa exponent some = .finite sign' mantissa' exponent' some' := by
  subst signs mantissas exponents
  rfl

theorem unpacks_ofParts (sign : Sign) (exponent : BitVec 11) (fraction : BitVec 52) :
    Unpacks sign exponent fraction (ofParts sign exponent fraction) := by
  have exponents : unpackExponent (packed sign exponent fraction) = exponent := unpackExponent_packComponents ..
  have fractions : unpackMantissa (packed sign exponent fraction) = fraction := unpackMantissa_packComponents ..
  have signs := unpackSign_packed sign exponent fraction
  unfold ofParts UnpackedFloat.unpack
  dsimp only
  by_cases special : exponent = -1#11
  · rw [if_pos (exponents.trans special)]
    by_cases none : fraction = 0#52
    · rw [if_pos (fractions.trans none),signs]
      exact .infinite special none
    · rw [if_neg (mt fractions.symm.trans none)]
      exact .nan special none
  · rw [if_neg (mt exponents.symm.trans special)]
    by_cases finest : exponent = 0#11
    · rw [if_pos (exponents.trans finest)]
      by_cases none : fraction = 0#52
      · rw [dif_pos (fractions.trans none),signs]
        exact .zero finest none
      · rw [dif_neg (mt fractions.symm.trans none)]
        have some : 0 < fraction.toNat := Nat.pos_of_ne_zero fun zero => none (BitVec.eq_of_toNat_eq zero)
        refine (congrArg _ (finite_eq _ some signs (congrArg BitVec.toNat fractions) ?_)).mpr (.subnormal finest some)
        rw [exponents,finest]
        rfl
    · rw [if_neg (mt exponents.symm.trans finest)]
      have mantissa : (1#1 ++ unpackMantissa (packed sign exponent fraction)).toNat = 2 ^ 52 + fraction.toNat := by
        rw [fractions,BitVec.toNat_append,← Nat.shiftLeft_add_eq_or_of_lt fraction.isLt]
        rfl
      refine (congrArg _ (finite_eq _ (by omega) signs mantissa ?_)).mpr (.normal special finest _)
      rw [exponents]
      rfl

theorem Unpacks.eq {sign : Sign} {exponent : BitVec 11} {fraction : BitVec 52} {parts : UnpackedFloat}
    (unpacks : Unpacks sign exponent fraction parts) : ofParts sign exponent fraction = parts := by
  have other := unpacks_ofParts sign exponent fraction
  generalize ofParts sign exponent fraction = parts' at other
  cases unpacks <;> cases other <;> first | rfl | (exfalso; bv_omega)

theorem pack_finite (sign : Sign) (mantissa : Nat) (exponent : ℤ) (some : 0 < mantissa) :
    UnpackedFloat.pack Format.binary64 (.finite sign mantissa exponent some) =
      if 2 ^ 11 ≤ (exponent + 1023 + 52).toNat + 1 then packedInfinity Format.binary64 sign
      else if mantissa.log2 + 1 = 53 then
        packed sign (BitVec.ofNat 11 (exponent + 1023 + 52).toNat) (BitVec.ofNat 52 mantissa)
      else packed sign 0#11 (BitVec.ofNat 52 mantissa) := rfl

theorem pack_ofParts (sign : Sign) {exponent : BitVec 11} {fraction : BitVec 52}
    (number : ¬ (exponent = -1#11 ∧ fraction ≠ 0#52)) :
    UnpackedFloat.pack Format.binary64 (ofParts sign exponent fraction) = packed sign exponent fraction := by
  have fits := fraction.isLt
  have range := exponent.isLt
  have unpacks := unpacks_ofParts sign exponent fraction
  generalize ofParts sign exponent fraction = parts at unpacks ⊢
  cases unpacks with
  | infinite special none =>
    rw [special,none]
    rfl
  | nan special some => exact absurd ⟨special,some⟩ number
  | zero finest none =>
    rw [finest,none]
    rfl
  | subnormal finest some =>
    have short : fraction.toNat.log2 < 52 := (Nat.log2_lt some.ne').mpr fits
    rw [pack_finite,if_neg (by decide),if_neg (by omega),BitVec.ofNat_toNat,BitVec.setWidth_eq,finest]
  | normal special coarser some =>
    have long : (2 ^ 52 + fraction.toNat).log2 = 52 := by
      rw [Nat.log2_eq_iff some.ne']
      omega
    have notTop : exponent.toNat ≠ 2047 := fun top => special (BitVec.eq_of_toNat_eq top)
    have stored : ((exponent.toNat : ℤ) - 1075 + 1023 + 52).toNat = exponent.toNat := by omega
    have isFraction : BitVec.ofNat 52 (2 ^ 52 + fraction.toNat) = fraction := by
      apply BitVec.eq_of_toNat_eq
      rw [BitVec.toNat_ofNat]
      omega
    rw [pack_finite,stored,if_neg (by omega),if_pos (by omega),isFraction,BitVec.ofNat_toNat,BitVec.setWidth_eq]

theorem neg_ofParts (sign : Sign) (exponent : BitVec 11) (fraction : BitVec 52) :
    (ofParts sign exponent fraction).neg = if exponent = -1#11 ∧ fraction ≠ 0#52 then .notANumber
      else ofParts (-sign) exponent fraction := by
  have unpacks := unpacks_ofParts sign exponent fraction
  generalize ofParts sign exponent fraction = parts at unpacks ⊢
  cases unpacks with
  | infinite special none =>
    rw [if_neg fun both => both.2 none,(Unpacks.infinite special none).eq]
    rfl
  | nan special some =>
    rw [if_pos ⟨special,some⟩]
    rfl
  | zero finest none =>
    rw [if_neg fun both => both.2 none,(Unpacks.zero finest none).eq]
    rfl
  | subnormal finest some =>
    rw [if_neg (by bv_omega),(Unpacks.subnormal finest some).eq]
    rfl
  | normal special coarser some =>
    rw [if_neg fun both => special both.1,(Unpacks.normal special coarser some).eq]
    rfl

theorem toBits_eq_packed (value : Float) : ∃ sign exponent fraction,
    value.toBits.toBitVec = packed sign exponent fraction ∧
      value.toModel.unpack = ofParts sign exponent fraction := by
  obtain ⟨sign,exponent,fraction,parts⟩ := exists_packed value.toBits.toBitVec
  refine ⟨sign,exponent,fraction,parts,?_⟩
  unfold ofParts
  rw [← parts]
  rfl

theorem toBits_eq (value : Float) {sign : Sign} {exponent : BitVec 11} {fraction : BitVec 52}
    (parts : value.toBits.toBitVec = packed sign exponent fraction) :
    value.toBits.toNat = sign.toBitVec.toNat * 2 ^ 63 + exponent.toNat * 2 ^ 52 + fraction.toNat := by
  rw [← toNat_packed,← parts]
  rfl

def magnitudeBits (value : Float) : Nat := value.toBits.toNat % 2 ^ 63

theorem kind_eq (value : Float) :
    kind value = if magnitudeBits value / 2 ^ 52 = 2047 then
        if magnitudeBits value % 2 ^ 52 = 0 then .infinite else .nan
      else .finite (Binary.ofBits (magnitudeBits value / 2 ^ 52) (magnitudeBits value % 2 ^ 52)) := rfl

theorem isNegative_eq (value : Float) : isNegative value = decide (2 ^ 63 ≤ value.toBits.toNat) := rfl

/-- Bits that are not those of NaN. -/
def IsNumber (bits : Nat) : Prop := ¬ (bits % 2 ^ 63 / 2 ^ 52 = 2047 ∧ bits % 2 ^ 52 ≠ 0)

theorem isNumber_packed {sign : Sign} {exponent : BitVec 11} {fraction : BitVec 52} :
    IsNumber (packed sign exponent fraction).toNat ↔ ¬ (exponent = -1#11 ∧ fraction ≠ 0#52) := by
  have fits := exponent.isLt
  have fits' := fraction.isLt
  have bit := sign.toBitVec.isLt
  unfold IsNumber
  rw [toNat_packed]
  have top : exponent = -1#11 ↔ exponent.toNat = 2047 := BitVec.toNat_inj.symm
  have none : fraction = 0#52 ↔ fraction.toNat = 0 := BitVec.toNat_inj.symm
  simp only [top,ne_eq,none]
  omega

theorem isNumber_iff (value : Float) : IsNumber value.toBits.toNat ↔ kind value ≠ .nan := by
  have fits := value.toBits.toNat_lt
  rw [kind_eq,IsNumber,magnitudeBits]
  have same : value.toBits.toNat % 2 ^ 63 % 2 ^ 52 = value.toBits.toNat % 2 ^ 52 := by omega
  rw [same]
  split_ifs <;> simp_all

theorem toBits_ofBits {bits : UInt64} (number : IsNumber bits.toNat) : (Float.ofBits bits).toBits = bits := by
  obtain ⟨sign,exponent,fraction,parts⟩ := exists_packed bits.toBitVec
  have same : UInt64.toNat bits = (packed sign exponent fraction).toNat := by
    rw [← parts]
    rfl
  rw [same,isNumber_packed] at number
  have packs := pack_ofParts sign number
  unfold ofParts at packs
  rw [← parts] at packs
  exact congrArg UInt64.ofBitVec packs

theorem toBits_neg {value : Float} (number : IsNumber value.toBits.toNat) :
    (-value).toBits.toNat = (value.toBits.toNat + 2 ^ 63) % 2 ^ 64 := by
  obtain ⟨sign,exponent,fraction,parts,unpacks⟩ := toBits_eq_packed value
  have bits := toBits_eq value parts
  rw [bits,← toNat_packed,isNumber_packed] at number
  have negated : (-value).toBits.toBitVec = packed (-sign) exponent fraction := by
    change UnpackedFloat.pack Format.binary64 value.toModel.unpack.neg = _
    rw [unpacks,neg_ofParts,if_neg number,pack_ofParts _ number]
  have fits := exponent.isLt
  have fits' := fraction.isLt
  rw [toBits_eq (-value) negated,bits]
  cases sign with
  | positive =>
    change 1 * 2 ^ 63 + _ + _ = (0 * 2 ^ 63 + _ + _ + 2 ^ 63) % 2 ^ 64
    omega
  | negative =>
    change 0 * 2 ^ 63 + _ + _ = (1 * 2 ^ 63 + _ + _ + 2 ^ 63) % 2 ^ 64
    omega

theorem eq_nan {value : Float} (nan : kind value = .nan) : value = 0 / 0 := by
  obtain ⟨sign,exponent,fraction,parts,_⟩ := toBits_eq_packed value
  have bits := toBits_eq value parts
  have notNumber : ¬ IsNumber value.toBits.toNat := by
    rw [isNumber_iff]
    simp [nan]
  rw [bits,← toNat_packed,isNumber_packed] at notNumber
  have special : exponent = -1#11 ∧ fraction ≠ 0#52 := not_not.mp notNumber
  have same : value.toBits.toBitVec = packedNaN Format.binary64 := by
    refine value.toModel.valid.eq_packedNaN ?_ ?_
    · exact (congrArg (@unpackExponent Format.binary64) parts).trans
        ((unpackExponent_packComponents ..).trans special.1)
    · intro none
      exact special.2 ((unpackMantissa_packComponents ..).symm.trans
        ((congrArg (@unpackMantissa Format.binary64) parts).symm.trans none))
  exact float_ext (UInt64.toBitVec_inj.mp (same.trans (by decide)))

theorem signed_magnitudeBits {value : Float} (number : kind value ≠ .nan) :
    signed (isNegative value) (Float.ofBits (UInt64.ofNat (magnitudeBits value))) = value := by
  have fits := value.toBits.toNat_lt
  have below : magnitudeBits value < 2 ^ 63 := Nat.mod_lt _ (by simp)
  have stored : (UInt64.ofNat (magnitudeBits value)).toNat = magnitudeBits value := by
    rw [UInt64.toNat_ofNat',Nat.mod_eq_of_lt (by omega)]
  have isNumber := (isNumber_iff value).mpr number
  have magnitude : IsNumber (UInt64.ofNat (magnitudeBits value)).toNat := by
    rw [stored]
    unfold magnitudeBits IsNumber at *
    omega
  have bits := toBits_ofBits magnitude
  apply float_ext
  apply UInt64.toNat_inj.mp
  unfold signed
  rw [isNegative_eq]
  split_ifs with negative
  · rw [toBits_neg (by rw [bits]; exact magnitude),bits,stored]
    unfold magnitudeBits
    simp only [decide_eq_true_eq] at negative
    omega
  · rw [bits,stored]
    unfold magnitudeBits
    simp only [decide_eq_true_eq] at negative
    omega

end PinnedMap.Decimal
