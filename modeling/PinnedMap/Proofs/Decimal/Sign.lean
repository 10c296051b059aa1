import PinnedMap.Proofs.Decimal.Range

/-! Which results are negative, and which are NaN. No product of doubles that are not negative is negative, nor is a
quotient of one by a positive double, and the only product of numbers that is NaN is that of an infinity and a zero. -/
namespace PinnedMap.Decimal

open Float.Model Float.Model.UnpackedFloat

private theorem unpack_pack_finite (sign : Sign) (mantissa : Nat) (exponent : ℤ) (positive : 0 < mantissa) :
    let parts := (Float.Model.pack (.finite sign mantissa exponent positive)).unpack
    parts = .infinity sign ∨ parts = .zero sign ∨
      ∃ mantissa' exponent' positive', parts = .finite sign mantissa' exponent' positive' := by
  intro parts
  have packs : ∃ field fraction, ¬ (field = -1#11 ∧ fraction ≠ 0#52) ∧
      UnpackedFloat.pack Format.binary64 (.finite sign mantissa exponent positive) = packed sign field fraction := by
    rw [pack_finite]
    split_ifs with large normal
    · exact ⟨-1#11,0#52,by simp,rfl⟩
    · refine ⟨_,_,fun top => ?_,rfl⟩
      have field := congrArg BitVec.toNat top.1
      rw [BitVec.toNat_ofNat] at field
      change _ = 2047 at field
      omega
    · exact ⟨0#11,_,fun top => absurd top.1 (by decide),rfl⟩
  obtain ⟨field,fraction,number,packs⟩ := packs
  have unpacks : parts = ofParts sign field fraction := congrArg (UnpackedFloat.unpack Format.binary64) packs
  rw [unpacks]
  exact (ofParts_cases sign field fraction).resolve_left fun nan => number nan.1

private theorem isNaN_pack (parts : UnpackedFloat) : (⟨.pack parts⟩ : Float).isNaN = parts.isNaN := by
  rw [isNaN_eq]
  cases parts with
  | notANumber => rfl
  | infinity sign | zero sign => cases sign <;> rfl
  | finite sign mantissa exponent positive =>
    rcases unpack_pack_finite sign mantissa exponent positive with same | same | ⟨_,_,_,same⟩ <;> rw [same] <;> rfl

private theorem not_pack_lt_zero {parts : UnpackedFloat} (nonneg : parts.lt (.zero .positive) = false) :
    ¬ (⟨.pack parts⟩ : Float) < 0 := by
  rw [lt_iff_unpack,Bool.not_eq_true]
  change (Float.Model.pack parts).unpack.lt (.zero .positive) = false
  cases parts with
  | notANumber => rfl
  | infinity sign | zero sign => cases sign <;> first | rfl | cases nonneg
  | finite sign mantissa exponent positive =>
    cases sign with
    | negative => cases nonneg
    | positive =>
      rcases unpack_pack_finite .positive mantissa exponent positive with same | same | ⟨_,_,_,same⟩ <;>
        rw [same] <;> rfl

theorem isNaN_neg (value : Float) : (-value).isNaN = value.isNaN := by
  have parts : -value = ⟨.pack value.toModel.unpack.neg⟩ := rfl
  rw [parts,isNaN_pack,isNaN_eq]
  cases value.toModel.unpack <;> rfl

section Order

variable {value other : Float}

theorem zero_le_iff : 0 ≤ value ↔ value.isNaN = false ∧ ¬ value < 0 := by
  have parts : 0 ≤ value ↔ (UnpackedFloat.zero .positive).le value.toModel.unpack = true := decide_eq_true_iff
  have zero : (0 : Float).toModel.unpack = .zero .positive := rfl
  rw [parts,lt_iff_unpack,isNaN_eq,zero]
  cases value.toModel.unpack with
  | notANumber => decide
  | infinity sign | zero sign => cases sign <;> decide
  | finite sign mantissa exponent positive =>
    cases sign with
    | negative => exact iff_of_false Bool.false_ne_true fun both => both.2 rfl
    | positive => exact iff_of_true rfl ⟨rfl,Bool.false_ne_true⟩

theorem sign_of_zero_le {p q : Prop} (nonneg : 0 ≤ value) (notNegative : ¬ p) (notNan : ¬ q) :
    (value < 0 ↔ p) ∧ (value.isNaN = true ↔ q) := by
  obtain ⟨number,least⟩ := zero_le_iff.mp nonneg
  exact ⟨iff_of_false least notNegative,iff_of_false (Bool.eq_false_iff.mp number) notNan⟩

theorem zero_le_zero : (0 : Float) ≤ 0 := by decide

private theorem zero_le_of_compare {order : Ordering} (nonneg : 0 ≤ value)
    (found : value.toModel.unpack.compare other.toModel.unpack = some order) (most : order ≠ .gt) : 0 ≤ other := by
  have parts (value : Float) : 0 ≤ value ↔ (UnpackedFloat.zero .positive).le value.toModel.unpack = true :=
    decide_eq_true_iff
  rw [parts] at nonneg ⊢
  generalize value.toModel.unpack = left at nonneg found
  generalize other.toModel.unpack = right at found ⊢
  cases right with
  | notANumber =>
    cases left with
    | infinity sign => cases sign <;> cases found
    | _ => cases found
  | zero => rfl
  | infinity sign | finite sign =>
    cases sign with
    | positive => rfl
    | negative =>
      refine absurd ?_ most
      cases left with
      | notANumber => cases nonneg
      | zero => exact (Option.some.inj found).symm
      | infinity sign | finite sign =>
        cases sign with
        | negative => cases nonneg
        | positive => exact (Option.some.inj found).symm

theorem zero_le_greater (nonneg : 0 ≤ value) (other : Float) : 0 ≤ greater value other := by
  have number : value.isNaN = false := (zero_le_iff.mp nonneg).1
  unfold greater
  split_ifs with yields
  · rw [number,Bool.false_or,Bool.or_eq_true,decide_eq_true_eq,Bool.and_eq_true] at yields
    rcases yields with less | ⟨same,_⟩
    · exact zero_le_of_compare nonneg (beq_iff_eq.mp (lt_iff_unpack.mp less)) nofun
    · exact zero_le_of_compare nonneg (beq_iff_eq.mp same) nofun
  · exact nonneg

theorem zero_le_greater_zero (value : Float) : 0 ≤ greater value 0 := by
  unfold greater
  split_ifs with yields
  · exact zero_le_zero
  · rw [Bool.or_eq_true,Bool.or_eq_true,decide_eq_true_eq,not_or,not_or,Bool.not_eq_true] at yields
    exact zero_le_iff.mpr yields.1

private theorem unpack_of_pos (finite : value.isFinite = true) (positive : 0 < value) :
    ∃ mantissa exponent some, value.toModel.unpack = .finite .positive mantissa exponent some := by
  have isFinite : value.toModel.unpack.isFinite = true := finite
  rw [lt_iff_unpack] at positive
  generalize value.toModel.unpack = parts at isFinite positive ⊢
  cases parts with
  | notANumber | infinity => cases isFinite
  | zero => cases positive
  | finite sign mantissa exponent some =>
    cases sign with
    | negative => cases positive
    | positive => exact ⟨_,_,_,rfl⟩

end Order

theorem isInf_of_isFinite {value : Float} (finite : value.isFinite = true) : value.isInf = false := by
  change value.toModel.unpack.isFinite = true at finite
  change value.toModel.unpack.isInf = false
  cases parts : value.toModel.unpack with
  | infinity sign =>
    rw [parts] at finite
    cases finite
  | _ => rfl

private theorem round_cases (sign : Sign) (mantissa : Nat) (exponent : ℤ) (accuracy : Accuracy) :
    let parts := roundWithAccuracy Format.binary64 sign mantissa exponent accuracy
    parts = .zero sign ∨ ∃ mantissa' exponent' some, parts = .finite sign mantissa' exponent' some := by
  unfold roundWithAccuracy
  dsimp only
  exact Decidable.byCases (fun none => .inl (dif_pos none)) fun some => .inr ⟨_,_,_,dif_neg some⟩

private theorem isNaN_round (sign : Sign) (mantissa : Nat) (exponent : ℤ) (accuracy : Accuracy) :
    (roundWithAccuracy Format.binary64 sign mantissa exponent accuracy).isNaN = false := by
  rcases round_cases sign mantissa exponent accuracy with parts | ⟨_,_,_,parts⟩ <;>
    · rw [parts]
      rfl

private theorem round_lt_zero (mantissa : Nat) (exponent : ℤ) (accuracy : Accuracy) :
    (roundWithAccuracy Format.binary64 .positive mantissa exponent accuracy).lt (.zero .positive) = false := by
  rcases round_cases .positive mantissa exponent accuracy with parts | ⟨_,_,_,parts⟩ <;>
    · rw [parts]
      rfl

private theorem mul_lt_zero {left right : UnpackedFloat} (nonneg : left.lt (.zero .positive) = false)
    (nonneg' : right.lt (.zero .positive) = false) :
    (UnpackedFloat.mul Format.binary64 left right).lt (.zero .positive) = false := by
  cases left with
  | notANumber => rfl
  | zero => cases right <;> rfl
  | infinity sign | finite sign =>
    cases right with
    | notANumber | zero => rfl
    | infinity sign' | finite sign' =>
      cases sign with
      | negative => cases nonneg
      | positive =>
        cases sign' with
        | negative => cases nonneg'
        | positive => first | rfl | exact round_lt_zero ..

private theorem div_lt_zero {left : UnpackedFloat} (nonneg : left.lt (.zero .positive) = false) (mantissa : Nat)
    (exponent : ℤ) (some : 0 < mantissa) :
    (UnpackedFloat.div Format.binary64 left (.finite .positive mantissa exponent some)).lt (.zero .positive) = false := by
  cases left with
  | notANumber | zero => rfl
  | infinity sign | finite sign =>
    cases sign with
    | negative => cases nonneg
    | positive => first | rfl | exact round_lt_zero ..

def IsIndefinite (value other : Float) : Prop := value.isInf ∧ other == 0 ∨ value == 0 ∧ other.isInf

instance (value other : Float) : Decidable (IsIndefinite value other) := inferInstanceAs (Decidable (_ ∨ _))

section Products

variable {value other divisor : Float}

private theorem beq_zero (parts : UnpackedFloat) : parts.beq (.zero .positive) = match parts with
    | .zero _ => true
    | _ => false := by
  cases parts with
  | infinity sign | zero sign | finite sign => cases sign <;> rfl
  | notANumber => rfl

private theorem isNaN_mul_parts (left right : UnpackedFloat) : (UnpackedFloat.mul Format.binary64 left right).isNaN =
    (left.isNaN || right.isNaN || left.isInf && right.beq (.zero .positive) ||
      left.beq (.zero .positive) && right.isInf) := by
  rw [beq_zero,beq_zero]
  cases left <;> cases right <;> first | rfl | exact isNaN_round ..

theorem isNaN_mul_iff :
    (value * other).isNaN = true ↔ value.isNaN = true ∨ other.isNaN = true ∨ IsIndefinite value other := by
  have indefinite : IsIndefinite value other ↔
    value.toModel.unpack.isInf ∧ other.toModel.unpack.beq (.zero .positive) ∨
      value.toModel.unpack.beq (.zero .positive) ∧ other.toModel.unpack.isInf := Iff.rfl
  rw [mul_eq_pack,isNaN_pack,isNaN_mul_parts,indefinite,isNaN_eq,isNaN_eq]
  simp only [Bool.or_eq_true,Bool.and_eq_true,or_assoc]

theorem not_mul_lt_zero (nonneg : ¬ value < 0) (nonneg' : ¬ other < 0) : ¬ value * other < 0 := by
  rw [lt_iff_unpack,Bool.not_eq_true] at nonneg nonneg'
  rw [mul_eq_pack]
  exact not_pack_lt_zero (mul_lt_zero nonneg nonneg')

private theorem div_eq_pack (value other : Float) : value / other =
    ⟨.pack (UnpackedFloat.div Format.binary64 value.toModel.unpack other.toModel.unpack)⟩ := rfl

theorem isNaN_div (finite : divisor.isFinite = true) (positive : 0 < divisor) :
    (value / divisor).isNaN = value.isNaN := by
  obtain ⟨mantissa,exponent,some,parts⟩ := unpack_of_pos finite positive
  rw [div_eq_pack,isNaN_pack,parts,isNaN_eq]
  cases value.toModel.unpack with
  | finite => exact isNaN_round ..
  | _ => rfl

theorem not_div_lt_zero (nonneg : ¬ value < 0) (finite : divisor.isFinite = true) (positive : 0 < divisor) :
    ¬ value / divisor < 0 := by
  obtain ⟨mantissa,exponent,some,parts⟩ := unpack_of_pos finite positive
  rw [lt_iff_unpack,Bool.not_eq_true] at nonneg
  rw [div_eq_pack,parts]
  exact not_pack_lt_zero (div_lt_zero nonneg mantissa exponent some)

end Products

end PinnedMap.Decimal
