import PinnedMap.Proofs.Decimal.Closest
import PinnedMap.Proofs.Page.Length

/-! Which texts are lengths. A text in a style has one of the forms below and is read as the length that the form
names, or it has none of them and counts as `auto`. -/
namespace PinnedMap

open Decimal

namespace Length

/-- Digits and the number that they are, which is 0 if there are none. -/
inductive Numeral : List Char → ℕ → Prop where
  | nil : Numeral [] 0
  | snoc {digits : List Char} {n : ℕ} (numeral : Numeral digits n) (digit : Fin 10) :
      Numeral (digits ++ [Nat.digitChar digit]) (10 * n + digit)

inductive IsDecimal : List Char → ℚ → Prop where
  | integer {whole : List Char} {n : ℕ} (numeral : Numeral whole n) (some : whole ≠ []) : IsDecimal whole n
  | pointed {whole fraction : List Char} {n m : ℕ} (numeral : Numeral whole n) (numeral' : Numeral fraction m)
      (some : whole ≠ [] ∨ fraction ≠ []) : IsDecimal (whole ++ '.' :: fraction) (n + m / 10 ^ fraction.length)

private theorem exists_digitChar {c : Char} (digit : c.isDigit = true) : ∃ d : Fin 10, c = Nat.digitChar d := by
  simp only [Char.isDigit,Bool.and_eq_true,decide_eq_true_eq,ge_iff_le,UInt32.le_iff_toNat_le] at digit
  have low : 48 ≤ c.toNat := digit.1
  have high : c.toNat ≤ 57 := digit.2
  have each : ∀ d < 10, Char.ofNat (48 + d) = Nat.digitChar d := by decide
  have value := each (c.toNat - 48) (by omega)
  rw [Nat.add_sub_cancel' low,Char.ofNat_toNat] at value
  exact ⟨⟨c.toNat - 48,by omega⟩,value⟩

private theorem isDigit_digitChar (d : Fin 10) : (Nat.digitChar d).isDigit = true := by
  revert d
  decide

private theorem digitsValue_digitChar (front : List Char) (d : Fin 10) :
    digitsValue (front ++ [Nat.digitChar d]) = 10 * digitsValue front + d := by
  have single : ∀ d : Fin 10, digitsValue [Nat.digitChar d] = d := by decide
  rw [digitsValue_append,single,List.length_singleton,pow_one]

private theorem numeral_iff {digits : List Char} {n : ℕ} :
    Numeral digits n ↔ (∀ c ∈ digits, c.isDigit) ∧ digitsValue digits = n := by
  constructor
  · intro numeral
    induction numeral with
    | nil => exact ⟨nofun,rfl⟩
    | snoc _ digit ih =>
      refine ⟨?_,by rw [digitsValue_digitChar,ih.2]⟩
      rw [List.forall_mem_append]
      exact ⟨ih.1,List.forall_mem_singleton.mpr (isDigit_digitChar digit)⟩
  · rintro ⟨each,rfl⟩
    induction digits using List.reverseRecOn with
    | nil => exact .nil
    | append_singleton front last ih =>
      obtain ⟨front',last'⟩ := List.forall_mem_append.mp each
      obtain ⟨digit,rfl⟩ := exists_digitChar (last' last (List.mem_singleton_self last))
      rw [digitsValue_digitChar]
      exact .snoc (ih front') digit

private theorem scientific_of_point (whole fraction : List Char) :
    (digitsValue (whole ++ fraction) : ℚ) * 10 ^ (0 - (fraction.length : ℤ)) =
      digitsValue whole + digitsValue fraction / 10 ^ fraction.length := by
  have unit : (10 : ℚ) ^ fraction.length ≠ 0 := by positivity
  rw [digitsValue_append,zero_sub,zpow_neg,zpow_natCast]
  push_cast
  field_simp

private theorem isDecimal_iff {text : List Char} {x : ℚ} : IsDecimal text x ↔ ∃ whole fraction,
    Digital whole fraction ∧ text = pointed whole fraction ∧
      x = digitsValue whole + digitsValue (fraction.getD []) / 10 ^ (fraction.getD []).length := by
  have none : (0 : ℚ) = (digitsValue [] : ℕ) / 10 ^ ([] : List Char).length := by simp [digitsValue]
  constructor
  · rintro (⟨numeral,some⟩ | ⟨numeral,numeral',some⟩)
    · obtain ⟨digits,rfl⟩ := numeral_iff.mp numeral
      exact ⟨_,.none,⟨digits,nofun,.inl some⟩,rfl,by rw [Option.getD_none,← none,add_zero]⟩
    · obtain ⟨digits,rfl⟩ := numeral_iff.mp numeral
      obtain ⟨digits',rfl⟩ := numeral_iff.mp numeral'
      exact ⟨_,.some _,⟨digits,digits',some⟩,rfl,by rw [Option.getD_some]⟩
  · rintro ⟨whole,fraction,⟨digits,digits',some⟩,rfl,rfl⟩
    cases fraction with
    | none =>
      rw [Option.getD_none,← none,add_zero]
      exact .integer (numeral_iff.mpr ⟨digits,rfl⟩) (some.resolve_right (· rfl))
    | some fraction => exact .pointed (numeral_iff.mpr ⟨digits,rfl⟩) (numeral_iff.mpr ⟨digits',rfl⟩) some

private theorem roundsTo_ofPoint (whole fraction : List Char) :
    RoundsTo (digitsValue whole + digitsValue fraction / 10 ^ fraction.length) (ofPoint whole fraction 0) := by
  rw [← scientific_of_point]
  exact roundsTo_ofScientific _ _

/-- The texts of lengths, without blanks around them. -/
inductive Denotes : List Char → Length → Prop where
  | fitContent {text : List Char} (letters : Text.Spells "fit-content".toList text) : Denotes text .fitContent
  | number (minus : Bool) {decimal blanks unit : List Char} {x : ℚ} {magnitude : Float} {build : Float → Length}
      (isDecimal : IsDecimal decimal x) (rounds : RoundsTo x magnitude) (blank : ∀ c ∈ blanks, Text.isBlank c)
      (isUnit : IsUnit unit build) :
      Denotes (minusSign minus ++ decimal ++ (blanks ++ unit)) (build (signed minus magnitude))

private theorem lower_eq_fitContent {text : List Char} :
    Text.lower text = "fit-content".toList ↔ Text.Spells "fit-content".toList text :=
  Text.lower_eq_iff (by decide)

private theorem ofTrimmed_of_denotes {text : List Char} {length : Length} (denotes : Denotes text length) :
    ofTrimmed text = length := by
  cases denotes with
  | fitContent letters => rw [ofTrimmed,if_pos (lower_eq_fitContent.mpr letters)]
  | number minus isDecimal rounds blank isUnit =>
    obtain ⟨whole,fraction,digital,rfl,rfl⟩ := isDecimal_iff.mp isDecimal
    rw [ofTrimmed_pointed minus digital blank isUnit,rounds.unique (roundsTo_ofPoint whole (fraction.getD []))]

private theorem denotes_of_number {text rest : List Char} {number : Float}
    (read : signedDecimal? text = some (number,rest))
    {unit : List Char} {build : Float → Length} (ends : Text.trimStart rest = unit) (isUnit : IsUnit unit build) :
    Denotes text (build number) := by
  obtain ⟨minus,whole,fraction,digital,rfl,rfl⟩ := signedDecimal?_eq_some read
  obtain ⟨blanks,blank,rfl⟩ := Text.exists_blanks_of_trimStart ends
  exact .number minus (isDecimal_iff.mpr ⟨whole,fraction,digital,rfl,rfl⟩) (roundsTo_ofPoint _ _) blank isUnit

theorem Denotes.ne_auto {text : List Char} {length : Length} (denotes : Denotes text length) : length ≠ .auto := by
  cases denotes with
  | fitContent => nofun
  | number _ _ _ _ isUnit => cases isUnit <;> nofun

theorem denotes_of_ofTrimmed {text : List Char} {length : Length} (read : ofTrimmed text = length)
    (notAuto : length ≠ .auto) : Denotes text length := by
  unfold ofTrimmed at read
  split_ifs at read with letters
  · rw [← read]
    exact .fitContent (lower_eq_fitContent.mp letters)
  · cases found : signedDecimal? text with
    | none =>
      rw [found] at read
      exact absurd read.symm notAuto
    | some parts =>
      obtain ⟨number,rest⟩ := parts
      rw [found] at read
      dsimp only at read
      split at read
      next ends => exact read ▸ denotes_of_number found ends .none
      next ends => exact read ▸ denotes_of_number found ends .px
      next ends => exact read ▸ denotes_of_number found ends .percent
      next => exact absurd read.symm notAuto

/-- A style is a length just if its text, without the blanks around it, is one of the texts of that length, and it is
`auto` if its text is none of them or if it is not set. -/
theorem ofStyle_iff_denotes (style : Option String) :
    (∀ length, length ≠ .auto →
      (ofStyle style = length ↔ ∃ text ∈ style, Denotes (Text.trim text.toList) length)) ∧
    (ofStyle style = .auto ↔ ∀ text ∈ style, ∀ length, ¬ Denotes (Text.trim text.toList) length) ∧
    ∀ text ∈ style, ∀ before after : List Char, (∀ c ∈ before, Text.isBlank c) → (∀ c ∈ after, Text.isBlank c) →
      ofStyle (some (String.ofList (before ++ text.toList ++ after))) = ofStyle style := by
  refine ⟨fun length notAuto => ?_,?_,?_⟩
  · constructor
    · intro read
      cases style with
      | none => exact absurd read.symm notAuto
      | some text => exact ⟨text,rfl,denotes_of_ofTrimmed read notAuto⟩
    · rintro ⟨text,rfl,denotes⟩
      exact ofTrimmed_of_denotes denotes
  · constructor
    · rintro read text rfl length denotes
      exact denotes.ne_auto ((ofTrimmed_of_denotes denotes).symm.trans read)
    · intro none
      cases style with
      | none => rfl
      | some text => exact by_contra fun notAuto => none text rfl _ (denotes_of_ofTrimmed rfl notAuto)
  · rintro text rfl before after blank blank'
    rw [ofStyle,ofText,String.toList_ofList,Text.trim_of_blank blank blank',ofStyle,ofText]

/-- A sign, nothing before the point, a blank before the unit, and blanks around it all. -/
theorem ofStyle_of_half : (∃ text ∈ some "-.5 px", Denotes (Text.trim text.toList) (.px (-0.5))) ∧
    ofStyle (some (String.ofList ([' '] ++ "-.5 px".toList ++ ['\n']))) = ofStyle (some "-.5 px") := by
  obtain ⟨known,_,padded⟩ := ofStyle_iff_denotes (some "-.5 px")
  exact ⟨(known (.px (-0.5)) nofun).mp (by decide +kernel),
    padded _ rfl [' '] ['\n'] (List.forall_mem_singleton.mpr rfl) (List.forall_mem_singleton.mpr rfl)⟩

end Length
end PinnedMap
