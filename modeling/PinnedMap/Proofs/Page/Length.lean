import PinnedMap.Page.Layout
import PinnedMap.Proofs.Decimal.Positional
import PinnedMap.Proofs.Text.Blank
import PinnedMap.Proofs.Text.Digits

/-! A length that is written to a style is read from it, if it is a number; NaN and the infinities count as `auto`. -/
namespace PinnedMap

open Decimal

namespace Length

private theorem toLower_of_isDigit {c : Char} (digit : c.isDigit = true) : c.toLower = c := by
  simp only [Char.isDigit,Bool.and_eq_true,decide_eq_true_eq,ge_iff_le,UInt32.le_iff_toNat_le] at digit
  have high : c.toNat ≤ 57 := digit.2
  unfold Char.toLower
  rw [dif_neg]
  rintro ⟨upper,_⟩
  rw [ge_iff_le,UInt32.le_iff_toNat_le] at upper
  have low : 65 ≤ c.toNat := upper
  omega

def pointed (whole : List Char) : Option (List Char) → List Char
  | none => whole
  | some fraction => whole ++ '.' :: fraction

/-- Digits on the sides of a point, and some on one of them. -/
structure Digital (whole : List Char) (fraction : Option (List Char)) : Prop where
  whole_digits : ∀ c ∈ whole, c.isDigit
  fraction_digits : ∀ c ∈ fraction.getD [], c.isDigit
  some : whole ≠ [] ∨ fraction.getD [] ≠ []

/-- What may stand behind a number, and the length that the two are. -/
inductive IsUnit : List Char → (Float → Length) → Prop where
  | none : IsUnit [] .px
  | px : IsUnit ['p','x'] .px
  | percent : IsUnit ['%'] .percent

theorem signed_true (value : Float) : signed true value = -value := if_pos rfl

theorem signed_false (value : Float) : signed false value = value := if_neg Bool.false_ne_true

def minusSign (minus : Bool) : List Char := if minus then ['-'] else []

section Reading

variable {whole : List Char} {fraction : Option (List Char)} {rest : List Char}

private theorem pointed_head (digital : Digital whole fraction) : ∃ c others, pointed whole fraction = c :: others ∧
    (c.isDigit = true ∨ c = '.') := by
  cases whole with
  | cons c whole =>
    have digit := digital.whole_digits c (List.mem_cons_self ..)
    cases fraction with
    | none => exact ⟨c,whole,rfl,.inl digit⟩
    | some fraction => exact ⟨c,whole ++ '.' :: fraction,rfl,.inl digit⟩
  | nil =>
    cases fraction with
    | none => exact absurd digital.some (by simp)
    | some fraction => exact ⟨'.',fraction,rfl,.inr rfl⟩

private theorem decimal?_pointed (digital : Digital whole fraction)
    (stops : ∀ c ∈ rest.head?, c.isDigit = false ∧ c ≠ '.') :
    decimal? (pointed whole fraction ++ rest) = some (ofPoint whole (fraction.getD []) 0,rest) := by
  have ends : ∀ c ∈ rest.head?, c.isDigit = false := fun c first => (stops c first).1
  obtain ⟨digits,digits',something⟩ := digital
  unfold decimal?
  cases fraction with
  | none =>
    have nonempty : whole.isEmpty = false := by simpa using something
    rw [pointed,Text.takeWhile_digits digits ends,Text.dropWhile_digits digits ends]
    split
    next after _ => exact absurd rfl (stops '.' rfl).2
    next => simp [nonempty]
  | some fraction =>
    have point : ∀ c ∈ ('.' :: (fraction ++ rest)).head?, c.isDigit = false := by simp
    have nonempty : (whole.isEmpty && fraction.isEmpty) = false := by simpa [imp_iff_not_or] using something
    rw [pointed,List.append_assoc,List.cons_append,Text.takeWhile_digits digits point,Text.dropWhile_digits digits point]
    simp only [Option.getD_some] at digits'
    simp only [Text.takeWhile_digits digits' ends,Text.dropWhile_digits digits' ends,nonempty,Bool.false_eq_true,
      if_false,Option.getD_some]

private theorem decimal?_eq_some {text : List Char} {number : Float} (read : decimal? text = some (number,rest)) :
    ∃ whole fraction, Digital whole fraction ∧ text = pointed whole fraction ++ rest ∧
      number = ofPoint whole (fraction.getD []) 0 := by
  have digits (text : List Char) : ∀ c ∈ text.takeWhile Char.isDigit, c.isDigit := fun _ member =>
    List.mem_takeWhile_imp member
  have parts (text : List Char) : text.takeWhile Char.isDigit ++ text.dropWhile Char.isDigit = text :=
    List.takeWhile_append_dropWhile
  unfold decimal? at read
  dsimp only at read
  split at read
  next after point =>
    split_ifs at read with nothing
    obtain ⟨rfl,rfl⟩ := Prod.mk.inj (Option.some.inj read)
    refine ⟨_,some (after.takeWhile Char.isDigit),⟨digits text,digits after,?_⟩,?_,by rw [Option.getD_some]⟩
    · simpa [imp_iff_not_or] using nothing
    · rw [pointed,List.append_assoc,List.cons_append,parts after,← point,parts text]
  next =>
    split_ifs at read with nothing
    obtain ⟨rfl,rfl⟩ := Prod.mk.inj (Option.some.inj read)
    refine ⟨_,none,⟨digits text,nofun,.inl (by simpa using nothing)⟩,?_,by rw [Option.getD_none]⟩
    rw [pointed,parts text]

private theorem signedDecimal?_of_ne {c : Char} (notMinus : c ≠ '-') (text : List Char) :
    signedDecimal? (c :: text) = decimal? (c :: text) := by
  unfold signedDecimal?
  split
  next same => exact absurd (List.cons.inj same).1 notMinus
  next => rfl

private theorem signedDecimal?_pointed (minus : Bool) (digital : Digital whole fraction)
    (stops : ∀ c ∈ rest.head?, c.isDigit = false ∧ c ≠ '.') :
    signedDecimal? (minusSign minus ++ pointed whole fraction ++ rest) =
      some (signed minus (ofPoint whole (fraction.getD []) 0),rest) := by
  have read := decimal?_pointed digital stops
  cases minus with
  | true =>
    rw [minusSign,if_pos rfl,List.append_assoc,List.singleton_append,signedDecimal?,read,Option.map_some,signed_true]
  | false =>
    obtain ⟨c,others,shape,first⟩ := pointed_head digital
    have notMinus : c ≠ '-' := by
      rintro rfl
      rcases first with digit | point <;> contradiction
    rw [minusSign,if_neg Bool.false_ne_true,List.nil_append,shape,List.cons_append,signedDecimal?_of_ne notMinus,
      ← List.cons_append,← shape,read,signed_false]

theorem signedDecimal?_eq_some {text : List Char} {number : Float} (read : signedDecimal? text = some (number,rest)) :
    ∃ minus whole fraction, Digital whole fraction ∧ text = minusSign minus ++ pointed whole fraction ++ rest ∧
      number = signed minus (ofPoint whole (fraction.getD []) 0) := by
  unfold signedDecimal? at read
  split at read
  next text =>
    obtain ⟨⟨magnitude,after⟩,found,same⟩ := Option.map_eq_some_iff.mp read
    obtain ⟨rfl,rfl⟩ := Prod.mk.inj same
    obtain ⟨whole,fraction,digital,rfl,rfl⟩ := decimal?_eq_some found
    exact ⟨true,whole,fraction,digital,rfl,by rw [signed_true]⟩
  next =>
    obtain ⟨whole,fraction,digital,rfl,rfl⟩ := decimal?_eq_some read
    exact ⟨false,whole,fraction,digital,rfl,by rw [signed_false]⟩

end Reading

private theorem fitContent_toList : "fit-content".toList = ['f','i','t','-','c','o','n','t','e','n','t'] := by simp

section Units

variable {whole : List Char} {fraction : Option (List Char)} {blanks unit : List Char} {build : Float → Length}

private theorem lower_ne_fitContent (minus : Bool) (digital : Digital whole fraction) (rest : List Char) :
    Text.lower (minusSign minus ++ pointed whole fraction ++ rest) ≠ "fit-content".toList := by
  rw [fitContent_toList]
  cases minus with
  | true => exact fun same => absurd (List.cons.inj same).1 (by decide)
  | false =>
    obtain ⟨c,others,shape,first⟩ := pointed_head digital
    rw [shape]
    intro same
    have letter : c.toLower = 'f' := (List.cons.inj same).1
    rcases first with digit | rfl
    · rw [toLower_of_isDigit digit] at letter
      subst letter
      contradiction
    · contradiction

private theorem stops_of_unit (blank : ∀ c ∈ blanks, Text.isBlank c) (isUnit : IsUnit unit build) :
    ∀ c ∈ (blanks ++ unit).head?, c.isDigit = false ∧ c ≠ '.' := by
  intro c first
  cases blanks with
  | nil => cases isUnit <;> cases first <;> decide
  | cons d blanks =>
    cases first
    have isBlank := blank c (List.mem_cons_self ..)
    constructor
    · cases digit : c.isDigit with
      | false => rfl
      | true =>
        rw [Text.isBlank_of_isDigit digit] at isBlank
        cases isBlank
    · rintro rfl
      contradiction

private theorem trimStart_unit (blank : ∀ c ∈ blanks, Text.isBlank c) (isUnit : IsUnit unit build) :
    Text.trimStart (blanks ++ unit) = unit := by
  rw [Text.trimStart,List.dropWhile_append_of_pos blank]
  cases isUnit <;> rfl

theorem ofTrimmed_pointed (minus : Bool) (digital : Digital whole fraction) (blank : ∀ c ∈ blanks, Text.isBlank c)
    (isUnit : IsUnit unit build) : ofTrimmed (minusSign minus ++ pointed whole fraction ++ (blanks ++ unit)) =
      build (signed minus (ofPoint whole (fraction.getD []) 0)) := by
  unfold ofTrimmed
  rw [if_neg (lower_ne_fitContent minus digital _),signedDecimal?_pointed minus digital (stops_of_unit blank isUnit)]
  dsimp only
  rw [trimStart_unit blank isUnit]
  generalize signed minus (ofPoint whole (fraction.getD []) 0) = number
  cases isUnit <;> rfl

end Units

private theorem withPoint_eq (whole fraction : List Char) :
    withPoint whole fraction = pointed whole (if fraction.isEmpty then none else some fraction) := by
  unfold withPoint
  split_ifs
  · exact List.append_nil whole
  · rfl

private theorem visible_pointed {whole : List Char} {fraction : Option (List Char)} (digital : Digital whole fraction) :
    ∀ c ∈ pointed whole fraction, Text.isBlank c = false := by
  intro c member
  cases fraction with
  | none => exact Text.isBlank_of_isDigit (digital.whole_digits c member)
  | some fraction =>
    rcases List.mem_append.mp member with digit | after
    · exact Text.isBlank_of_isDigit (digital.whole_digits c digit)
    · rcases List.mem_cons.mp after with rfl | digit
      · rfl
      · exact Text.isBlank_of_isDigit (digital.fraction_digits c digit)

private theorem visible_minusSign (minus : Bool) : ∀ c ∈ minusSign minus, Text.isBlank c = false := by
  cases minus with
  | true => exact List.forall_mem_singleton.mpr rfl
  | false => nofun

private theorem visible_unit {unit : List Char} {build : Float → Length} (isUnit : IsUnit unit build) :
    ∀ c ∈ unit, Text.isBlank c = false := by
  cases isUnit <;> simp only [List.forall_mem_cons,List.not_mem_nil,false_imp_iff,implies_true,and_true] <;> decide

/-- A number that is written with a unit is read as it was written. -/
theorem ofText_of_written {value : Float} {unit : List Char} {build : Float → Length} (isUnit : IsUnit unit build)
    {text : String} (written : text.toList = Form.plain.chars value ++ unit) :
    ofText text = if kind value = .nan ∨ kind value = .infinite then .auto else build value := by
  unfold ofText
  rw [written]
  rcases chars_plain value with
    ⟨sort,chars⟩ | ⟨sort,chars⟩ | ⟨_,whole,fraction,sort,some,digits,digits',reads,chars⟩
  · rw [chars,sort,if_pos (.inl rfl)]
    cases isUnit <;> rfl
  · rw [chars,sort,if_pos (Or.inr rfl)]
    cases isNegative value <;> cases isUnit <;> rfl
  · have number : ¬ (kind value = .nan ∨ kind value = .infinite) := by simp [sort]
    have given : (if fraction.isEmpty then none else Option.some fraction).getD [] = fraction := by
      cases fraction <;> rfl
    have digital : Digital whole (if fraction.isEmpty then none else Option.some fraction) :=
      ⟨digits,by rwa [given],.inl some⟩
    have unblanked : ∀ c ∈ ([] : List Char), Text.isBlank c := nofun
    have read := ofTrimmed_pointed (isNegative value) digital unblanked isUnit
    rw [given,reads,List.nil_append] at read
    rw [if_neg number,chars,withPoint_eq]
    refine (congrArg ofTrimmed (Text.trim_eq_self fun c member => ?_)).trans read
    rcases List.mem_append.mp member with front | last
    · rcases List.mem_append.mp front with minus | digit
      · exact visible_minusSign _ c minus
      · exact visible_pointed digital c digit
    · exact visible_unit isUnit c last

theorem ofText_px (length : Float) :
    ofText (PinnedMap.px length) = if kind length = .nan ∨ kind length = .infinite then .auto else .px length :=
  ofText_of_written .px (by simp [PinnedMap.px,plainText,Form.text])

/-- What is written for a length to a style, to the limit of a wrapper and as a bare number is read as that length. -/
theorem ofText_written (value : Float) :
    let read := if kind value = .nan ∨ kind value = .infinite then Length.auto else .px value
    ofText (PinnedMap.px value) = read ∧
      ofStyle (((wrapperStyles value).lookup "max-width").map StyleValue.written) = read ∧
      ofText (StyleValue.number value).written = read := by
  refine ⟨ofText_px value,?_,?_⟩
  · have limit : (wrapperStyles value).lookup "max-width" = some (.text (PinnedMap.px value)) := rfl
    rw [limit]
    exact ofText_px value
  · exact ofText_of_written .none (by simp [StyleValue.written,plainText,Form.text])

example : ofText (PinnedMap.px (-1e21)) = .px (-1e21) := by decide +kernel

end Length
end PinnedMap
