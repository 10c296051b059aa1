import PinnedMap.Proofs.Decimal.Positional
import PinnedMap.Toml.Document

/-! Every written number is read as a decimal, and as the double that it was written for. -/
namespace PinnedMap.Toml

open Decimal

def Stops (rest : List Char) : Prop := ∃ c after, rest = c :: after ∧ (c = '\n' ∨ c = ',' ∨ c = ']')

private theorem moreDigits_cons {isDigit : Char → Bool} {c : Char} (digit : isDigit c = true) (notLine : c ≠ '_')
    (rest : List Char) :
    moreDigits isDigit (c :: rest) = (c :: (moreDigits isDigit rest).1,(moreDigits isDigit rest).2) := by
  rw [moreDigits.eq_def]
  split <;> simp_all

private theorem moreDigits_stop {isDigit : Char → Bool} {c : Char} (other : isDigit c = false) (notLine : c ≠ '_')
    (rest : List Char) : moreDigits isDigit (c :: rest) = ([],c :: rest) := by
  rw [moreDigits.eq_def]
  split <;> simp_all

theorem digit_ne {c : Char} (digit : c.isDigit = true) {other : Char} (none : other.isDigit = false) :
    c ≠ other := by
  rintro rfl
  rw [digit] at none
  contradiction

private theorem moreDigits_append {digits : List Char} (digit : ∀ c ∈ digits, c.isDigit) {c : Char}
    (other : c.isDigit = false) (notLine : c ≠ '_') (rest : List Char) :
    moreDigits Char.isDigit (digits ++ c :: rest) = (digits,c :: rest) := by
  induction digits with
  | nil => exact moreDigits_stop other notLine rest
  | cons d digits ih =>
    have first := digit d (by simp)
    have others := ih fun c member => digit c (by simp [member])
    rw [List.cons_append,moreDigits_cons first (digit_ne first (by simp)),others]

private theorem digits?_append {digits : List Char} (some : digits ≠ []) (digit : ∀ c ∈ digits, c.isDigit) {c : Char}
    (other : c.isDigit = false) (notLine : c ≠ '_') (rest : List Char) :
    digits? Char.isDigit (digits ++ c :: rest) = .some (digits,c :: rest) := by
  cases digits with
  | nil => contradiction
  | cons d digits =>
    have all := moreDigits_append digit other notLine rest
    rw [List.cons_append] at all
    rw [List.cons_append,digits?,if_pos (digit d (by simp)),all]

private theorem whole?_append {whole fraction : List Char} (pointed : IsPointed whole fraction) (rest : List Char) :
    whole? (whole ++ '.' :: rest) = some (whole,'.' :: rest) := by
  rcases pointed.begins with rfl | ⟨c,digits,rfl,notZero⟩
  · rfl
  · have read := digits?_append (by simp) pointed.whole_digits (by simp : '.'.isDigit = false) (by simp) rest
    rw [List.cons_append] at read ⊢
    rw [whole?.eq_def]
    split
    next same => exact absurd (List.cons.inj same).1 notZero
    next => exact read

private theorem decimalParts?_append {whole fraction : List Char} (pointed : IsPointed whole fraction)
    {rest : List Char} (stops : Stops rest) : decimalParts? ('.' :: (fraction ++ rest)) = some (fraction,0,rest) := by
  obtain ⟨c,after,rfl,ends⟩ := stops
  have other : c.isDigit = false ∧ c ≠ '_' ∧ exponent? (c :: after) = none := by
    rcases ends with rfl | rfl | rfl <;> exact ⟨rfl,by simp,rfl⟩
  obtain ⟨noDigit,notLine,noPower⟩ := other
  have read := digits?_append pointed.continues pointed.fraction_digits noDigit notLine after
  unfold decimalParts? fraction?
  simp only [read,noPower,Option.getD_none]

private theorem sign_digits {whole fraction : List Char} (pointed : IsPointed whole fraction) (rest : List Char) :
    sign (whole ++ '.' :: rest) = (false,whole ++ '.' :: rest) := by
  rcases pointed.begins with rfl | ⟨c,digits,rfl,notZero⟩
  · rfl
  · have first := pointed.whole_digits c (by simp)
    have notMinus := digit_ne first (by simp : '-'.isDigit = false)
    have notPlus := digit_ne first (by simp : '+'.isDigit = false)
    unfold sign
    rw [List.cons_append]
    split <;> simp_all

private theorem decimal?_append {negative : Bool} {whole fraction : List Char} (pointed : IsPointed whole fraction)
    (finite : kind (ofPoint whole fraction 0) ≠ .infinite) {rest : List Char} (stops : Stops rest) :
    decimal? ((if negative then ['-'] else []) ++ (whole ++ '.' :: fraction) ++ rest) =
      some (signed negative (ofPoint whole fraction 0),rest) := by
  have signs : sign ((if negative then ['-'] else []) ++ (whole ++ '.' :: fraction) ++ rest) =
      (negative,whole ++ '.' :: (fraction ++ rest)) := by
    cases negative with
    | true =>
      rw [if_pos rfl,List.append_assoc,List.append_assoc]
      rfl
    | false =>
      rw [if_neg (by simp),List.nil_append,List.append_assoc,List.cons_append]
      exact sign_digits pointed _
  unfold decimal?
  rw [signs]
  simp only [whole?_append pointed,decimalParts?_append pointed stops,Option.bind_eq_bind,Option.bind_some]
  simp [finite]

private theorem decimal?_word (negative : Bool) {c : Char} (letter : c = 'i' ∨ c = 'n') (rest : List Char) :
    decimal? ((if negative then ['-'] else []) ++ c :: rest) = none := by
  cases negative <;> rcases letter with rfl | rfl <;> rfl

private theorem special?_infinity (negative : Bool) (rest : List Char) :
    special? ((if negative then ['-'] else []) ++ ['i','n','f'] ++ rest) =
    some (signed negative infinity,rest) := by
  cases negative <;> rfl

private theorem special?_nan (rest : List Char) : special? (['n','a','n'] ++ rest) = some (0 / 0,rest) := rfl

namespace Moment

private theorem number?_of_not_digit {c : Char} (other : c.isDigit = false) (width : Nat) (rest : List Char) :
    number? (width + 1) (c :: rest) = none := by
  unfold number?
  simp [other]

private theorem read?_of_not_digit {c : Char} (other : c.isDigit = false) (rest : List Char) :
    read? (c :: rest) = none := by
  unfold read? date? time? hourMinute?
  simp [number?_of_not_digit other]

private theorem literal?_after_digits {digits : List Char} (digit : ∀ c ∈ digits, c.isDigit) {rest after : List Char}
    {width value : Nat} (read : number? width (digits ++ '.' :: rest) = some (value,after)) {separator : Char}
    (noDigit : separator.isDigit = false) (noPoint : separator ≠ '.') : literal? separator after = none := by
  unfold number? at read
  simp only [Bool.and_eq_true,decide_eq_true_eq,List.all_eq_true] at read
  split_ifs at read with enough
  simp only [Option.some.injEq,Prod.mk.injEq] at read
  obtain ⟨_,rfl⟩ := read
  have within : width ≤ digits.length := by
    by_contra beyond
    have point : '.' ∈ (digits ++ '.' :: rest).take width := by
      obtain ⟨more,beyond'⟩ : ∃ more, width - digits.length = more + 1 := ⟨width - digits.length - 1,by omega⟩
      rw [List.take_append,beyond',List.take_succ_cons]
      simp
    exact absurd (enough.2 '.' point) (by simp)
  rw [List.drop_append_of_le_length within]
  cases left : digits.drop width with
  | nil => exact if_neg (Ne.symm noPoint)
  | cons c more =>
    have member : c ∈ digits := List.mem_of_mem_drop (by rw [left]; exact List.mem_cons_self)
    exact if_neg (digit_ne (digit c member) noDigit)

private theorem read?_of_point {digits : List Char} (digit : ∀ c ∈ digits, c.isDigit) (rest : List Char) :
    read? (digits ++ '.' :: rest) = none := by
  have noDate : date? (digits ++ '.' :: rest) = none := by
    unfold date?
    cases read : number? 4 (digits ++ '.' :: rest) with
    | none => rfl
    | some found =>
      have := literal?_after_digits digit read (by simp : '-'.isDigit = false) (by simp)
      simp [this]
  have noTime : time? (digits ++ '.' :: rest) = none := by
    unfold time? hourMinute?
    cases read : number? 2 (digits ++ '.' :: rest) with
    | none => rfl
    | some found =>
      have := literal?_after_digits digit read (by simp : ':'.isDigit = false) (by simp)
      simp [this]
  unfold read?
  rw [noDate,noTime]

end Moment

private theorem number_cases (value : Float) :
    (∃ negative, number value = (if negative then ['-'] else []) ++ ['i','n','f'] ∧ signed negative infinity = value) ∨
    (number value = ['n','a','n'] ∧ value = 0 / 0) ∨
    ∃ negative whole fraction, number value = (if negative then ['-'] else []) ++ (whole ++ '.' :: fraction) ∧
      IsPointed whole fraction ∧ kind (ofPoint whole fraction 0) ≠ .infinite ∧
      signed negative (ofPoint whole fraction 0) = value := by
  rcases chars_settings value with ⟨_,shape,same⟩ | ⟨_,same,shape⟩ | ⟨whole,fraction,pointed,finite,same,shape⟩
  · exact .inr (.inl ⟨shape,same⟩)
  · exact .inl ⟨isNegative value,shape,same⟩
  · exact .inr (.inr ⟨isNegative value,whole,fraction,shape,pointed,finite,same⟩)

private theorem readNumber_of_decimal {chars rest : List Char} {value : Float} (noMoment : Moment.read? chars = none)
    (read : decimal? chars = some (value,rest)) : Value.readNumber chars = some (.decimal value,rest) := by
  unfold Value.readNumber Value.readDecimal
  rw [noMoment,read]
  rfl

private theorem readNumber_of_special {chars rest : List Char} {value : Float} (noMoment : Moment.read? chars = none)
    (noDecimal : decimal? chars = none) (read : special? chars = some (value,rest)) :
    Value.readNumber chars = some (.decimal value,rest) := by
  unfold Value.readNumber Value.readDecimal
  rw [noMoment,noDecimal,read]
  rfl

private theorem readNumber_number (value : Float) {rest : List Char} (stops : Stops rest) :
    Value.readNumber (number value ++ rest) = some (.decimal value,rest) := by
  rcases number_cases value with ⟨negative,shape,same⟩ | ⟨shape,same⟩ | ⟨negative,whole,fraction,shape,pointed,finite,same⟩
  · have noMoment : Moment.read? (number value ++ rest) = none := by
      rw [shape]
      cases negative <;> exact Moment.read?_of_not_digit (by simp) _
    have noDecimal : decimal? (number value ++ rest) = none := by
      rw [shape,List.append_assoc]
      exact decimal?_word negative (.inl rfl) _
    apply readNumber_of_special noMoment noDecimal
    rw [shape,special?_infinity,same]
  · have noMoment : Moment.read? (number value ++ rest) = none := by
      rw [shape]
      exact Moment.read?_of_not_digit (by simp) _
    have noDecimal : decimal? (number value ++ rest) = none := by
      rw [shape]
      exact decimal?_word false (.inr rfl) _
    apply readNumber_of_special noMoment noDecimal
    rw [shape,special?_nan,same]
  · have noMoment : Moment.read? (number value ++ rest) = none := by
      rw [shape]
      cases negative with
      | true => exact Moment.read?_of_not_digit (by simp) _
      | false =>
        rw [if_neg (by simp),List.nil_append,List.append_assoc,List.cons_append]
        exact Moment.read?_of_point pointed.whole_digits _
    apply readNumber_of_decimal noMoment
    rw [shape,decimal?_append pointed finite stops,same]

theorem number_head (value : Float) : ∃ c rest, number value = c :: rest ∧
    (c.isDigit = true ∨ c = '-' ∨ c = 'i' ∨ c = 'n') := by
  rcases number_cases value with ⟨negative,shape,_⟩ | ⟨shape,_⟩ | ⟨negative,whole,fraction,shape,pointed,_⟩
  · cases negative with
    | true => exact ⟨'-',_,shape,by simp⟩
    | false => exact ⟨'i',_,shape,by simp⟩
  · exact ⟨'n',_,shape,by simp⟩
  · cases negative with
    | true => exact ⟨'-',_,shape,by simp⟩
    | false =>
      rcases pointed.begins with rfl | ⟨c,digits,rfl,_⟩
      · exact ⟨'0',_,shape,by simp⟩
      · exact ⟨c,_,shape,.inl (pointed.whole_digits c (by simp))⟩

theorem readPlain_number (value : Float) {rest : List Char} (stops : Stops rest) :
    Value.readPlain (number value ++ rest) = some (.decimal value,rest) := by
  obtain ⟨c,more,shape,head⟩ := number_head value
  have read := readNumber_number value stops
  rw [shape,List.cons_append] at read ⊢
  unfold Value.readPlain
  split <;> simp_all

end PinnedMap.Toml
