import PinnedMap.Proofs.Decimal.Positional
import PinnedMap.Proofs.Json.Reading

/-! What is written as a number reads as one: the digits before and after its point, and its power of ten, come back
as they were written. -/
namespace PinnedMap.Json

open Decimal

namespace Number

def Exponent.chars (power : Exponent) : List Char := 'e' :: (if power.isNegative then '-' else '+') :: power.digits

def Exponent.value (power : Exponent) : ℤ :=
  if power.isNegative then -(digitsValue power.digits : ℤ) else digitsValue power.digits

def numeral (minus : Bool) (whole fraction : List Char) (power : Option Exponent) : List Char :=
  (if minus then ['-'] else []) ++ (withPoint whole fraction ++ (power.map Exponent.chars).getD [])

/-- The parts of a number as the format has them: a zero in front stands alone, and a power has digits. -/
structure IsNumeral (whole fraction : List Char) (power : Option Exponent) : Prop where
  whole_digits : ∀ c ∈ whole, c.isDigit
  begins : whole = ['0'] ∨ ∃ c rest, whole = c :: rest ∧ c ≠ '0'
  fraction_digits : ∀ c ∈ fraction, c.isDigit
  power_digits : ∀ exponent ∈ power, exponent.digits ≠ [] ∧ ∀ c ∈ exponent.digits, c.isDigit

theorem IsNumeral.first {whole fraction : List Char} {power : Option Exponent}
    (isNumeral : IsNumeral whole fraction power) : ∃ c rest, whole = c :: rest ∧ c.isDigit := by
  rcases isNumeral.begins with rfl | ⟨c,rest,rfl,_⟩
  · exact ⟨'0',[],rfl,by decide⟩
  · exact ⟨c,rest,rfl,isNumeral.whole_digits c (by simp)⟩

private theorem isDigit_of_stops {rest : List Char} (stops : Stops rest) : ∀ c ∈ rest.head?, c.isDigit = false := by
  intro c first
  rcases stops c first with rfl | rfl | rfl <;> rfl

theorem readWhole_digits {whole rest : List Char} (digits : ∀ c ∈ whole, c.isDigit)
    (begins : whole = ['0'] ∨ ∃ c rest, whole = c :: rest ∧ c ≠ '0')
    (stops : ∀ c ∈ rest.head?, c.isDigit = false) : readWhole (whole ++ rest) = some (whole,rest) := by
  unfold readWhole
  rw [Text.takeWhile_digits digits stops,Text.dropWhile_digits digits stops]
  rcases begins with rfl | ⟨c,tail,rfl,notZero⟩
  · rfl
  · dsimp only
    split
    next => contradiction
    next same => exact absurd (List.cons.inj same).1 notZero
    next => rfl

theorem readFraction_point {fraction rest : List Char} (digits : ∀ c ∈ fraction, c.isDigit)
    (stops : ∀ c ∈ rest.head?, c.isDigit = false) (noPoint : ∀ c ∈ rest.head?, c ≠ '.') :
    readFraction ((if fraction.isEmpty then [] else '.' :: fraction) ++ rest) = some (fraction,rest) := by
  cases fraction with
  | nil =>
    change readFraction rest = _
    unfold readFraction
    split
    next => exact absurd rfl (noPoint _ rfl)
    next => rfl
  | cons c fraction =>
    change (if ((c :: fraction ++ rest).takeWhile Char.isDigit).isEmpty then none
      else some ((c :: fraction ++ rest).takeWhile Char.isDigit,(c :: fraction ++ rest).dropWhile Char.isDigit)) = _
    rw [Text.takeWhile_digits digits stops,Text.dropWhile_digits digits stops]
    rfl

private theorem readExponent_chars {power : Option Exponent} (digits : ∀ exponent ∈ power,
    exponent.digits ≠ [] ∧ ∀ c ∈ exponent.digits, c.isDigit) {rest : List Char} (stops : Stops rest) :
    readExponent ((power.map Exponent.chars).getD [] ++ rest) = some (power,rest) := by
  cases power with
  | none =>
    rw [Option.map_none,Option.getD_none,List.nil_append,readExponent.eq_def]
    split
    next => exact absurd (stops _ rfl) (by simp)
    next => exact absurd (stops _ rfl) (by simp)
    next => rfl
  | some exponent =>
    obtain ⟨below,shown⟩ := exponent
    obtain ⟨something,digits⟩ := digits _ rfl
    have parts : readExponent ('e' :: (if below then '-' else '+') :: (shown ++ rest)) =
        if ((shown ++ rest).takeWhile Char.isDigit).isEmpty then none
        else some (some ⟨below,(shown ++ rest).takeWhile Char.isDigit⟩,(shown ++ rest).dropWhile Char.isDigit) := by
      cases below <;> rfl
    have ends := isDigit_of_stops stops
    rw [Option.map_some,Option.getD_some,Exponent.chars,List.cons_append,List.cons_append,parts,
      Text.takeWhile_digits digits ends,Text.dropWhile_digits digits ends,if_neg (by simpa using something)]

theorem read_minus (text : List Char) : read ('-' :: text) = do
    let (whole,text) ← readWhole text
    let (fraction,text) ← readFraction text
    let (power,text) ← readExponent text
    return (ofParts true whole fraction power,text) := rfl

theorem read_plain {text : List Char} (noSign : ∀ c ∈ text.head?, c ≠ '-') : read text = do
    let (whole,text) ← readWhole text
    let (fraction,text) ← readFraction text
    let (power,text) ← readExponent text
    return (ofParts false whole fraction power,text) := by
  unfold read
  split
  next same =>
    split at same
    next => exact absurd rfl (noSign _ rfl)
    next =>
      cases same
      rfl

private theorem head_power (power : Option Exponent) {rest : List Char} (stops : Stops rest) :
    ∀ c ∈ ((power.map Exponent.chars).getD [] ++ rest).head?, c.isDigit = false ∧ c ≠ '.' := by
  intro c first
  cases power with
  | none => rcases stops c first with rfl | rfl | rfl <;> decide
  | some exponent =>
    cases first
    decide

theorem head_fraction (fraction : List Char) {rest : List Char} (ends : ∀ c ∈ rest.head?, c.isDigit = false) :
    ∀ c ∈ ((if fraction.isEmpty then [] else '.' :: fraction) ++ rest).head?, c.isDigit = false := by
  intro c first
  cases fraction with
  | nil => exact ends c first
  | cons =>
    cases first
    rfl

private theorem read_numeral {whole fraction : List Char} {power : Option Exponent}
    (isNumeral : IsNumeral whole fraction power) (minus : Bool) {rest : List Char} (stops : Stops rest) :
    read (numeral minus whole fraction power ++ rest) = some (ofParts minus whole fraction power,rest) := by
  obtain ⟨afterPoint,tail⟩ : ∃ afterPoint, afterPoint = (power.map Exponent.chars).getD [] ++ rest := ⟨_,rfl⟩
  obtain ⟨afterWhole,middle⟩ : ∃ afterWhole,
      afterWhole = (if fraction.isEmpty then [] else '.' :: fraction) ++ afterPoint := ⟨_,rfl⟩
  have shape : numeral minus whole fraction power ++ rest =
      (if minus then ['-'] else []) ++ (whole ++ afterWhole) := by
    simp only [numeral,withPoint,middle,tail,List.append_assoc]
  have pointed := head_power power stops
  rw [← tail] at pointed
  have ends := head_fraction fraction fun c first => (pointed c first).1
  rw [← middle] at ends
  have readsWhole := readWhole_digits isNumeral.whole_digits isNumeral.begins ends
  have readsFraction := readFraction_point isNumeral.fraction_digits (fun c first => (pointed c first).1)
    fun c first => (pointed c first).2
  have readsPower := readExponent_chars isNumeral.power_digits stops
  rw [← middle] at readsFraction
  rw [← tail] at readsPower
  rw [shape]
  cases minus with
  | true =>
    rw [if_pos rfl,List.singleton_append,read_minus,readsWhole]
    simp only [Option.bind_eq_bind,Option.bind_some,readsFraction,readsPower]
    rfl
  | false =>
    obtain ⟨c,others,front,digit⟩ := isNumeral.first
    have noSign : ∀ d ∈ (whole ++ afterWhole).head?, d ≠ '-' := by
      rw [front]
      intro d first
      cases first
      rintro rfl
      cases digit
    rw [if_neg (by simp),List.nil_append,read_plain noSign,readsWhole]
    simp only [Option.bind_eq_bind,Option.bind_some,readsFraction,readsPower]
    rfl

private theorem numeral_first {whole fraction : List Char} {power : Option Exponent}
    (isNumeral : IsNumeral whole fraction power) (minus : Bool) : ∃ c rest,
    numeral minus whole fraction power = c :: rest ∧ (c = '-' ∨ c.isDigit) := by
  cases minus with
  | true => exact ⟨'-',_,rfl,.inl rfl⟩
  | false =>
    obtain ⟨c,rest,rfl,digit⟩ := isNumeral.first
    exact ⟨c,_,rfl,.inr digit⟩

end Number

private theorem isSpace_numeric {c : Char} (numeric : c = '-' ∨ c.isDigit) : isSpace c = false := by
  by_contra space
  simp only [isSpace,Bool.not_eq_false,Bool.or_eq_true,decide_eq_true_eq] at space
  rcases space with ((rfl | rfl) | rfl) | rfl <;> rcases numeric with other | digit <;> contradiction

theorem Node.read_numeric {c : Char} (numeric : c = '-' ∨ c.isDigit) (limit : Nat) (rest : List Char) :
    Node.read (limit + 1) (c :: rest) = match Number.read (c :: rest) with
      | some (value,rest) => (.number value,some rest)
      | none => (.broken,none) := by
  rw [Node.read,skipSpace_cons (isSpace_numeric numeric)]
  split
  iterate 6
    next same =>
      cases same
      rcases numeric with other | digit <;> contradiction
  next => rfl

theorem reads_numeral {whole fraction : List Char} {power : Option Number.Exponent}
    (isNumeral : Number.IsNumeral whole fraction power) (minus : Bool) :
    Reads (Number.numeral minus whole fraction power) (.number (.ofParts minus whole fraction power)) := by
  obtain ⟨c,tail,front,numeric⟩ := Number.numeral_first isNumeral minus
  refine ⟨⟨c,tail,front,isSpace_numeric numeric,?_⟩,fun rest limit stops enough => ?_⟩
  · rintro rfl
    rcases numeric with other | digit <;> contradiction
  · have reads := Number.read_numeral isNumeral minus stops
    rw [front] at reads enough ⊢
    obtain ⟨limit,rfl⟩ : ∃ fewer, limit = fewer + 1 := ⟨limit - 1,by simp at enough; omega⟩
    rw [List.cons_append,Node.read_numeric numeric]
    rw [List.cons_append] at reads
    rw [reads]

namespace Number

private theorem gather_of_fits {start : Nat} {digits : List Char}
    (fits : 10 ^ digits.length * start + digitsValue digits < 2 ^ 64) :
    gather start digits = (10 ^ digits.length * start + digitsValue digits,digits.length) := by
  induction digits generalizing start with
  | nil => simp [gather,digitsValue]
  | cons c digits ih =>
    have value : 10 ^ (c :: digits).length * start + digitsValue (c :: digits) =
        10 ^ digits.length * (start * 10 + (c.toNat - 48)) + digitsValue digits := by
      have first : digitsValue [c] = c.toNat - 48 := by simp [digitsValue]
      rw [← List.singleton_append,digitsValue_append,first,List.length_append,List.length_singleton]
      ring
    rw [value] at fits ⊢
    have grown : start * 10 + (c.toNat - 48) ≤ 10 ^ digits.length * (start * 10 + (c.toNat - 48)) :=
      Nat.le_mul_of_pos_left _ (by positivity)
    rw [gather,if_pos (by omega),ih fits]
    rfl

private theorem isNumeral_toDigits (n : Nat) : IsNumeral (Nat.toDigits 10 n) [] none := by
  refine ⟨fun c member => Nat.isDigit_of_mem_toDigits (by simp) (by simp) member,?_,nofun,nofun⟩
  rcases eq_or_ne n 0 with rfl | nonzero
  · exact .inl rfl
  · exact .inr (toDigits_head nonzero)

private theorem ofParts_toDigits {n : Nat} (fits : n < 2 ^ 64) :
    ofParts false (Nat.toDigits 10 n) [] none = .natural n := by
  have same : 10 ^ (Nat.toDigits 10 n).length * 0 + digitsValue (Nat.toDigits 10 n) = n := by
    rw [digitsValue_toDigits,Nat.mul_zero,Nat.zero_add]
  have all := gather_of_fits (same.trans_lt fits)
  rw [same] at all
  unfold ofParts
  rw [all]
  simp

end Number

theorem reads_toDigits {n : Nat} (fits : n < 2 ^ 64) : Reads (Nat.toDigits 10 n) (.number (.natural n)) := by
  have reads := reads_numeral (Number.isNumeral_toDigits n) false
  rw [Number.ofParts_toDigits fits] at reads
  simpa [Number.numeral,withPoint] using reads

namespace Number

private theorem isNumeral_of_isPointed {whole fraction : List Char} (pointed : IsPointed whole fraction) :
    IsNumeral whole fraction none :=
  ⟨pointed.whole_digits,pointed.begins,pointed.fraction_digits,by simp⟩

def powerOf (power : Option Exponent) : ℤ := (power.map Exponent.value).getD 0

/-- A numeral shows a decimal by the digits on both sides of its point and by its power, and has one or the other. -/
structure Shows (decimal : Digits) (whole fraction : List Char) (power : Option Exponent) : Prop where
  digits : digitsValue (whole ++ fraction) = decimal.digits
  exponent : powerOf power - (fraction.length : ℤ) = decimal.exponent
  real : power = none → fraction ≠ []
  short : power ≠ none → fraction.length < (Nat.toDigits 10 decimal.digits).length

def shown (decimal : Digits) : Digits :=
  if 0 ≤ decimal.exponent ∧ (Nat.toDigits 10 decimal.digits).length + decimal.exponent ≤ 16 then
    ⟨decimal.digits * 10 ^ (decimal.exponent.toNat + 1),-1⟩
  else decimal

theorem number_shown (decimal : Digits) : (shown decimal).number = decimal.number := by
  unfold shown
  split_ifs with whole
  · have parts : decimal.exponent = (decimal.exponent.toNat + 1 : ℕ) + (-1 : ℤ) := by omega
    unfold Digits.number
    conv_rhs => rw [parts,zpow_add₀ (by norm_num),zpow_natCast]
    push_cast
    ring
  · rfl

private theorem scientific_spec {n : Nat} (nonzero : n ≠ 0) (exponent : ℤ) : ∃ whole fraction power,
    scientific (Nat.toDigits 10 n) ((Nat.toDigits 10 n).length + exponent) =
        withPoint whole fraction ++ Exponent.chars power ∧
      IsNumeral whole fraction (some power) ∧ Shows ⟨n,exponent⟩ whole fraction (some power) := by
  have isDigit : ∀ m, ∀ c ∈ Nat.toDigits 10 m, c.isDigit := fun m c member =>
    Nat.isDigit_of_mem_toDigits (by simp) (by simp) member
  have value := digitsValue_toDigits n
  obtain ⟨c,rest,front,head⟩ := toDigits_head nonzero
  have digits := isDigit n
  obtain ⟨size,isSize⟩ : ∃ size : ℤ, size = ((c :: rest).length : ℤ) + exponent - 1 := ⟨_,rfl⟩
  have power : powerOf (some ⟨size < 0,Nat.toDigits 10 size.natAbs⟩) = size := by
    simp only [powerOf,Exponent.value,Option.map_some,Option.getD_some,digitsValue_toDigits,decide_eq_true_eq]
    split_ifs <;> omega
  refine ⟨[c],rest,⟨size < 0,Nat.toDigits 10 size.natAbs⟩,?_,⟨?_,.inr ⟨c,[],rfl,head⟩,?_,?_⟩,?_,?_,nofun,fun _ => ?_⟩
  · rw [front]
    unfold scientific withPoint Exponent.chars
    rw [← isSize]
    cases rest <;> simp
  · exact fun d member => digits d (by simp [front,List.mem_singleton.mp member])
  · exact fun d member => digits d (by simp [front,member])
  · intro power same
    cases same
    exact ⟨List.ne_nil_of_length_pos Nat.length_toDigits_pos,isDigit _⟩
  · rw [List.singleton_append,← front,value]
  · rw [power]
    simp at isSize
    dsimp only
    omega
  · rw [front]
    simp

private theorem layout_spec {decimal : Digits} (nonzero : decimal.digits ≠ 0) : ∃ whole fraction power,
    Form.json.layout decimal = withPoint whole fraction ++ (power.map Exponent.chars).getD [] ∧
      IsNumeral whole fraction power ∧ Shows (shown decimal) whole fraction power := by
  obtain ⟨n,exponent⟩ := decimal
  unfold Form.layout
  dsimp only [Form.json] at nonzero ⊢
  split_ifs with plain
  · simp only [Bool.and_eq_true,decide_eq_true_eq] at plain
    obtain ⟨whole,fraction,shape,pointed,digits,length⟩ := positional_parts nonzero exponent
    have laidOut : positional (Nat.toDigits 10 n) ((Nat.toDigits 10 n).length + exponent) true =
        withPoint whole fraction ++ ((none : Option Exponent).map Exponent.chars).getD [] := by
      rw [shape,withPoint,if_neg (by simpa using pointed.continues)]
      simp
    refine ⟨whole,fraction,none,laidOut,isNumeral_of_isPointed pointed,?_⟩
    have noPower : powerOf none = 0 := rfl
    have real : (none : Option Exponent) = none → fraction ≠ [] := fun _ => pointed.continues
    unfold shown
    dsimp only
    by_cases isWhole : 0 ≤ exponent
    · rw [if_pos ⟨isWhole,plain.2⟩]
      have next : (exponent + 1).toNat = exponent.toNat + 1 := by omega
      exact ⟨digits.trans (by rw [next]),by rw [noPower]; dsimp only; omega,real,fun short => absurd rfl short⟩
    · rw [if_neg (by omega)]
      have next : (exponent + 1).toNat = 0 := by omega
      rw [next,pow_zero,Nat.mul_one] at digits
      exact ⟨digits,by rw [noPower]; dsimp only; omega,real,fun short => absurd rfl short⟩
  · have notWhole : ¬ (0 ≤ exponent ∧ (Nat.toDigits 10 n).length + exponent ≤ 16) := by
      simp only [Bool.and_eq_true,decide_eq_true_eq] at plain
      omega
    obtain ⟨whole,fraction,power,shape,isNumeral,shows⟩ := scientific_spec nonzero exponent
    refine ⟨whole,fraction,some power,shape,isNumeral,?_⟩
    unfold shown
    rwa [if_neg notWhole]

theorem ofParts_of_shows {decimal : Digits} {whole fraction : List Char} {power : Option Exponent}
    (shows : Shows decimal whole fraction power) (fits : decimal.digits < 2 ^ 64)
    (small : decimal.exponent.natAbs < 2 ^ 30) (minus : Bool) :
    ofParts minus whole fraction power = ofReal minus (scaled decimal.digits decimal.exponent) := by
  obtain ⟨digits,exponent,real,short⟩ := shows
  have total := digits
  rw [digitsValue_append] at total
  have least : digitsValue whole ≤ 10 ^ fraction.length * digitsValue whole := Nat.le_mul_of_pos_left _ (by positivity)
  have front : gather 0 whole = (digitsValue whole,whole.length) := by
    have taken : gather 0 whole = (10 ^ whole.length * 0 + digitsValue whole,whole.length) := gather_of_fits (by omega)
    rw [taken,Nat.mul_zero,Nat.zero_add]
  have back : gather (digitsValue whole) fraction = (decimal.digits,fraction.length) := by
    rw [gather_of_fits (total.trans_lt fits),total]
  have notWhole : ¬ (whole.length - whole.length = 0 && fraction.isEmpty && power.isNone) = true := by
    simp only [Nat.sub_self,decide_true,Bool.true_and,Bool.and_eq_true,List.isEmpty_iff,Option.isNone_iff_eq_none]
    exact fun ⟨empty,noPower⟩ => real noPower empty
  unfold ofParts
  rw [front]
  dsimp only
  rw [if_neg notWhole,back,Nat.sub_self]
  cases power with
  | none =>
    have same : ((0 : ℕ) : ℤ) - fraction.length = decimal.exponent := exponent
    dsimp only [withExponent]
    rw [same]
  | some power =>
    obtain ⟨below,size⟩ := power
    have fewer : (Nat.toDigits 10 decimal.digits).length ≤ 20 :=
      (Nat.length_toDigits_le_iff (by simp) (by simp)).mpr (fits.trans (by simp))
    have shorter := short (by simp)
    simp only [powerOf,Exponent.value,Option.map_some,Option.getD_some] at exponent
    have within : ¬ 2147483647 < digitsValue size := by split_ifs at exponent <;> omega
    have same : (if below then ((0 : ℕ) : ℤ) - fraction.length - digitsValue size
        else ((0 : ℕ) : ℤ) - fraction.length + digitsValue size) = decimal.exponent := by
      split_ifs at exponent ⊢ <;> omega
    dsimp only [withExponent]
    rw [if_neg within,same]

def printed (value : Binary) : Digits :=
  if value.mantissa = 0 then ⟨0,-1⟩ else shown (value.shortest .toEven)

private theorem finite_spec {value : Binary} (canonical : value.IsCanonical) : ∃ whole fraction power,
    Form.json.finite value = withPoint whole fraction ++ (power.map Exponent.chars).getD [] ∧
      IsNumeral whole fraction power ∧ Shows (printed value) whole fraction power := by
  unfold Form.finite printed
  split_ifs with zero
  · exact ⟨['0'],['0'],none,rfl,⟨by simp,.inl rfl,by simp,by simp⟩,⟨rfl,rfl,by simp,by simp⟩⟩
  · have covers := value.covers_shortest (Nat.pos_of_ne_zero zero) .toEven
    exact layout_spec (digits_ne_zero_of_covers canonical (Nat.pos_of_ne_zero zero) covers)

end Number

/-- A finite double is written as a number with its sign, any other one as `null`. -/
theorem chars_json (value : Float) :
    ((∀ magnitude, kind value ≠ .finite magnitude) ∧ Form.json.chars value = "null".toList) ∨
    ∃ magnitude whole fraction power, kind value = .finite magnitude ∧ Number.IsNumeral whole fraction power ∧
      Number.Shows (Number.printed magnitude) whole fraction power ∧
      Form.json.chars value = Number.numeral (isNegative value) whole fraction power := by
  unfold Form.chars
  cases sort : kind value with
  | nan => exact .inl ⟨nofun,rfl⟩
  | infinite => exact .inl ⟨nofun,rfl⟩
  | finite magnitude =>
    obtain ⟨whole,fraction,power,shape,isNumeral,shows⟩ := Number.finite_spec (isCanonical_of_kind sort).1
    exact .inr ⟨magnitude,whole,fraction,power,rfl,isNumeral,shows,congrArg _ shape⟩

end PinnedMap.Json
