import PinnedMap.Proofs.Decimal.Positional
import PinnedMap.Proofs.Text.Digits
import PinnedMap.Timestamp.Reading

/-! A moment is read from its written form, whatever its year and however fine its second is told. -/
namespace PinnedMap.Timestamp

open Decimal

/-- A day of the calendar within the years that are kept, and a time of day. -/
structure IsMoment (time : Timestamp) : Prop where
  date : time.day.isValid = true
  years : isWithinYears time.day = true
  hour : time.hour < 24
  minute : time.minute < 60
  second : time.second ≤ 60
  nanos : time.nanos < 10 ^ 9

private theorem isDigit_padded (width n : Nat) : ∀ c ∈ padded width n, c.isDigit := by
  intro c member
  rcases List.mem_append.mp member with zero | digit
  · rw [(List.mem_replicate.mp zero).2]
    rfl
  · exact Nat.isDigit_of_mem_toDigits (by simp) (by simp) digit

private theorem digitsValue_padded (width n : Nat) : digitsValue (padded width n) = n := by
  rw [padded,digitsValue_append,digitsValue_zeros,digitsValue_toDigits]
  simp

private theorem length_padded (width n : Nat) (positive : 0 < width) (fits : n < 10 ^ width) :
    (padded width n).length = width := by
  have short := (Nat.length_toDigits_le_iff (by simp) positive).mpr fits
  simp only [padded,List.length_append,List.length_replicate]
  omega

private theorem padded_cons (width n : Nat) : ∃ c rest, padded width n = c :: rest ∧ c.isDigit := by
  have some : padded width n ≠ [] := by simp [padded]
  obtain ⟨c,rest,front⟩ := List.exists_cons_of_ne_nil some
  exact ⟨c,rest,front,isDigit_padded width n c (by simp [front])⟩

private theorem trimStart_visible {c : Char} (visible : Text.isBlank c = false) (rest : List Char) :
    Text.trimStart (c :: rest) = c :: rest :=
  List.dropWhile_cons_of_neg (by simp [visible])

private theorem number_digits {width? : Option Nat} {digits rest : List Char} (something : digits ≠ [])
    (digit : ∀ c ∈ digits, c.isDigit) (stops : ∀ c ∈ rest.head?, c.isDigit = false)
    (room : ∀ most ∈ width?, digits.length ≤ most) :
    number width? (digits ++ rest) = .ok (digitsValue digits,rest) := by
  obtain ⟨c,tail,rfl⟩ := List.exists_cons_of_ne_nil something
  unfold number
  rw [Text.takeWhile_digits digit stops]
  cases width? with
  | none => exact congrArg (fun rest => Except.ok (_,rest)) List.drop_left
  | some most =>
    dsimp only
    rw [List.take_of_length_le (room most rfl)]
    exact congrArg (fun rest => Except.ok (_,rest)) List.drop_left

private theorem number_padded (width? : Option Nat) (width n : Nat)
    (room : ∀ most ∈ width?, (padded width n).length ≤ most)
    {rest : List Char} (stops : ∀ c ∈ rest.head?, c.isDigit = false) :
    number width? (padded width n ++ rest) = .ok (n,rest) := by
  have read := number_digits (by simp [padded]) (isDigit_padded width n) stops room
  rwa [digitsValue_padded] at read

private theorem trimStart_padded (width n : Nat) (rest : List Char) :
    Text.trimStart (padded width n ++ rest) = padded width n ++ rest := by
  obtain ⟨c,tail,front,digit⟩ := padded_cons width n
  rw [front]
  exact trimStart_visible (Text.isBlank_of_isDigit digit) _

private theorem bind_of_ok {ε α β : Type} {first : Except ε α} (value : α) (result : first = .ok value)
    {next : α → Except ε β} : first >>= next = next value := by
  rw [result]
  rfl

private theorem part_padded {least most n : Nat} (above : least ≤ n) (below : n ≤ most) (short : most < 100)
    {rest : List Char}
    (stops : ∀ c ∈ rest.head?, c.isDigit = false) : part least most (padded 2 n ++ rest) = .ok (n,rest) := by
  have two := length_padded 2 n (by simp) (by omega)
  unfold part
  rw [trimStart_padded,number_padded (some 2) 2 n (by simp [two]) stops]
  change (if (decide (least ≤ n) && decide (n ≤ most)) = true then _ else _) = _
  rw [if_pos (by simp [above,below])]
  rfl

private theorem separated_padded {separator : Char} (visible : Text.isBlank separator = false) {least most n : Nat}
    (above : least ≤ n) (below : n ≤ most) (short : most < 100) {rest : List Char}
    (stops : ∀ c ∈ rest.head?, c.isDigit = false) :
    separated separator least most (separator :: (padded 2 n ++ rest)) = .ok (n,rest) := by
  unfold separated
  rw [trimStart_visible visible,literal,if_pos rfl]
  exact part_padded above below short stops

private theorem year_yearText {number : ℤ} (fits : -0x80000000 ≤ number ∧ number ≤ 0x7fffffff) {rest : List Char}
    (stops : ∀ c ∈ rest.head?, c.isDigit = false) : year (yearText number ++ rest) = .ok (number,rest) := by
  have within : (decide (-0x80000000 ≤ number) && decide (number ≤ 0x7fffffff)) = true := by simp [fits]
  unfold yearText
  split_ifs with usual below
  · simp only [Bool.and_eq_true,decide_eq_true_eq] at usual
    have four := length_padded 4 number.toNat (by simp) (by omega)
    have read := number_padded (some 4) 4 number.toNat (by simpa using four.le) stops
    obtain ⟨c,tail,front,digit⟩ := padded_cons 4 number.toNat
    unfold year
    rw [trimStart_padded]
    rw [front] at read ⊢
    split
    next same => cases same; cases digit
    next same => cases same; cases digit
    next =>
      refine (bind_of_ok (number,rest) ?_).trans (if_pos within)
      rw [read]
      exact congrArg (fun n => Except.ok (n,rest)) (Int.toNat_of_nonneg usual.1)
  · have read := number_padded none 4 number.natAbs (by simp) stops
    refine (bind_of_ok (number,rest) ((congrArg (Except.map _) read).trans ?_)).trans (if_pos within)
    exact congrArg (fun n => Except.ok (n,rest)) (by omega)
  · have read := number_padded none 4 number.natAbs (by simp) stops
    refine (bind_of_ok (number,rest) ((congrArg (Except.map _) read).trans ?_)).trans (if_pos within)
    exact congrArg (fun n => Except.ok (n,rest)) (by omega)

private theorem fraction_padded {width n : Nat} (positive : 0 < width) (nine : width ≤ 9) (fits : n < 10 ^ width)
    {rest : List Char} (stops : ∀ c ∈ rest.head?, c.isDigit = false) :
    fraction ('.' :: (padded width n ++ rest)) = .ok (10 ^ (9 - width) * n,rest) := by
  have digits := Text.takeWhile_digits (isDigit_padded width n) stops
  have others := Text.dropWhile_digits (isDigit_padded width n) stops
  have length := length_padded width n positive fits
  change (if ((padded width n ++ rest).takeWhile Char.isDigit).isEmpty then _
    else Except.ok (digitsValue (((padded width n ++ rest).takeWhile Char.isDigit ++
      List.replicate (9 - ((padded width n ++ rest).takeWhile Char.isDigit).length) '0').take 9),
      (padded width n ++ rest).dropWhile Char.isDigit)) = _
  rw [digits,others,if_neg (by simp [padded]),List.take_of_length_le (by simp [length]; omega),digitsValue_append,
    digitsValue_zeros,digitsValue_padded,length,List.length_replicate,Nat.add_zero]

private theorem fraction_fractionText {nanos : Nat} (fits : nanos < 10 ^ 9) {rest : List Char}
    (stops : ∀ c ∈ rest.head?, c.isDigit = false) (noPoint : ∀ c ∈ rest.head?, c ≠ '.') :
    fraction (fractionText nanos ++ rest) = .ok (nanos,rest) := by
  have value {width n : Nat} (same : 10 ^ (9 - width) * n = nanos) :
      Except.ok (ε := Fault) (10 ^ (9 - width) * n,rest) = .ok (nanos,rest) := by rw [same]
  unfold fractionText
  split_ifs with whole milli micro
  · rw [whole,List.nil_append]
    unfold fraction
    split
    next => exact absurd rfl (noPoint _ rfl)
    next => rfl
  · exact (fraction_padded (by simp) (by simp) (by omega) stops).trans (value (by omega))
  · exact (fraction_padded (by simp) (by simp) (by omega) stops).trans (value (by omega))
  · exact (fraction_padded (by simp) (by simp) (by omega) stops).trans (value (by omega))

private theorem earlier_zero {time : Timestamp} (hour : time.hour < 24) (minute : time.minute < 60) :
    time.earlier 0 = time := by
  have within : ¬ ((time.hour * 60 + time.minute : Nat) : ℤ) - 0 < 0 := by omega
  have sameDay : ¬ 1440 ≤ ((time.hour * 60 + time.minute : Nat) : ℤ) - 0 := by omega
  have rest : ((((time.hour * 60 + time.minute : Nat) : ℤ) - 0) % 1440).toNat = time.hour * 60 + time.minute := by
    omega
  unfold earlier
  dsimp only
  rw [if_neg within,if_neg sameDay,rest]
  have hours : (time.hour * 60 + time.minute) / 60 = time.hour := by omega
  have minutes : (time.hour * 60 + time.minute) % 60 = time.minute := by omega
  rw [hours,minutes]

/-- A moment is read back from its text. -/
theorem ofChars_chars {time : Timestamp} (isMoment : time.IsMoment) : ofChars time.chars = .ok time := by
  obtain ⟨⟨year,month,day⟩,hour,minute,second,nanos⟩ := time
  obtain ⟨valid,within,beforeDay,beforeHour,upToLeap,fits⟩ := isMoment
  dsimp only at *
  have date := valid
  simp only [Day.isValid,Bool.and_eq_true,decide_eq_true_eq] at date
  have dayShort : day ≤ 31 := by
    refine date.2.trans ?_
    unfold Day.monthLength
    split
    · split_ifs <;> simp
    all_goals simp
  have yearFits : -0x80000000 ≤ year ∧ year ≤ 0x7fffffff := by
    rw [isWithinYears,Bool.and_eq_true,decide_eq_true_eq,decide_eq_true_eq] at within
    change -262143 ≤ year ∧ year ≤ 262142 at within
    omega
  have fractionStops : ∀ c ∈ (fractionText nanos ++ ['Z']).head?, c.isDigit = false := by
    unfold fractionText
    split_ifs <;> simp
  have shape : chars ⟨⟨year,month,day⟩,hour,minute,second,nanos⟩ = yearText year ++ '-' :: (padded 2 month ++
      '-' :: (padded 2 day ++ 'T' :: (padded 2 hour ++ ':' :: (padded 2 minute ++ ':' :: (padded 2 second ++
      (fractionText nanos ++ ['Z'])))))) := by
    simp [chars]
  have zeroAhead : zone (Text.trimStart ['Z']) = .ok (0,[]) := rfl
  unfold ofChars
  rw [shape]
  refine (bind_of_ok _ (year_yearText yearFits (by simp))).trans ?_
  refine (bind_of_ok _ (separated_padded (by decide) date.1.1.1 date.1.1.2 (by simp) (by simp))).trans ?_
  refine (bind_of_ok _ (separated_padded (by decide) date.1.2 dayShort (by simp) (by simp))).trans ?_
  refine (bind_of_ok _ (part_padded (by simp) (by omega) (by simp) (by simp))).trans ?_
  refine (bind_of_ok _ (separated_padded (by decide) (by simp) (by omega) (by simp) (by simp))).trans ?_
  refine (bind_of_ok _ (separated_padded (by decide) (by simp) upToLeap (by simp) fractionStops)).trans ?_
  refine (bind_of_ok _ (fraction_fractionText fits (by simp) (by simp))).trans ?_
  refine (bind_of_ok _ zeroAhead).trans ?_
  refine (if_neg (by decide)).trans ?_
  refine (if_neg (by simp [valid,within])).trans ?_
  dsimp only
  rw [earlier_zero beforeDay beforeHour]
  exact if_pos within

end PinnedMap.Timestamp
