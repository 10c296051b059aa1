import PinnedMap.Proofs.Toml.Number
import PinnedMap.Proofs.Toml.Quoting

/-! Written values are read as they were: texts, numbers, and arrays of what is read itself. -/
namespace PinnedMap.Toml

theorem Stops.apart {rest : List Char} (stops : Stops rest) {c : Char}
    (other : c ≠ '\n' ∧ c ≠ ',' ∧ c ≠ ']') :
    rest.head? ≠ some c := by
  obtain ⟨d,after,rfl,ends⟩ := stops
  intro same
  have head : d = c := Option.some.inj same
  subst head
  rcases ends with rfl | rfl | rfl <;> simp_all

namespace Value

private theorem readText_double {chars : List Char} (single : ∀ after, chars ≠ '"' :: '"' :: after) :
    readText ('"' :: chars) = ofText Quoting.basic.read ('"' :: chars) := by
  unfold readText
  split <;> simp_all

private theorem readText_single {chars : List Char} (single : ∀ after, chars ≠ '\'' :: '\'' :: after) :
    readText ('\'' :: chars) = ofText Quoting.literal.read ('\'' :: chars) := by
  unfold readText
  split <;> simp_all

private theorem not_three {quote : Char} {body rest : List Char} (front : body.head? ≠ some quote)
    (back : rest.head? ≠ some quote) (after : List Char) : body ++ quote :: rest ≠ quote :: quote :: after := by
  intro same
  cases body with
  | nil =>
    rw [List.nil_append] at same
    exact back (by rw [(List.cons.inj same).2]; rfl)
  | cons c body => exact front (by rw [(List.cons.inj same).1]; rfl)

private theorem basic_head (text : List Char) : (Quoting.basic.bodyText 0 text).head? ≠ some '"' := by
  cases text with
  | nil => exact nofun
  | cons c text =>
    have escapes : Quoting.basic.Escapes := ⟨rfl,rfl⟩
    rw [Quoting.bodyText]
    split_ifs with quote lines
    · exact absurd lines (by decide)
    · simp
    · obtain ⟨d,others,shape,head⟩ := Quoting.shown_head escapes c
      have noQuote : c ≠ '"' := by simpa [Quoting.basic] using quote
      rw [shape]
      rcases head with rfl | ⟨rfl,_⟩
      · simp
      · simpa using noQuote

private theorem readText_of_read {form : Quoting} {text : String} {chars rest : List Char}
    (dispatch : readText chars = ofText form.read chars)
    (read : form.read chars = some (String.ofList text.toList,rest)) :
    readText chars = some (.text text,rest) := by
  rw [dispatch,ofText,read,String.ofList_toList]
  rfl

private theorem readText_quoted (text : String) {rest : List Char} (stops : Stops rest) :
    readText (quoted text ++ rest) = some (.text text,rest) := by
  have noDouble := stops.apart (by simp : '"' ≠ '\n' ∧ '"' ≠ ',' ∧ '"' ≠ ']')
  have noSingle := stops.apart (by simp : '\'' ≠ '\n' ∧ '\'' ≠ ',' ∧ '\'' ≠ ']')
  unfold quoted
  rcases Quoting.ofText_cases text.toList with form | form | ⟨form,noQuote,plain⟩ | ⟨form,visible,few⟩
  · rw [form]
    refine readText_of_read ?_ (Quoting.read_basic text.toList rest)
    unfold Quoting.write
    rw [List.append_assoc,List.append_assoc,List.append_assoc]
    exact readText_double (not_three (basic_head _) noDouble)
  · rw [form]
    exact readText_of_read rfl (Quoting.read_basicLines text.toList noDouble)
  · rw [form]
    refine readText_of_read ?_ (Quoting.read_literal noQuote plain rest)
    have front : text.toList.head? ≠ some '\'' := fun same => noQuote (List.mem_of_head? same)
    unfold Quoting.write
    rw [List.append_assoc,List.append_assoc,List.append_assoc,Quoting.bodyText_raw rfl]
    exact readText_single (not_three front noSingle)
  · rw [form]
    exact readText_of_read rfl (Quoting.read_literalLines visible few noSingle)

private theorem readWithin_plain {c : Char} (noArray : c ≠ '[') (noTable : c ≠ '\x7b') (limit depth : Nat)
    (rest : List Char) :
    readWithin (limit + 1) depth (c :: rest) = readPlain (c :: rest) := by
  rw [readWithin.eq_def]
  split <;> simp_all

def Begins (c : Char) : Prop := isSpace c = false ∧ c ≠ '\n' ∧ c ≠ '\r' ∧ c ≠ '#' ∧ c ≠ ']'

instance (c : Char) : Decidable (Begins c) :=
  inferInstanceAs (Decidable (isSpace c = false ∧ c ≠ '\n' ∧ c ≠ '\r' ∧ c ≠ '#' ∧ c ≠ ']'))

private theorem begins_of_digit {c : Char} (digit : c.isDigit = true) : Begins c := by
  have noSpace : isSpace c = false := by
    unfold isSpace
    simp [digit_ne digit (by simp : ' '.isDigit = false),digit_ne digit (by simp : '\t'.isDigit = false)]
  exact ⟨noSpace,digit_ne digit (by simp),digit_ne digit (by simp),digit_ne digit (by simp),digit_ne digit (by simp)⟩

/-- The characters are read as the value, whatever comes after it, where so many brackets may open. -/
structure IsWritten (depth : Nat) (chars : List Char) (value : Value) : Prop where
  begins : ∃ c rest, chars = c :: rest ∧ Begins c
  reads : ∀ {rest}, Stops rest → ∀ limit, chars.length ≤ limit →
    readWithin limit depth (chars ++ rest) = some (value,rest)

private theorem isWritten_of_plain {depth : Nat} {c : Char} {chars : List Char} {value : Value} (begins : Begins c)
    (noArray : c ≠ '[') (noTable : c ≠ '\x7b')
    (reads : ∀ {rest}, Stops rest → readPlain (c :: chars ++ rest) = some (value,rest)) :
    IsWritten depth (c :: chars) value := by
  refine ⟨⟨c,chars,rfl,begins⟩,fun stops limit enough => ?_⟩
  cases limit with
  | zero => simp at enough
  | succ limit =>
    rw [List.cons_append,readWithin_plain noArray noTable]
    exact reads stops

theorem isWritten_number (depth : Nat) (value : Float) : IsWritten depth (number value) (.decimal value) := by
  obtain ⟨c,chars,shape,head⟩ := number_head value
  have apart : Begins c ∧ c ≠ '[' ∧ c ≠ '\x7b' := by
    rcases head with digit | rfl | rfl | rfl
    · exact ⟨begins_of_digit digit,digit_ne digit (by simp),digit_ne digit (by simp)⟩
    · decide
    · decide
    · decide
  rw [shape]
  refine isWritten_of_plain apart.1 apart.2.1 apart.2.2 fun stops => ?_
  rw [← shape]
  exact readPlain_number value stops

private theorem quoted_head (text : String) : ∃ c chars, quoted text = c :: chars ∧ (c = '"' ∨ c = '\'') := by
  unfold quoted
  rcases Quoting.ofText_cases text.toList with form | form | ⟨form,_⟩ | ⟨form,_⟩
  · rw [form]
    exact ⟨'"',_,rfl,.inl rfl⟩
  · rw [form]
    exact ⟨'"',_,rfl,.inl rfl⟩
  · rw [form]
    exact ⟨'\'',_,rfl,.inr rfl⟩
  · rw [form]
    exact ⟨'\'',_,rfl,.inr rfl⟩

theorem isWritten_quoted (depth : Nat) (text : String) : IsWritten depth (quoted text) (.text text) := by
  obtain ⟨c,chars,shape,head⟩ := quoted_head text
  have read : ∀ {rest}, Stops rest → readText (c :: chars ++ rest) = some (.text text,rest) := by
    intro rest stops
    rw [← shape]
    exact readText_quoted text stops
  rw [shape]
  rcases head with rfl | rfl
  · exact isWritten_of_plain (by decide) (by decide) (by decide) read
  · exact isWritten_of_plain (by decide) (by decide) (by decide) read

private theorem skipGap_begins {c : Char} (begins : Begins c) (rest : List Char) :
    skipGap false (c :: rest) = c :: rest := by
  obtain ⟨noSpace,noLine,noReturn,noComment,_⟩ := begins
  rw [skipGap.eq_def]
  split <;> simp_all

private theorem readItems_comma {c : Char} (more : c ≠ ']') {limit depth : Nat} {chars after rest : List Char}
    {item : Value} {items : List Value} (first : readWithin limit depth (c :: chars) = some (item,',' :: after))
    (others : readItems limit depth (skipGap false after) = some (items,rest)) :
    readItems (limit + 1) depth (c :: chars) = some (item :: items,rest) := by
  have comma : skipGap false (',' :: after) = ',' :: after := skipGap_begins (by decide) after
  rw [readItems.eq_def]
  split
  next => contradiction
  next same => exact absurd (List.cons.inj same).1 more
  next same _ =>
    cases same
    rw [first]
    simp only [Option.bind_eq_bind,Option.bind_some,comma]
    rw [others]
    rfl

private theorem readItems_last {c : Char} (more : c ≠ ']') {limit depth : Nat} {chars rest : List Char} {item : Value}
    (first : readWithin limit depth (c :: chars) = some (item,']' :: rest)) :
    readItems (limit + 1) depth (c :: chars) = some ([item],rest) := by
  have bracket : skipGap false (']' :: rest) = ']' :: rest := rfl
  rw [readItems.eq_def]
  split
  next => contradiction
  next same => exact absurd (List.cons.inj same).1 more
  next same _ =>
    cases same
    rw [first]
    simp only [Option.bind_eq_bind,Option.bind_some,bracket]
    rfl

abbrev itemLine (item : List Char) : List Char := "    ".toList ++ item ++ [',','\n']

private theorem readItems_lines {depth : Nat} {items : List (List Char)} {values : List Value}
    (each : List.Forall₂ (IsWritten depth) items values) (rest : List Char) (limit : Nat)
    (enough : (items.flatMap itemLine).length < limit) :
    readItems limit depth (skipGap false (items.flatMap itemLine ++ ']' :: rest)) = some (values,rest) := by
  induction each generalizing limit with
  | nil =>
    cases limit with
    | zero => contradiction
    | succ limit => rfl
  | @cons item value items values written _ ih =>
    cases limit with
    | zero => contradiction
    | succ limit =>
      obtain ⟨c,more,shape,begins⟩ := written.begins
      simp only [List.flatMap_cons,List.length_append,List.length_cons] at enough
      have line : skipGap false ((item :: items).flatMap itemLine ++ ']' :: rest) =
          item ++ ',' :: '\n' :: (items.flatMap itemLine ++ ']' :: rest) := by
        have indented : (item :: items).flatMap itemLine ++ ']' :: rest =
            ' ' :: ' ' :: ' ' :: ' ' :: (item ++ ',' :: '\n' :: (items.flatMap itemLine ++ ']' :: rest)) := by simp
        rw [indented,shape]
        exact skipGap_begins begins _
      have stops : Stops (',' :: '\n' :: (items.flatMap itemLine ++ ']' :: rest)) := ⟨',',_,rfl,by simp⟩
      have read := written.reads stops limit (by omega)
      rw [line]
      rw [shape,List.cons_append] at read ⊢
      exact readItems_comma begins.2.2.2.2 read (ih limit (by omega))

private theorem readWithin_array {limit depth : Nat} {chars rest : List Char} {items : List Value}
    (read : readItems limit depth (skipGap false chars) = some (items,rest)) :
    readWithin (limit + 1) (depth + 1) ('[' :: chars) = some (.array items,rest) := by
  rw [readWithin,read]
  rfl

theorem isWritten_array {depth : Nat} {items : List (List Char)} {values : List Value}
    (each : List.Forall₂ (IsWritten depth) items values) :
    IsWritten (depth + 1) (Toml.array items) (.array values) := by
  refine ⟨?_,fun {rest} stops limit enough => ?_⟩
  · rcases items with _ | ⟨item,_ | ⟨next,items⟩⟩ <;> exact ⟨'[',_,rfl,by decide⟩
  · cases each with
    | nil =>
      obtain ⟨more,rfl⟩ : ∃ more, limit = more + 2 := ⟨limit - 2,by simp [Toml.array] at enough; omega⟩
      exact readWithin_array rfl
    | @cons item value items values written each =>
      cases each with
      | nil =>
        obtain ⟨more,rfl⟩ : ∃ more, limit = more + 2 := ⟨limit - 2,by simp [Toml.array] at enough; omega⟩
        obtain ⟨c,chars,shape,begins⟩ := written.begins
        have shown : Toml.array [item] ++ rest = '[' :: (item ++ ']' :: rest) := by simp [Toml.array]
        have stops : Stops (']' :: rest) := ⟨']',_,rfl,by simp⟩
        have read := written.reads stops more (by simp [Toml.array] at enough; omega)
        rw [shown]
        rw [shape,List.cons_append] at read ⊢
        apply readWithin_array
        rw [skipGap_begins begins]
        exact readItems_last begins.2.2.2.2 read
      | @cons next value' items values written' each =>
        obtain ⟨more,rfl⟩ : ∃ more, limit = more + 1 := ⟨limit - 1,by simp [Toml.array] at enough; omega⟩
        have shown : Toml.array (item :: next :: items) ++ rest =
            '[' :: '\n' :: ((item :: next :: items).flatMap itemLine ++ ']' :: rest) := by
          change '[' :: '\n' :: ((item :: next :: items).flatMap itemLine ++ [']'] ++ rest) = _
          rw [List.append_assoc]
          rfl
        rw [shown]
        refine readWithin_array (readItems_lines (.cons written (.cons written' each)) rest more ?_)
        simp [Toml.array] at enough
        simp
        omega

end Value
end PinnedMap.Toml
