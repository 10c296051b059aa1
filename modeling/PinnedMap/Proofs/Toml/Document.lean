import PinnedMap.Proofs.Toml.Value

/-! Written lines are read as pairs, and written tables as sections in their order. -/
namespace PinnedMap.Toml

def IsBareName (name : String) : Prop := name.toList ≠ [] ∧ ∀ c ∈ name.toList, isBare c = true

instance (name : String) : Decidable (IsBareName name) :=
  @instDecidableAnd _ _ inferInstance (List.decidableBAll _ name.toList)

private theorem ne_of_isBare {c : Char} (bare : isBare c = true) {other : Char} (none : isBare other = false) :
    c ≠ other := by
  rintro rfl
  rw [bare] at none
  contradiction

private theorem isSpace_of_isBare {c : Char} (bare : isBare c = true) : isSpace c = false := by
  unfold isSpace
  simp [ne_of_isBare bare (by decide : isBare ' ' = false),ne_of_isBare bare (by decide : isBare '\t' = false)]

private theorem skipSpace_cons {c : Char} (other : isSpace c = false) (rest : List Char) :
    skipSpace (c :: rest) = c :: rest :=
  List.dropWhile_cons_of_neg (by simp [other])

theorem IsBareName.begins {name : String} (bare : IsBareName name) :
    ∃ c rest, name.toList = c :: rest ∧ isBare c = true := by
  obtain ⟨some,each⟩ := bare
  cases shape : name.toList with
  | nil => contradiction
  | cons c rest => exact ⟨c,rest,rfl,each c (by simp [shape])⟩

theorem IsBareName.skipSpace_append {name : String} (bare : IsBareName name) (rest : List Char) :
    skipSpace (name.toList ++ rest) = name.toList ++ rest := by
  obtain ⟨c,more,shape,first⟩ := bare.begins
  rw [shape]
  exact skipSpace_cons (isSpace_of_isBare first) _

private theorem name?_append {name : String} (bare : IsBareName name) {c : Char} (other : isBare c = false)
    (rest : List Char) :
    name? (name.toList ++ c :: rest) = some (name,c :: rest) := by
  have taken : (name.toList ++ c :: rest).takeWhile isBare = name.toList := by
    rw [List.takeWhile_append_of_pos bare.2,List.takeWhile_cons_of_neg (by simp [other]),List.append_nil]
  have left : (name.toList ++ c :: rest).dropWhile isBare = c :: rest := by
    rw [List.dropWhile_append_of_pos bare.2,List.dropWhile_cons_of_neg (by simp [other])]
  have read : bareName? (name.toList ++ c :: rest) = some (name,c :: rest) := by
    unfold bareName?
    rw [taken,left]
    simp [bare.1]
  obtain ⟨d,more,shape,first⟩ := bare.begins
  have noDouble := ne_of_isBare first (by decide : isBare '"' = false)
  have noSingle := ne_of_isBare first (by decide : isBare '\'' = false)
  rw [shape] at read ⊢
  unfold name?
  split
  next same => exact absurd (List.cons.inj same).1 noDouble
  next same => exact absurd (List.cons.inj same).1 noSingle
  next => exact read

namespace Key

private theorem readWithin_last {name : String} (bare : IsBareName name) {c : Char} (other : isBare c = false)
    {rest after : List Char} {d : Char} (next : skipSpace (c :: rest) = d :: after) (noDot : d ≠ '.') (limit : Nat) :
    readWithin (limit + 1) (name.toList ++ c :: rest) = some (⟨[],name⟩,d :: after) := by
  rw [readWithin,bare.skipSpace_append,name?_append bare other]
  simp only [Option.bind_eq_bind,Option.bind_some,next]
  split
  next same => exact absurd (List.cons.inj same).1 noDot
  next => rfl

private theorem readWithin_dot {name : String} (bare : IsBareName name) {limit : Nat} {rest after : List Char}
    {key : Key} (inner : readWithin limit rest = some (key,after)) :
    readWithin (limit + 1) (name.toList ++ '.' :: rest) = some (⟨name :: key.outer,key.name⟩,after) := by
  have dot : skipSpace ('.' :: rest) = '.' :: rest := skipSpace_cons (by decide) rest
  rw [readWithin,bare.skipSpace_append,name?_append bare (by decide)]
  simp only [Option.bind_eq_bind,Option.bind_some,dot]
  rw [inner]
  rfl

private theorem readAssigned_line {name : String} (bare : IsBareName name) {c : Char} (value : isSpace c = false)
    (rest : List Char) :
    readAssigned (name.toList ++ (" = ".toList ++ c :: rest)) = some (⟨[],name⟩,c :: rest) := by
  have read : read (name.toList ++ ' ' :: '=' :: ' ' :: c :: rest) = some (⟨[],name⟩,'=' :: ' ' :: c :: rest) :=
    readWithin_last bare (by decide) rfl (by decide) _
  have space : skipSpace (' ' :: c :: rest) = c :: rest := skipSpace_cons value rest
  change readAssigned (name.toList ++ ' ' :: '=' :: ' ' :: c :: rest) = _
  unfold readAssigned
  rw [read]
  simp only [Option.bind_eq_bind,Option.bind_some,space]
  rfl

end Key

def IsLine (chars : List Char) (pair : Pair) : Prop :=
  ∃ name value, chars = line name value ∧ pair.1 = ⟨[],name⟩ ∧ IsBareName name ∧
    Value.IsWritten depthLimit value pair.2

theorem isLine_line {name : String} (bare : IsBareName name) {chars : List Char} {value : Value}
    (written : Value.IsWritten depthLimit chars value) : IsLine (line name chars) (⟨[],name⟩,value) :=
  ⟨name,chars,rfl,rfl,bare,written⟩

private theorem readPair_line {chars : List Char} {pair : Pair} (isLine : IsLine chars pair) (rest : List Char) :
    readPair (chars ++ rest) = some (pair,rest) := by
  obtain ⟨name,value,rfl,key,bare,written⟩ := isLine
  obtain ⟨c,more,shape,begins⟩ := written.begins
  have together : line name value ++ rest = name.toList ++ (" = ".toList ++ c :: (more ++ '\n' :: rest)) := by
    rw [line,shape]
    simp
  have stops : Stops ('\n' :: rest) := ⟨'\n',rest,rfl,.inl rfl⟩
  have read : Value.read (c :: (more ++ '\n' :: rest)) = some (pair.2,'\n' :: rest) := by
    have whole := written.reads stops (2 * (value ++ '\n' :: rest).length + 1) (by rw [List.length_append]; omega)
    rw [shape] at whole
    exact whole
  have ended : lineEnd? ('\n' :: rest) = some rest := rfl
  rw [together,readPair,Key.readAssigned_line bare begins.1]
  simp only [Option.bind_eq_bind,Option.bind_some,read]
  rw [ended]
  simp [← key]

theorem IsLine.begins {chars : List Char} {pair : Pair} (isLine : IsLine chars pair) :
    ∃ c rest, chars = c :: rest ∧ isBare c = true := by
  obtain ⟨name,value,rfl,_,bare,_⟩ := isLine
  obtain ⟨c,more,shape,first⟩ := bare.begins
  exact ⟨c,more ++ (" = ".toList ++ value ++ ['\n']),by simp [line,shape],first⟩

private theorem readPairs_pair {c : Char} (bare : isBare c = true) {limit : Nat} {chars rest after : List Char}
    {pair : Pair} {pairs : List Pair} (first : readPair (c :: chars) = some (pair,rest))
    (others : readPairs limit rest = some (pairs,after)) :
    readPairs (limit + 1) (c :: chars) = some (pair :: pairs,after) := by
  have here : skipSpace (c :: chars) = c :: chars := skipSpace_cons (isSpace_of_isBare bare) chars
  have noTable := ne_of_isBare bare (by decide : isBare '[' = false)
  have noComment := ne_of_isBare bare (by decide : isBare '#' = false)
  have noLine := ne_of_isBare bare (by decide : isBare '\n' = false)
  have noReturn := ne_of_isBare bare (by decide : isBare '\r' = false)
  rw [readPairs,here]
  split
  next same => contradiction
  next same => exact absurd (List.cons.inj same).1 noTable
  next same =>
    cases same
    rw [if_neg (by simp [noComment,noLine,noReturn]),first]
    simp only [Option.bind_eq_bind,Option.bind_some,others]
    rfl

/-- What comes after the lines of a table, and where the next header begins. -/
def Closes (rest after : List Char) : Prop :=
  (rest = [] ∧ after = []) ∨ ∃ header, rest = '\n' :: '[' :: header ∧ after = '[' :: header

private theorem readPairs_lines {lines : List (List Char)} {pairs : List Pair}
    (each : List.Forall₂ IsLine lines pairs) {rest after : List Char} (closes : Closes rest after) (limit : Nat)
    (enough : (lines.flatten ++ rest).length < limit) :
    readPairs limit (lines.flatten ++ rest) = some (pairs,after) := by
  induction each generalizing limit with
  | nil =>
    rcases closes with ⟨rfl,rfl⟩ | ⟨header,rfl,rfl⟩
    · obtain ⟨more,rfl⟩ : ∃ more, limit = more + 1 := ⟨limit - 1,by omega⟩
      rfl
    · obtain ⟨more,rfl⟩ : ∃ more, limit = more + 2 := ⟨limit - 2,by simp at enough; omega⟩
      rfl
  | @cons chars pair lines pairs isLine _ ih =>
    obtain ⟨more,rfl⟩ : ∃ more, limit = more + 1 := ⟨limit - 1,by omega⟩
    obtain ⟨c,others,shape,bare⟩ := isLine.begins
    have read := readPair_line isLine (lines.flatten ++ rest)
    have shorter : (lines.flatten ++ rest).length < more := by
      rw [List.flatten_cons,List.append_assoc,List.length_append,shape,List.length_cons] at enough
      omega
    rw [List.flatten_cons,List.append_assoc]
    rw [shape,List.cons_append] at read ⊢
    exact readPairs_pair bare read (ih more shorter)

def IsTable (chars : List Char) (part : Section) : Prop :=
  ∃ header lines, chars = '[' :: header ++ lines.flatten ∧ List.Forall₂ IsLine lines part.pairs ∧
    ∀ rest, Header.read ('[' :: header ++ rest) = some (part.header,rest)

theorem isTable_table {name : String} (bare : IsBareName name) {lines : List (List Char)} {pairs : List Pair}
    (each : List.Forall₂ IsLine lines pairs) : IsTable (table name lines) ⟨.table ⟨[],name⟩,pairs⟩ := by
  refine ⟨name.toList ++ [']','\n'],lines,rfl,each,fun rest => ?_⟩
  have key : Key.read (name.toList ++ ']' :: '\n' :: rest) = some (⟨[],name⟩,']' :: '\n' :: rest) :=
    Key.readWithin_last bare (by decide) rfl (by decide) _
  have ended : lineEnd? ('\n' :: rest) = some rest := rfl
  have together : '[' :: (name.toList ++ [']','\n']) ++ rest = '[' :: (name.toList ++ ']' :: '\n' :: rest) := by simp
  obtain ⟨c,more,shape,first⟩ := bare.begins
  have single := ne_of_isBare first (by decide : isBare '[' = false)
  rw [together]
  unfold Header.read
  split
  next same =>
    rw [shape] at same
    exact absurd (List.cons.inj (List.cons.inj same).2).1 single
  next same =>
    rw [← (List.cons.inj same).2,key]
    simp only [Option.bind_eq_bind,Option.bind_some,ended]
    rfl
  next _ other => exact absurd rfl (other _)

theorem isTable_element {outer name : String} (bare : IsBareName outer) (bare' : IsBareName name)
    {lines : List (List Char)} {pairs : List Pair} (each : List.Forall₂ IsLine lines pairs) :
    IsTable (element (outer ++ "." ++ name) lines) ⟨.element ⟨[outer],name⟩,pairs⟩ := by
  refine ⟨'[' :: (outer ++ "." ++ name).toList ++ [']',']','\n'],lines,rfl,each,fun rest => ?_⟩
  have inner : Key.readWithin (depthLimit - 1) (name.toList ++ ']' :: ']' :: '\n' :: rest) =
      some (⟨[],name⟩,']' :: ']' :: '\n' :: rest) := Key.readWithin_last bare' (by decide) rfl (by decide) _
  have key : Key.read (outer.toList ++ '.' :: (name.toList ++ ']' :: ']' :: '\n' :: rest)) =
      some (⟨[outer],name⟩,']' :: ']' :: '\n' :: rest) := Key.readWithin_dot bare inner
  have ended : lineEnd? ('\n' :: rest) = some rest := rfl
  have together : '[' :: ('[' :: (outer ++ "." ++ name).toList ++ [']',']','\n']) ++ rest =
      '[' :: '[' :: (outer.toList ++ '.' :: (name.toList ++ ']' :: ']' :: '\n' :: rest)) := by simp
  rw [together]
  unfold Header.read
  simp only [key,Option.bind_eq_bind,Option.bind_some,ended]
  rfl

private theorem readSections_cons {text rest after : List Char} {header : Header} {pairs : List Pair}
    {sections : List Section} (first : Header.read ('[' :: text) = some (header,rest))
    (inner : readPairs (rest.length + 1) rest = some (pairs,after))
    {limit : Nat} (others : readSections limit after = some sections) :
    readSections (limit + 1) ('[' :: text) = some (⟨header,pairs⟩ :: sections) := by
  rw [readSections,first]
  · simp only [Option.bind_eq_bind,Option.bind_some,inner,others]
    rfl
  · exact List.cons_ne_nil _ _

private theorem tables_begins {chars : List Char} {part : Section} (isTable : IsTable chars part)
    (parts : List (List Char)) :
    ∃ text, tables (chars :: parts) = '[' :: text := by
  obtain ⟨header,lines,rfl,_⟩ := isTable
  cases parts with
  | nil => exact ⟨_,rfl⟩
  | cons next parts => exact ⟨_,rfl⟩

private theorem readSections_tables {parts : List (List Char)} {sections : List Section}
    (each : List.Forall₂ IsTable parts sections) (limit : Nat) (enough : (tables parts).length < limit) :
    readSections limit (tables parts) = some sections := by
  induction each generalizing limit with
  | nil =>
    obtain ⟨more,rfl⟩ : ∃ more, limit = more + 1 := ⟨limit - 1,by omega⟩
    rfl
  | @cons chars part parts sections isTable others ih =>
    obtain ⟨more,rfl⟩ : ∃ more, limit = more + 1 := ⟨limit - 1,by omega⟩
    obtain ⟨header,lines,rfl,each,read⟩ := isTable
    cases others with
    | nil =>
      have pairs := readPairs_lines each (.inl ⟨rfl,rfl⟩) _ (Nat.lt_succ_self _)
      rw [List.append_nil] at pairs
      have left : (tables []).length < more := by
        change ('[' :: (header ++ lines.flatten)).length < more + 1 at enough
        rw [List.length_cons] at enough
        exact Nat.lt_of_le_of_lt (Nat.zero_le _) (Nat.lt_of_succ_lt_succ enough)
      exact readSections_cons (read _) pairs (ih more left)
    | @cons next part' parts sections isTable' others =>
      obtain ⟨text,begins⟩ := tables_begins isTable' parts
      have together : tables (('[' :: header ++ lines.flatten) :: next :: parts) =
          '[' :: header ++ (lines.flatten ++ '\n' :: tables (next :: parts)) := by
        change '[' :: header ++ lines.flatten ++ ['\n'] ++ tables (next :: parts) = _
        simp
      have closes : Closes ('\n' :: tables (next :: parts)) (tables (next :: parts)) := by
        rw [begins]
        exact .inr ⟨text,rfl,rfl⟩
      have pairs := readPairs_lines each closes _ (Nat.lt_succ_self _)
      rw [together] at enough ⊢
      rw [List.length_append,List.length_append,List.length_cons,List.length_cons] at enough
      exact readSections_cons (read _) pairs (ih more (by omega))

/-- Tables have nothing in front of the first of them. -/
theorem ofChars_tables {parts : List (List Char)} {sections : List Section} (some : parts ≠ [])
    (each : List.Forall₂ IsTable parts sections) : Document.ofChars (tables parts) = .some ⟨[],sections⟩ := by
  have read := readSections_tables each _ (Nat.lt_succ_self _)
  cases each with
  | nil => contradiction
  | @cons chars part parts sections first _ =>
    obtain ⟨text,begins⟩ := tables_begins first parts
    rw [begins] at read ⊢
    have top : readPairs (('[' :: text).length + 1) ('[' :: text) = .some ([],'[' :: text) := rfl
    unfold Document.ofChars
    split
    next same => exact absurd (List.cons.inj same).1 (by simp)
    next =>
      simp only [Option.bind_eq_bind]
      rw [top,Option.bind_some,read]
      rfl

end PinnedMap.Toml
