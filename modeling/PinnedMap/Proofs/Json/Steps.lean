import Mathlib.Data.List.DropRight
import PinnedMap.Proofs.Json.Lexeme

/-! The steps of the reader of JSON texts: what it makes of the front of a text, and what it leaves. -/
namespace PinnedMap.Json

def IsBlank (text : List Char) : Prop := ∀ c ∈ text, isSpace c = true

theorem skipSpace_blank {before : List Char} (blank : IsBlank before) (text : List Char) :
    skipSpace (before ++ text) = skipSpace text :=
  List.dropWhile_append_of_pos blank

private theorem skipSpace_skipSpace (text : List Char) : skipSpace (skipSpace text) = skipSpace text :=
  List.dropWhile_idempotent _ _

theorem exists_blanks (text : List Char) : ∃ blanks, IsBlank blanks ∧ text = blanks ++ skipSpace text :=
  ⟨text.takeWhile isSpace,fun _ => List.mem_takeWhile_imp,(List.takeWhile_append_dropWhile).symm⟩

theorem skipSpace_blank_cons {before : List Char} (blank : IsBlank before) {c : Char} (visible : isSpace c = false)
    (rest : List Char) : skipSpace (before ++ c :: rest) = c :: rest := by
  rw [skipSpace_blank blank,skipSpace_cons visible]

theorem exists_blanks_cons {text rest : List Char} {c : Char} (visible : skipSpace text = c :: rest) :
    ∃ blanks, IsBlank blanks ∧ text = blanks ++ c :: rest := by
  obtain ⟨blanks,blank,shape⟩ := exists_blanks text
  exact ⟨blanks,blank,visible ▸ shape⟩

namespace Node

/-- What the reader makes of a text that begins with a visible character, and what it leaves of it. -/
inductive Takes (limit : Nat) : List Char → Node → List Char → Prop
  | null {rest} : Takes limit ("null".toList ++ rest) .null rest
  | yes {rest} : Takes limit ("true".toList ++ rest) (.boolean true) rest
  | no {rest} : Takes limit ("false".toList ++ rest) (.boolean false) rest
  | number {text n rest} (reads : Number.read text = some (n,rest)) : Takes limit text (.number n) rest
  | text {text literal rest} (reads : Literal.read limit text = some (literal,rest)) :
      Takes limit ('"' :: text) (.text literal) rest
  | emptyArray {text rest} (ends : skipSpace text = ']' :: rest) : Takes limit ('[' :: text) (.array [] true) rest
  | array {text items rest} (reads : readItems limit text = (items,some rest)) :
      Takes limit ('[' :: text) (.array items true) rest
  | emptyObject {text rest} (ends : skipSpace text = '\x7d' :: rest) :
      Takes limit ('\x7b' :: text) (.object [] true) rest
  | object {text members rest} (reads : readMembers limit text = (members,some rest)) :
      Takes limit ('\x7b' :: text) (.object members true) rest

inductive TakesItems (limit : Nat) : List Char → List Node → List Char → Prop
  | last {text item more rest} (reads : Node.read limit text = (item,some more)) (ends : skipSpace more = ']' :: rest) :
      TakesItems limit text [item] rest
  | comma {text item more after items rest} (reads : Node.read limit text = (item,some more))
      (goesOn : skipSpace more = ',' :: after) (others : readItems limit after = (items,some rest)) :
      TakesItems limit text (item :: items) rest

inductive TakesMembers (limit : Nat) : List Char → List (Literal × Node) → List Char → Prop
  | last {text name key colon under value more rest} (begins : skipSpace text = '"' :: name)
      (isKey : Literal.read limit name = some (key,colon)) (parts : skipSpace colon = ':' :: under)
      (reads : Node.read limit under = (value,some more)) (ends : skipSpace more = '\x7d' :: rest) :
      TakesMembers limit text [(key,value)] rest
  | comma {text name key colon under value more after members rest} (begins : skipSpace text = '"' :: name)
      (isKey : Literal.read limit name = some (key,colon)) (parts : skipSpace colon = ':' :: under)
      (reads : Node.read limit under = (value,some more)) (goesOn : skipSpace more = ',' :: after)
      (others : readMembers limit after = (members,some rest)) : TakesMembers limit text ((key,value) :: members) rest

private theorem ofWord_eq_iff {word : String} {result node : Node} {text rest : List Char} :
    ofWord word result text = (node,some rest) ↔ text = word.toList ++ rest ∧ result = node := by
  rw [ofWord,← Text.without?_eq_some_iff]
  cases Text.without? word.toList text with
  | none => simp
  | some left =>
    simp only [Prod.mk.injEq,Option.some.injEq]
    exact and_comm

theorem read_skipSpace (limit : Nat) (text : List Char) : Node.read limit (skipSpace text) = Node.read limit text := by
  cases limit with
  | zero => rfl
  | succ limit => rw [Node.read,Node.read,skipSpace_skipSpace]

private theorem readItems_skipSpace (limit : Nat) (text : List Char) :
    readItems limit (skipSpace text) = readItems limit text := by
  cases limit with
  | zero => rfl
  | succ limit => rw [readItems,readItems,read_skipSpace]

private theorem readMembers_skipSpace (limit : Nat) (text : List Char) :
    readMembers limit (skipSpace text) = readMembers limit text := by
  cases limit with
  | zero => rfl
  | succ limit => rw [readMembers,readMembers,skipSpace_skipSpace]

private theorem eq_of_told {α : Type} {result other : α} {left rest : List Char}
    (same : (result,some left) = (other,some rest)) : result = other ∧ left = rest :=
  ⟨(Prod.mk.inj same).1,Option.some.inj (Prod.mk.inj same).2⟩

theorem takes_of_read {limit : Nat} {text rest : List Char} {node : Node}
    (reads : Node.read (limit + 1) text = (node,some rest)) : Takes limit (skipSpace text) node rest := by
  rw [Node.read] at reads
  split at reads
  next shape =>
    obtain ⟨rfl,rfl⟩ := ofWord_eq_iff.mp reads
    rw [shape]
    exact .null
  next shape =>
    obtain ⟨rfl,rfl⟩ := ofWord_eq_iff.mp reads
    rw [shape]
    exact .yes
  next shape =>
    obtain ⟨rfl,rfl⟩ := ofWord_eq_iff.mp reads
    rw [shape]
    exact .no
  next shape =>
    rw [shape]
    split at reads
    next found =>
      obtain ⟨rfl,rfl⟩ := eq_of_told reads
      exact .text found
    next => cases (Prod.mk.inj reads).2
  next shape =>
    rw [shape]
    split at reads
    next ends =>
      obtain ⟨rfl,rfl⟩ := eq_of_told reads
      exact .emptyArray ends
    next tail _ _ =>
      rw [readItems_skipSpace] at reads
      obtain ⟨⟨items,left⟩,all⟩ : ∃ result, readItems limit tail = result := ⟨_,rfl⟩
      rw [all] at reads
      obtain ⟨rfl,same⟩ := Prod.mk.inj reads
      obtain rfl : left = some rest := same
      exact .array all
  next shape =>
    rw [shape]
    split at reads
    next ends =>
      obtain ⟨rfl,rfl⟩ := eq_of_told reads
      exact .emptyObject ends
    next tail _ _ =>
      rw [readMembers_skipSpace] at reads
      obtain ⟨⟨members,left⟩,all⟩ : ∃ result, readMembers limit tail = result := ⟨_,rfl⟩
      rw [all] at reads
      obtain ⟨rfl,same⟩ := Prod.mk.inj reads
      obtain rfl : left = some rest := same
      exact .object all
  next =>
    split at reads
    next found =>
      obtain ⟨rfl,rfl⟩ := eq_of_told reads
      exact .number found
    next => cases (Prod.mk.inj reads).2

private theorem readItems_ne_end {limit : Nat} {text tail rest : List Char} {items : List Node}
    (reads : readItems limit text = (items,some rest)) : skipSpace text ≠ ']' :: tail := by
  intro ends
  cases limit with
  | zero => cases reads
  | succ limit =>
    have nothing : Node.read limit text = (.broken,none) := by
      cases limit with
      | zero => rfl
      | succ limit =>
        rw [Node.read,ends]
        rfl
    rw [readItems,nothing] at reads
    cases reads

private theorem readMembers_ne_end {limit : Nat} {text tail rest : List Char} {members : List (Literal × Node)}
    (reads : readMembers limit text = (members,some rest)) : skipSpace text ≠ '\x7d' :: tail := by
  intro ends
  cases limit with
  | zero => cases reads
  | succ limit =>
    rw [readMembers,ends] at reads
    cases reads

theorem read_of_takes {limit : Nat} {text rest : List Char} {node : Node} (takes : Takes limit text node rest) :
    Node.read (limit + 1) text = (node,some rest) := by
  cases takes with
  | null =>
    rw [Node.read]
    exact ofWord_eq_iff.mpr ⟨rfl,rfl⟩
  | yes =>
    rw [Node.read]
    exact ofWord_eq_iff.mpr ⟨rfl,rfl⟩
  | no =>
    rw [Node.read]
    exact ofWord_eq_iff.mpr ⟨rfl,rfl⟩
  | number reads =>
    obtain ⟨c,others,rfl,numeric⟩ := Number.exists_first reads
    rw [read_numeric numeric,reads]
  | text reads => rw [read_quotes,reads]
  | emptyArray ends =>
    rw [Node.read,skipSpace_cons (by decide)]
    simp only [ends]
  | array reads =>
    rw [Node.read,skipSpace_cons (by decide)]
    simp only
    split
    next ends => exact absurd ends (readItems_ne_end reads)
    next =>
      rw [readItems_skipSpace,reads]
      rfl
  | emptyObject ends =>
    rw [Node.read,skipSpace_cons (by decide)]
    simp only [ends]
  | object reads =>
    rw [Node.read,skipSpace_cons (by decide)]
    simp only
    split
    next ends => exact absurd ends (readMembers_ne_end reads)
    next =>
      rw [readMembers_skipSpace,reads]
      rfl

theorem takesItems_of_readItems {limit : Nat} {text rest : List Char} {items : List Node}
    (reads : readItems (limit + 1) text = (items,some rest)) : TakesItems limit text items rest := by
  obtain ⟨⟨item,left⟩,first⟩ : ∃ result, Node.read limit text = result := ⟨_,rfl⟩
  rw [readItems,first] at reads
  cases left with
  | none => cases (Prod.mk.inj reads).2
  | some more =>
    dsimp only at reads
    split at reads
    next after goesOn =>
      obtain ⟨⟨others,left⟩,all⟩ : ∃ result, readItems limit after = result := ⟨_,rfl⟩
      rw [all] at reads
      obtain ⟨rfl,same⟩ := Prod.mk.inj reads
      obtain rfl : left = some rest := same
      exact .comma first goesOn all
    next ends =>
      obtain ⟨rfl,rfl⟩ := eq_of_told reads
      exact .last first ends
    next => cases (Prod.mk.inj reads).2

theorem readItems_of_takesItems {limit : Nat} {text rest : List Char} {items : List Node}
    (takes : TakesItems limit text items rest) : readItems (limit + 1) text = (items,some rest) := by
  cases takes with
  | last reads ends =>
    rw [readItems]
    simp only [reads,ends]
  | comma reads goesOn others =>
    rw [readItems]
    simp only [reads,goesOn,others]

theorem takesMembers_of_readMembers {limit : Nat} {text rest : List Char} {members : List (Literal × Node)}
    (reads : readMembers (limit + 1) text = (members,some rest)) : TakesMembers limit text members rest := by
  rw [readMembers] at reads
  split at reads
  next begins =>
    split at reads
    next => cases (Prod.mk.inj reads).2
    next isKey =>
      split at reads
      next under parts =>
        obtain ⟨⟨value,left⟩,first⟩ : ∃ result, Node.read limit under = result := ⟨_,rfl⟩
        rw [first] at reads
        cases left with
        | none => cases (Prod.mk.inj reads).2
        | some more =>
          dsimp only at reads
          split at reads
          next after goesOn =>
            obtain ⟨⟨others,left⟩,all⟩ : ∃ result, readMembers limit after = result := ⟨_,rfl⟩
            rw [all] at reads
            obtain ⟨rfl,same⟩ := Prod.mk.inj reads
            obtain rfl : left = some rest := same
            exact .comma begins isKey parts first goesOn all
          next ends =>
            obtain ⟨rfl,rfl⟩ := eq_of_told reads
            exact .last begins isKey parts first ends
          next => cases (Prod.mk.inj reads).2
      next => cases (Prod.mk.inj reads).2
  next => cases (Prod.mk.inj reads).2

theorem readMembers_of_takesMembers {limit : Nat} {text rest : List Char} {members : List (Literal × Node)}
    (takes : TakesMembers limit text members rest) : readMembers (limit + 1) text = (members,some rest) := by
  cases takes with
  | last begins isKey parts reads ends =>
    rw [readMembers]
    simp only [begins,isKey,parts,reads,ends]
  | comma begins isKey parts reads goesOn others =>
    rw [readMembers]
    simp only [begins,isKey,parts,reads,goesOn,others]

end Node

end PinnedMap.Json
