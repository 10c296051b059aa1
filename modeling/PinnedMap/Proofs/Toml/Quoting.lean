import Mathlib.Tactic.Common
import PinnedMap.Toml.Quoting

/-! Each form of string gives back the text that was written in it: the forms with escapes any text, the others the
texts that `Quoting.ofText` chooses them for. -/
namespace PinnedMap.Toml.Quoting

/-- The characters are read as a text, however much may be read, and others are left. -/
def Reads (form : Quoting) (chars text after : List Char) : Prop :=
  ∀ limit, chars.length < limit → form.body limit chars = some (text,after)

def IsApart (form : Quoting) (chars : List Char) : Prop := chars.head? ≠ some form.quote

namespace Reads

variable {form : Quoting} {chars text after : List Char}

private theorem plain {c : Char} (noQuote : c ≠ form.quote) (noEscape : form.hasEscapes = true → c ≠ '\\')
    (plain : isPlain c = true) (rest : form.Reads chars text after) : form.Reads (c :: chars) (c :: text) after := by
  intro limit enough
  cases limit with
  | zero => simp at enough
  | succ limit =>
    have backslash : ¬ (form.hasEscapes && decide (c = '\\')) = true := by simpa using noEscape
    rw [body,if_neg noQuote,if_neg backslash,if_pos plain,rest limit (by simpa using enough)]
    rfl

private theorem newline (lines : form.isMultiline = true) (noQuote : form.quote ≠ '\n')
    (rest : form.Reads chars text after) :
    form.Reads ('\n' :: chars) ('\n' :: text) after := by
  intro limit enough
  cases limit with
  | zero => simp at enough
  | succ limit =>
    have backslash : ¬ (form.hasEscapes && decide ('\n' = '\\')) = true := by simp
    rw [body,if_neg noQuote.symm,if_neg backslash,if_neg (by decide),if_pos lines]
    have next : newline? ('\n' :: chars) = some chars := rfl
    rw [next]
    simp only [Option.bind_eq_bind,Option.bind_some]
    rw [rest limit (by simpa using enough)]
    rfl

private theorem escaped (shown : List Char) (escapes : form.hasEscapes = true) (noQuote : form.quote ≠ '\\')
    {c d : Char} (visible : isSpace c = false ∧ c ≠ '\n' ∧ c ≠ '\r')
    (escape : escape? (c :: shown ++ chars) = some (d,chars))
    (rest : form.Reads chars text after) : form.Reads ('\\' :: c :: shown ++ chars) (d :: text) after := by
  intro limit enough
  cases limit with
  | zero => simp at enough
  | succ limit =>
    have backslash : (form.hasEscapes && decide ('\\' = '\\')) = true := by simpa using escapes
    have noJoin : (if form.isMultiline then newline? (skipSpace (c :: shown ++ chars)) else none) = none := by
      have here : skipSpace (c :: shown ++ chars) = c :: (shown ++ chars) :=
        List.dropWhile_cons_of_neg (by simp [visible.1])
      rw [here]
      split
      · unfold newline?
        split <;> simp_all
      · rfl
    simp only [List.length_cons,List.length_append] at enough
    rw [List.cons_append,body,if_neg noQuote.symm,if_pos backslash,noJoin,escape]
    simp only [Option.bind_eq_bind,Option.bind_some]
    rw [rest limit (by omega)]
    rfl

private theorem letter (escapes : form.hasEscapes = true) (noQuote : form.quote ≠ '\\') {c d : Char}
    (visible : isSpace c = false ∧ c ≠ '\n' ∧ c ≠ '\r') (escape : escape? (c :: chars) = some (d,chars))
    (rest : form.Reads chars text after) : form.Reads ('\\' :: c :: chars) (d :: text) after :=
  escaped [] escapes noQuote visible escape rest

private theorem takeWhile_run {quote : Char} (other : chars.head? ≠ some quote) (run : Nat) :
    (List.replicate run quote ++ chars).takeWhile (· = quote) = List.replicate run quote := by
  have inside : ∀ c ∈ List.replicate run quote, decide (c = quote) = true := by simp +contextual
  rw [List.takeWhile_append_of_pos inside]
  cases chars with
  | nil => simp
  | cons c chars => simp_all

private theorem quotes (lines : form.isMultiline = true) (apart : form.IsApart chars) {run : Nat} (few : run < 3)
    (rest : form.Reads chars text after) :
    form.Reads (List.replicate run form.quote ++ chars) (List.replicate run form.quote ++ text) after := by
  intro limit enough
  cases run with
  | zero => exact rest limit (by simpa using enough)
  | succ run =>
    cases limit with
    | zero => simp at enough
    | succ limit =>
      have counted := takeWhile_run apart run
      rw [List.replicate_succ,List.cons_append] at enough ⊢
      simp only [List.length_cons,List.length_append,List.length_replicate] at enough
      rw [body,if_pos rfl,if_neg (by simp [lines])]
      simp only [counted,List.length_replicate]
      rw [if_pos few,Nat.add_sub_cancel,List.drop_left' (by simp),rest limit (by omega)]
      rfl

private theorem closed (lines : form.isMultiline = true) (apart : form.IsApart after) {run : Nat} (few : run < 3) :
    form.Reads (List.replicate run form.quote ++ (form.delimiter ++ after))
    (List.replicate run form.quote) after := by
  intro limit enough
  cases limit with
  | zero => simp at enough
  | succ limit =>
    have together : List.replicate run form.quote ++ (form.delimiter ++ after) =
        form.quote :: (List.replicate (run + 2) form.quote ++ after) := by
      unfold delimiter
      rw [if_pos lines,← List.append_assoc,List.replicate_append_replicate]
      rfl
    have counted := takeWhile_run apart (run + 2)
    rw [together,body,if_pos rfl,if_neg (by simp [lines])]
    simp only [counted,List.length_replicate]
    have all : min (run + 2 + 1 - 3) 2 = run := by omega
    have used : min (run + 2 + 1) 5 - 1 = run + 2 := by omega
    rw [if_neg (by omega),all,used,List.drop_left' (by simp)]

private theorem ended (line : form.isMultiline = false) : form.Reads (form.delimiter ++ after) [] after := by
  intro limit enough
  cases limit with
  | zero => simp at enough
  | succ limit =>
    unfold delimiter
    rw [if_neg (by simp [line]),List.replicate_one,List.singleton_append,body,if_pos rfl,if_pos (by simp [line])]

end Reads

private theorem codePoint_upperHex {c : Char} (small : c.toNat < 128) (rest : List Char) :
    codePoint 4 (upperHex 4 c.toNat ++ rest) = some (c,rest) := by
  have all : ∀ n < 128, (upperHex 4 n).length = 4 ∧ Text.hexValue? (upperHex 4 n) = some n ∧
      Text.scalar? n = some (Char.ofNat n) := by decide
  obtain ⟨four,value,scalar⟩ := all c.toNat small
  have counted : (guard ((upperHex 4 c.toNat).length = 4) : Option Unit) = some () := if_pos four
  unfold codePoint
  rw [List.take_left' four,List.drop_left' four]
  dsimp only
  rw [counted,value]
  simp only [Option.bind_eq_bind,Option.bind_some,scalar,Char.ofNat_toNat]
  rfl

private theorem isControl_small {c : Char} (control : isControl c = true) : c.toNat < 128 := by
  unfold isControl at control
  simp only [Bool.or_eq_true,decide_eq_true_eq] at control
  omega

private theorem isPlain_of_not_control {c : Char} (visible : isControl c = false) : isPlain c = true := by
  unfold isControl at visible
  unfold isPlain
  simp only [Bool.or_eq_false_iff,decide_eq_false_iff_not,Nat.not_lt] at visible
  simp only [Bool.or_eq_true,decide_eq_true_eq,Bool.and_eq_true]
  exact .inr ⟨visible.1,visible.2⟩

def Escapes (form : Quoting) : Prop := form.quote = '"' ∧ form.hasEscapes = true

variable {form : Quoting}

theorem shown_head (escapes : form.Escapes) (c : Char) :
    ∃ d rest, form.shown c = d :: rest ∧ (d = '\\' ∨ d = c ∧ c ≠ '\r') := by
  unfold Quoting.shown
  rw [if_neg (by simp [escapes.2])]
  split
  · exact ⟨_,_,rfl,.inl rfl⟩
  · exact ⟨_,_,rfl,.inl rfl⟩
  · exact ⟨_,_,rfl,.inl rfl⟩
  · exact ⟨_,_,rfl,.inl rfl⟩
  · exact ⟨_,_,rfl,.inl rfl⟩
  · split_ifs
    · exact ⟨_,_,rfl,.inr ⟨rfl,by simp⟩⟩
    · exact ⟨_,_,rfl,.inl rfl⟩
  · next noReturn _ =>
    split_ifs
    · exact ⟨_,_,rfl,.inl rfl⟩
    · exact ⟨_,_,rfl,.inr ⟨rfl,noReturn⟩⟩

theorem Reads.shown (escapes : form.Escapes) {c : Char} (noQuote : c ≠ '"') {chars text after : List Char}
    (rest : form.Reads chars text after) : form.Reads (form.shown c ++ chars) (c :: text) after := by
  obtain ⟨quote,escapes⟩ := escapes
  have backslash : form.quote ≠ '\\' := by rw [quote]; decide
  unfold Quoting.shown
  rw [if_neg (by simp [escapes])]
  split
  · exact rest.letter escapes backslash (by decide) rfl
  · exact rest.letter escapes backslash (by decide) rfl
  · exact rest.letter escapes backslash (by decide) rfl
  · exact rest.letter escapes backslash (by decide) rfl
  · exact rest.letter escapes backslash (by decide) rfl
  · split_ifs with lines
    · exact rest.newline lines (by rw [quote]; decide)
    · exact rest.letter escapes backslash (by decide) rfl
  · next noBackslash _ _ _ _ _ =>
    split_ifs with control
    · exact rest.escaped _ escapes backslash (by decide) (codePoint_upperHex (isControl_small control) _)
    · exact rest.plain (by rw [quote]; exact noQuote) (fun _ => noBackslash)
        (isPlain_of_not_control (by simpa using control))

private theorem reads_basic (text rest : List Char) :
    basic.Reads (basic.bodyText 0 text ++ (basic.delimiter ++ rest)) text rest := by
  have escapes : basic.Escapes := ⟨rfl,rfl⟩
  induction text with
  | nil => exact Reads.ended rfl
  | cons c text ih =>
    rw [bodyText]
    split_ifs with quote lines
    · exact absurd lines (by decide)
    · have same : c = '"' := by simp at quote; exact quote.1
      rw [same]
      exact ih.letter rfl (by decide) (by decide) rfl
    · have noQuote : c ≠ '"' := by simpa [basic] using quote
      rw [List.append_assoc]
      exact ih.shown escapes noQuote

private theorem reads_basicLines {rest : List Char} (apart : basicLines.IsApart rest) (text : List Char) (run : Nat)
    (few : run < 3) :
    basicLines.Reads (List.replicate run '"' ++ (basicLines.bodyText run text ++ (basicLines.delimiter ++ rest)))
      (List.replicate run '"' ++ text) rest := by
  have escapes : basicLines.Escapes := ⟨rfl,rfl⟩
  induction text generalizing run with
  | nil =>
    rw [List.append_nil]
    exact Reads.closed rfl apart few
  | cons c text ih =>
    have next := ih 0 (by simp)
    rw [bodyText]
    split_ifs with quote more
    · have same : c = '"' := by simp at quote; exact quote.1
      have longer := ih (run + 1) (by simp [basicLines] at more; omega)
      rw [List.replicate_succ',List.append_assoc,List.append_assoc] at longer
      rw [same]
      exact longer
    · have same : c = '"' := by simp at quote; exact quote.1
      rw [same]
      exact Reads.quotes rfl (by simp [IsApart,basicLines]) few (next.letter rfl (by decide) (by decide) rfl)
    · have noQuote : c ≠ '"' := by simpa [basicLines] using quote
      obtain ⟨d,others,shape,head⟩ := shown_head escapes c
      have apart : d ≠ '"' := by
        rcases head with rfl | ⟨rfl,_⟩
        · decide
        · exact noQuote
      refine Reads.quotes rfl ?_ few ?_
      · rw [shape]
        simpa [IsApart,basicLines] using apart
      · rw [List.append_assoc]
        exact next.shown escapes noQuote

theorem bodyText_raw (raw : form.hasEscapes = false) (text : List Char) (run : Nat) :
    form.bodyText run text = text := by
  induction text generalizing run with
  | nil => rfl
  | cons c text ih =>
    have shown : form.shown c = [c] := by
      unfold Quoting.shown
      exact if_pos (by simp [raw])
    rw [bodyText,if_neg (by simp [raw]),ih,shown]
    rfl

private theorem isPlain_of_not_hidden {c : Char} (visible : isHidden c = false) (sameLine : c ≠ '\n') :
    isPlain c = true := by
  cases control : isControl c with
  | false => exact isPlain_of_not_control control
  | true =>
    have tab : c = '\t' := by simpa [isHidden,control,sameLine] using visible
    rw [tab]
    rfl

private theorem reads_literal {text : List Char} (noQuote : '\'' ∉ text) (plain : ∀ c ∈ text, isPlain c = true)
    (rest : List Char) :
    literal.Reads (literal.bodyText 0 text ++ (literal.delimiter ++ rest)) text rest := by
  rw [bodyText_raw rfl]
  induction text with
  | nil => exact Reads.ended rfl
  | cons c text ih =>
    have next := ih (fun member => noQuote (by simp [member])) fun d member => plain d (by simp [member])
    have apart : c ≠ '\'' := fun same => noQuote (by simp [same])
    exact next.plain apart (fun escapes => by contradiction) (plain c (by simp))

private theorem le_longestRun (c : Char) (run : Nat) (text : List Char) : run ≤ longestRun c run text := by
  fun_induction longestRun c run text with
  | case1 run => exact Nat.le_refl run
  | case2 run text ih => omega
  | case3 run d text => omega

private theorem not_mem_of_longestRun {c : Char} {run : Nat} {text : List Char} (none : longestRun c run text = 0) :
    c ∉ text := by
  fun_induction longestRun c run text with
  | case1 => simp
  | case2 run text =>
    have := le_longestRun c (run + 1) text
    omega
  | case3 run d text other ih =>
    have := ih (by omega)
    simp [this,Ne.symm other]

private theorem reads_literalLines {rest : List Char} (apart : literalLines.IsApart rest) {text : List Char}
    (visible : ∀ c ∈ text, isHidden c = false) {run : Nat} (few : longestRun '\'' run text ≤ 2) :
    literalLines.Reads (List.replicate run '\'' ++ (literalLines.bodyText 0 text ++ (literalLines.delimiter ++ rest)))
      (List.replicate run '\'' ++ text) rest := by
  rw [bodyText_raw rfl]
  induction text generalizing run with
  | nil =>
    rw [List.append_nil]
    exact Reads.closed rfl apart (Nat.lt_succ_of_le few)
  | cons c text ih =>
    have others : ∀ d ∈ text, isHidden d = false := fun d member => visible d (by simp [member])
    rw [longestRun] at few
    split_ifs at few with quote
    · have longer := ih others few
      rw [List.replicate_succ',List.append_assoc,List.append_assoc] at longer
      rw [quote]
      exact longer
    · have next := ih others (show longestRun '\'' 0 text ≤ 2 by omega)
      apply Reads.quotes rfl (by simpa [IsApart,literalLines] using quote) (by omega)
      by_cases line : c = '\n'
      · rw [line]
        exact next.newline rfl (by decide)
      · exact next.plain quote (fun escapes => by contradiction) (isPlain_of_not_hidden (visible c (by simp)) line)

private theorem without?_append (opening text : List Char) : Text.without? opening (opening ++ text) = some text := by
  induction opening with
  | nil => rfl
  | cons c opening ih => rw [List.cons_append,Text.without?,if_pos rfl,ih]

private theorem skip_start (lines several : Bool) {body : List Char}
    (begins : lines = true → several = false → newline? body = none) :
    (let text := (if lines && several then ['\n'] else []) ++ body
      if lines then (newline? text).getD text else text) = body := by
  cases lines with
  | false => rfl
  | true =>
    cases several with
    | true => rfl
    | false =>
      change (newline? body).getD body = body
      rw [begins rfl rfl]
      rfl

/-- A string is read as its text if its body is. -/
theorem read_write {text rest : List Char}
    (reads : form.Reads (form.bodyText 0 text ++ (form.delimiter ++ rest)) text rest)
    (begins : form.isMultiline = true → '\n' ∉ text →
      newline? (form.bodyText 0 text ++ (form.delimiter ++ rest)) = none) :
    form.read (form.write text ++ rest) = some (String.ofList text,rest) := by
  have start := skip_start form.isMultiline (text.contains '\n') fun lines several =>
    begins lines (by simpa using several)
  dsimp only at start
  unfold read write
  rw [List.append_assoc,List.append_assoc,List.append_assoc,without?_append]
  simp only [Option.bind_eq_bind,Option.bind_some]
  rw [start,reads _ (Nat.lt_succ_self _)]
  rfl

private theorem newline?_of_other {c : Char} (line : c ≠ '\n') (carriage : c ≠ '\r') (rest : List Char) :
    newline? (c :: rest) = none := by
  unfold newline?
  split <;> simp_all

theorem read_basic (text rest : List Char) :
    basic.read (basic.write text ++ rest) = some (String.ofList text,rest) :=
  read_write (reads_basic text rest) fun lines => by contradiction

theorem read_literal {text : List Char} (noQuote : '\'' ∉ text) (plain : ∀ c ∈ text, isPlain c = true)
    (rest : List Char) :
    literal.read (literal.write text ++ rest) = some (String.ofList text,rest) :=
  read_write (reads_literal noQuote plain rest) fun lines => by contradiction

theorem read_basicLines (text : List Char) {rest : List Char} (apart : rest.head? ≠ some '"') :
    basicLines.read (basicLines.write text ++ rest) = some (String.ofList text,rest) := by
  apply read_write (reads_basicLines apart text 0 (by simp))
  intro _ sameLine
  cases text with
  | nil => exact newline?_of_other (by decide) (by decide) _
  | cons c text =>
    rw [bodyText]
    split_ifs with quote more
    · exact newline?_of_other (by simp) (by simp) _
    · exact newline?_of_other (by simp) (by simp) _
    · have escapes : basicLines.Escapes := ⟨rfl,rfl⟩
      obtain ⟨d,others,shape,head⟩ := shown_head escapes c
      rw [shape]
      have notLine : c ≠ '\n' := fun same => sameLine (by simp [same])
      rcases head with rfl | ⟨rfl,carriage⟩
      · exact newline?_of_other (by simp) (by simp) _
      · exact newline?_of_other notLine carriage _

theorem read_literalLines {text : List Char} (visible : ∀ c ∈ text, isHidden c = false)
    (few : longestRun '\'' 0 text ≤ 2) {rest : List Char} (apart : rest.head? ≠ some '\'') :
    literalLines.read (literalLines.write text ++ rest) = some (String.ofList text,rest) := by
  have reads := reads_literalLines apart visible few
  apply read_write reads
  intro _ sameLine
  rw [bodyText_raw rfl]
  cases text with
  | nil => exact newline?_of_other (by decide) (by decide) _
  | cons c text =>
    have notLine : c ≠ '\n' := fun same => sameLine (by simp [same])
    have carriage : c ≠ '\r' := by
      rintro rfl
      exact absurd (visible '\r' (by simp)) (by decide)
    exact newline?_of_other notLine carriage _

/-- The forms, and what is known of the texts in those without escapes. -/
theorem ofText_cases (text : List Char) : ofText text = basic ∨ ofText text = basicLines ∨
    (ofText text = literal ∧ '\'' ∉ text ∧ ∀ c ∈ text, isPlain c = true) ∨
    (ofText text = literalLines ∧ (∀ c ∈ text, isHidden c = false) ∧ longestRun '\'' 0 text ≤ 2) := by
  unfold ofText
  dsimp only
  split_ifs with plain single doubled singled lines
  · exact .inl rfl
  · simp only [Bool.and_eq_true,Bool.not_eq_true',decide_eq_true_eq,List.any_eq_false,Bool.not_eq_true] at single
    obtain ⟨⟨visible,none⟩,sameLine⟩ := single
    have noLine : '\n' ∉ text := by simpa using sameLine
    refine .inr (.inr (.inl ⟨rfl,not_mem_of_longestRun none,fun c member => ?_⟩))
    exact isPlain_of_not_hidden (visible c member) fun same => noLine (same ▸ member)
  · exact .inr (.inl rfl)
  · simp only [Bool.and_eq_true,Bool.not_eq_true',decide_eq_true_eq,List.any_eq_false,Bool.not_eq_true] at singled
    exact .inr (.inr (.inr ⟨rfl,singled.1,singled.2⟩))
  · exact .inr (.inl rfl)
  · exact .inl rfl

end PinnedMap.Toml.Quoting
