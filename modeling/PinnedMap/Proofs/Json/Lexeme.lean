import PinnedMap.Proofs.Json.Number
import PinnedMap.Proofs.Text.Blank

/-! The lexemes of a JSON text. What is read as a number or as a string at the front of a text is read alike wherever it
stands. -/
namespace PinnedMap.Json

namespace Number

def Ends (rest : List Char) : Prop := ∀ c ∈ rest.head?, c.isDigit = false ∧ c ≠ '.' ∧ c ≠ 'e' ∧ c ≠ 'E'

theorem Ends.noDigit {rest : List Char} (ends : Ends rest) : ∀ c ∈ rest.head?, c.isDigit = false :=
  fun c first => (ends c first).1

private theorem forall_mem_takeWhile (text : List Char) : ∀ c ∈ text.takeWhile Char.isDigit, c.isDigit = true :=
  fun _ member => List.mem_takeWhile_imp member

private theorem readWhole_front {text whole rest : List Char} (reads : readWhole text = some (whole,rest)) :
    text = whole ++ rest ∧ (∃ c others, whole = c :: others ∧ c.isDigit = true) ∧
      ∀ after : List Char, (∀ c ∈ after.head?, c.isDigit = false) → readWhole (whole ++ after) = some (whole,after) := by
  unfold readWhole at reads
  dsimp only at reads
  have digits := forall_mem_takeWhile text
  have parts := List.takeWhile_append_dropWhile (p := Char.isDigit) (l := text)
  split at reads
  next => cases reads
  next => cases reads
  next noDigits zero =>
    obtain ⟨rfl,rfl⟩ := Prod.mk.inj (Option.some.inj reads)
    obtain ⟨c,others,front⟩ := List.exists_cons_of_ne_nil noDigits
    refine ⟨parts.symm,⟨c,others,front,digits c (by simp [front])⟩,fun after ends => readWhole_digits digits ?_ ends⟩
    by_cases isZero : c = '0'
    · subst isZero
      cases others with
      | nil => exact .inl front
      | cons d others => exact absurd front (zero d others)
    · exact .inr ⟨c,others,front,isZero⟩

private theorem readFraction_front {text fraction rest : List Char} (reads : readFraction text = some (fraction,rest)) :
    (text = (if fraction.isEmpty then [] else '.' :: fraction) ++ rest) ∧ ∀ c ∈ fraction, c.isDigit = true := by
  unfold readFraction at reads
  split at reads
  next tail =>
    dsimp only at reads
    split_ifs at reads with none
    obtain ⟨rfl,rfl⟩ := Prod.mk.inj (Option.some.inj reads)
    refine ⟨?_,forall_mem_takeWhile tail⟩
    rw [if_neg none,List.cons_append,List.takeWhile_append_dropWhile]
  next =>
    obtain ⟨rfl,rfl⟩ := Prod.mk.inj (Option.some.inj reads)
    exact ⟨rfl,nofun⟩

def unsigned : List Char → Bool × List Char
  | '-' :: rest => (true,rest)
  | '+' :: rest => (false,rest)
  | text => (false,text)

private theorem readExponent_cons {c : Char} (isPower : c = 'e' ∨ c = 'E') (text : List Char) :
    readExponent (c :: text) =
    if ((unsigned text).2.takeWhile Char.isDigit).isEmpty then none
    else some (some ⟨(unsigned text).1,(unsigned text).2.takeWhile Char.isDigit⟩,
      (unsigned text).2.dropWhile Char.isDigit) := by
  fun_cases unsigned text with
  | case1 rest => rcases isPower with rfl | rfl <;> rfl
  | case2 rest => rcases isPower with rfl | rfl <;> rfl
  | case3 noMinus noPlus =>
    rcases isPower with rfl | rfl
    all_goals
      unfold readExponent
      simp only

private theorem readExponent_of_ne {text : List Char} (noPower : ∀ c ∈ text.head?, c ≠ 'e' ∧ c ≠ 'E') :
    readExponent text = some (none,text) := by
  rw [readExponent.eq_def]
  split
  next => exact absurd rfl (noPower _ rfl).1
  next => exact absurd rfl (noPower _ rfl).2
  next => rfl

private theorem exists_sign (text : List Char) : ∃ sign, text = sign ++ (unsigned text).2 ∧ ∀ digits : List Char,
    (∃ c ∈ digits.head?, c.isDigit = true) → unsigned (sign ++ digits) = ((unsigned text).1,digits) := by
  fun_cases unsigned text with
  | case1 rest => exact ⟨['-'],rfl,fun _ _ => rfl⟩
  | case2 rest => exact ⟨['+'],rfl,fun _ _ => rfl⟩
  | case3 =>
    refine ⟨[],rfl,?_⟩
    rintro digits ⟨c,first,digit⟩
    rw [List.nil_append]
    fun_cases unsigned digits with
    | case1 rest =>
      cases first
      cases digit
    | case2 rest =>
      cases first
      cases digit
    | case3 => rfl

private theorem readExponent_front {text rest : List Char} {exponent : Option Exponent}
    (reads : readExponent text = some (exponent,rest)) : ∃ part, text = part ++ rest ∧
      (∀ c ∈ part.head?, c = 'e' ∨ c = 'E') ∧
      ∀ after, Ends after → readExponent (part ++ after) = some (exponent,after) := by
  by_cases powered : ∃ c tail, (c = 'e' ∨ c = 'E') ∧ text = c :: tail
  · obtain ⟨c,tail,isPower,rfl⟩ := powered
    rw [readExponent_cons isPower] at reads
    split_ifs at reads with none
    obtain ⟨rfl,rfl⟩ := Prod.mk.inj (Option.some.inj reads)
    obtain ⟨sign,shape,again⟩ := exists_sign tail
    have digits := forall_mem_takeWhile (unsigned tail).2
    refine ⟨c :: (sign ++ (unsigned tail).2.takeWhile Char.isDigit),?_,by simpa using isPower,fun after ends => ?_⟩
    · rw [List.cons_append,List.append_assoc,List.takeWhile_append_dropWhile,← shape]
    · obtain ⟨d,others,front⟩ := List.exists_cons_of_ne_nil (mt List.isEmpty_iff.mpr none)
      have digit : ∃ c ∈ ((unsigned tail).2.takeWhile Char.isDigit ++ after).head?, c.isDigit = true :=
        ⟨d,by simp [front],digits d (by simp [front])⟩
      rw [List.cons_append,List.append_assoc,readExponent_cons isPower,again _ digit]
      dsimp only
      rw [Text.takeWhile_digits digits ends.noDigit,Text.dropWhile_digits digits ends.noDigit,if_neg none]
  · have noPower : ∀ c ∈ text.head?, c ≠ 'e' ∧ c ≠ 'E' := by
      intro c first
      obtain ⟨tail,rfl⟩ := List.head?_eq_some_iff.mp first
      exact ⟨fun isPower => powered ⟨c,tail,.inl isPower,rfl⟩,fun isPower => powered ⟨c,tail,.inr isPower,rfl⟩⟩
    rw [readExponent_of_ne noPower] at reads
    obtain ⟨rfl,rfl⟩ := Prod.mk.inj (Option.some.inj reads)
    exact ⟨[],rfl,nofun,fun after ends => readExponent_of_ne fun c first => (ends c first).2.2⟩

private theorem read_eq (minus : Bool) {text : List Char} (noSign : minus = false → ∀ c ∈ text.head?, c ≠ '-') :
    read ((if minus then ['-'] else []) ++ text) = do
      let (whole,text) ← readWhole text
      let (fraction,text) ← readFraction text
      let (power,text) ← readExponent text
      return (ofParts minus whole fraction power,text) := by
  cases minus with
  | true => exact read_minus text
  | false => exact read_plain (noSign rfl)

private theorem exists_unsigned (text : List Char) :
    ∃ minus unsigned, text = (if minus then ['-'] else []) ++ unsigned ∧
    (minus = false → ∀ c ∈ unsigned.head?, c ≠ '-') := by
  by_cases signed : ∃ unsigned, text = '-' :: unsigned
  · obtain ⟨unsigned,rfl⟩ := signed
    exact ⟨true,unsigned,rfl,nofun⟩
  · refine ⟨false,text,rfl,fun _ c first => ?_⟩
    rintro rfl
    exact signed (List.head?_eq_some_iff.mp first)

theorem read_front {text rest : List Char} {n : Number} (reads : read text = some (n,rest)) : ∃ lexeme,
    text = lexeme ++ rest ∧ ∀ after, Ends after → read (lexeme ++ after) = some (n,after) := by
  obtain ⟨minus,text,rfl,noSign⟩ := exists_unsigned text
  rw [read_eq minus noSign] at reads
  obtain ⟨⟨whole,afterWhole⟩,isWhole,reads⟩ := Option.bind_eq_some_iff.mp reads
  obtain ⟨⟨fraction,afterFraction⟩,isFraction,reads⟩ := Option.bind_eq_some_iff.mp reads
  obtain ⟨⟨power,afterPower⟩,isPower,reads⟩ := Option.bind_eq_some_iff.mp reads
  obtain ⟨rfl,rfl⟩ := Prod.mk.inj (Option.some.inj reads)
  obtain ⟨rfl,⟨c,others,rfl,digit⟩,wholeAgain⟩ := readWhole_front isWhole
  obtain ⟨rfl,digits⟩ := readFraction_front isFraction
  obtain ⟨part,rfl,begins,powerAgain⟩ := readExponent_front isPower
  refine ⟨(if minus then ['-'] else []) ++ (c :: others ++ ((if fraction.isEmpty then [] else '.' :: fraction) ++ part)),
    by simp,fun after ends => ?_⟩
  have pointed : ∀ c ∈ (part ++ after).head?, c.isDigit = false ∧ c ≠ '.' := by
    intro c first
    cases part with
    | nil => exact ⟨(ends c first).1,(ends c first).2.1⟩
    | cons d part =>
      cases first
      rcases begins c rfl with rfl | rfl <;> decide
  have stops := head_fraction fraction fun c first => (pointed c first).1
  have notMinus : c ≠ '-' := by
    rintro rfl
    cases digit
  have fractionAgain := readFraction_point digits (fun c first => (pointed c first).1) fun c first => (pointed c first).2
  simp only [List.append_assoc]
  rw [read_eq minus (fun _ d first => by cases first; exact notMinus),wholeAgain _ stops]
  simp only [Option.bind_eq_bind,Option.bind_some,fractionAgain,powerAgain after ends]
  rfl

theorem read_again {text : List Char} {n : Number} (reads : read text = some (n,[])) {after : List Char}
    (ends : Ends after) : read (text ++ after) = some (n,after) := by
  obtain ⟨lexeme,shape,again⟩ := read_front reads
  rw [List.append_nil] at shape
  rw [shape]
  exact again after ends

theorem exists_first {text rest : List Char} {n : Number} (reads : read text = some (n,rest)) :
    ∃ c others, text = c :: others ∧ (c = '-' ∨ c.isDigit = true) := by
  obtain ⟨minus,unsigned,rfl,noSign⟩ := exists_unsigned text
  rw [read_eq minus noSign] at reads
  obtain ⟨_,isWhole,_⟩ := Option.bind_eq_some_iff.mp reads
  obtain ⟨rfl,⟨c,others,whole,digit⟩,_⟩ := readWhole_front isWhole
  cases minus with
  | true => exact ⟨'-',_,rfl,.inl rfl⟩
  | false =>
    rw [whole]
    exact ⟨c,_,rfl,.inr digit⟩

end Number

namespace Literal

private theorem unit_quote (inner after : List Char) :
    unit (inner ++ '"' :: after) = (unit inner).map fun (value,rest) => (value,rest ++ '"' :: after) := by
  have noDigit : Text.hexDigit? '"' = none := by decide
  rcases inner with _ | ⟨a,_ | ⟨b,_ | ⟨c,_ | ⟨d,rest⟩⟩⟩⟩
  · rcases after with _ | ⟨_,_ | ⟨_,_ | ⟨_,_⟩⟩⟩ <;> simp [unit,Text.hexValue?,noDigit]
  · rcases after with _ | ⟨_,_ | ⟨_,_⟩⟩ <;> simp [unit,Text.hexValue?,noDigit]
  · rcases after with _ | ⟨_,_⟩ <;> simp [unit,Text.hexValue?,noDigit]
  · simp [unit,Text.hexValue?,noDigit]
  · simp only [List.cons_append,unit]
    cases Text.hexValue? [a,b,c,d] <;> rfl

private theorem nextUnit_quote (inner after : List Char) :
    nextUnit (inner ++ '"' :: after) = (nextUnit inner).map fun (value,rest) => (value,rest ++ '"' :: after) := by
  fun_cases nextUnit inner with
  | case1 rest => exact unit_quote rest after
  | case2 _ noUnit =>
    unfold nextUnit
    split
    next rest shape =>
      match inner with
      | [] => exact absurd (List.cons.inj shape).1 (by decide)
      | [_] => exact absurd (List.cons.inj (List.cons.inj shape).2).1 (by decide)
      | _ :: _ :: inner =>
        obtain ⟨first,shape⟩ := List.cons.inj shape
        obtain ⟨second,_⟩ := List.cons.inj shape
        exact (noUnit inner (by rw [first,second])).elim
    next => rfl

private theorem map_nextUnit_quote (inner after rest : List Char) :
    (nextUnit (inner ++ '"' :: after)).map (·.1) = (nextUnit (inner ++ '"' :: rest)).map (·.1) := by
  rw [nextUnit_quote,nextUnit_quote,Option.map_map,Option.map_map]
  rfl

private theorem nextUnit_front {text rest : List Char} {value : Nat} (next : nextUnit text = some (value,rest)) :
    ∃ a b c d, text = '\\' :: 'u' :: a :: b :: c :: d :: rest ∧ Text.hexValue? [a,b,c,d] = some value := by
  unfold nextUnit at next
  split at next
  next digits =>
    unfold unit at next
    split at next
    next a b c d after =>
      obtain ⟨_,hex,same⟩ := Option.map_eq_some_iff.mp next
      obtain ⟨rfl,rfl⟩ := Prod.mk.inj same
      exact ⟨a,b,c,d,rfl,hex⟩
    next => cases next
  next => cases next

private theorem exists_second {first : Nat} {next : Option Nat} {e : Char}
    (decoded : character first next = (some e,true)) : ∃ second, next = some second := by
  cases next with
  | some second => exact ⟨second,rfl⟩
  | none =>
    unfold character at decoded
    split at decoded <;> simp at decoded

section

variable {a b c d e : Char} {first : Nat} (hex : Text.hexValue? [a,b,c,d] = some first) (limit : Nat) {after : List Char}

include hex

private theorem nextUnit_hex : nextUnit ('\\' :: 'u' :: a :: b :: c :: d :: after) = some (first,after) := by
  rw [nextUnit,unit,hex]
  rfl

private theorem read_unit (decoded : character first ((nextUnit after).map (·.1)) = (some e,false)) :
    read (limit + 1) ('\\' :: 'u' :: a :: b :: c :: d :: after) = (read limit after).map fun (literal,rest) =>
      (literal.cons e,rest) := by
  rw [read.eq_def]
  dsimp only
  rw [if_neg (by decide),if_neg (by decide),if_neg (by simp),nextUnit_hex hex]
  simp only [Option.bind_eq_bind,Option.bind_some,decoded]
  cases read limit after <;> rfl

private theorem read_half {paired : Bool} (decoded : character first ((nextUnit after).map (·.1)) = (none,paired)) :
    read (limit + 1) ('\\' :: 'u' :: a :: b :: c :: d :: after) = (read limit after).map fun (literal,rest) =>
      ({ literal with isText := false },rest) := by
  rw [read.eq_def]
  dsimp only
  rw [if_neg (by decide),if_neg (by decide),if_neg (by simp),nextUnit_hex hex]
  simp only [Option.bind_eq_bind,Option.bind_some,decoded]
  cases read limit after <;> rfl

private theorem read_pair {second : Nat} {others : List Char} (next : nextUnit after = some (second,others))
    (decoded : character first (some second) = (some e,true)) :
    read (limit + 1) ('\\' :: 'u' :: a :: b :: c :: d :: after) = (read limit others).map fun (literal,rest) =>
      (literal.cons e,rest) := by
  rw [read.eq_def]
  dsimp only
  rw [if_neg (by decide),if_neg (by decide),if_neg (by simp),nextUnit_hex hex]
  simp only [Option.bind_eq_bind,Option.bind_some,next,Option.map_some,decoded,Option.getD_some]
  cases read limit others <;> rfl

end

private theorem read_succ {limit : Nat} {text rest : List Char} {literal : Literal}
    (reads : read (limit + 1) text = some (literal,rest)) :
    (text = '"' :: rest ∧ literal = ⟨[],true⟩) ∨
    (∃ c after others, text = c :: after ∧ c ≠ '"' ∧ ¬ c.toNat < 0x20 ∧ c ≠ '\\' ∧
      read limit after = some (others,rest) ∧ literal = others.cons c) ∨
    (∃ shown c after others, text = '\\' :: shown :: after ∧ simpleEscape shown = some c ∧
      read limit after = some (others,rest) ∧ literal = others.cons c) ∨
    ∃ a b c d first after, text = '\\' :: 'u' :: a :: b :: c :: d :: after ∧
      Text.hexValue? [a,b,c,d] = some first := by
  rw [read.eq_def] at reads
  cases text with
  | nil => cases reads
  | cons c text =>
    dsimp only at reads
    split_ifs at reads with isQuote control noBackslash
    · obtain ⟨rfl,rfl⟩ := Prod.mk.inj (Option.some.inj reads)
      exact .inl ⟨by rw [isQuote],rfl⟩
    · obtain ⟨⟨others,_⟩,later,same⟩ := Option.map_eq_some_iff.mp reads
      obtain ⟨rfl,rfl⟩ := Prod.mk.inj same
      exact .inr (.inl ⟨c,text,others,rfl,isQuote,control,noBackslash,later,rfl⟩)
    · obtain rfl := not_ne_iff.mp noBackslash
      split at reads
      next => cases reads
      next tail =>
        obtain ⟨⟨first,after⟩,next,_⟩ := Option.bind_eq_some_iff.mp reads
        obtain ⟨a,b,c,d,shape,hex⟩ := nextUnit_front next
        exact .inr (.inr (.inr ⟨a,b,c,d,first,after,shape,hex⟩))
      next shown tail _ =>
        obtain ⟨c,known,reads⟩ := Option.bind_eq_some_iff.mp reads
        obtain ⟨⟨others,_⟩,later,same⟩ := Option.bind_eq_some_iff.mp reads
        obtain ⟨rfl,rfl⟩ := Prod.mk.inj (Option.some.inj same)
        exact .inr (.inr (.inl ⟨shown,c,tail,others,rfl,known,later,rfl⟩))

/-- With these characters up to its closing quote the string is read, whatever follows. -/
def ReadsWith (literal : Literal) (inner : List Char) : Prop :=
  ∀ after limit, inner.length < limit → read limit (inner ++ '"' :: after) = some (literal,after)

theorem ReadsWith.step {others : Literal} {inner : List Char} (later : others.ReadsWith inner) (front : List Char)
    (change : Literal → Literal) (some : 0 < front.length)
    (step : ∀ after limit, read (limit + 1) (front ++ (inner ++ '"' :: after)) =
      (read limit (inner ++ '"' :: after)).map fun (literal,rest) => (change literal,rest)) :
    (change others).ReadsWith (front ++ inner) := by
  intro after limit enough
  rw [List.length_append] at enough
  obtain ⟨limit,rfl⟩ : ∃ fewer, limit = fewer + 1 := ⟨limit - 1,by omega⟩
  rw [List.append_assoc,step,later after limit (by omega)]
  rfl

private theorem read_front {limit : Nat} {text rest : List Char} {literal : Literal}
    (reads : read limit text = some (literal,rest)) : ∃ inner, text = inner ++ '"' :: rest ∧ literal.ReadsWith inner := by
  induction limit generalizing text literal with
  | zero => cases reads
  | succ limit ih =>
    rcases read_succ reads with ⟨rfl,rfl⟩ | ⟨c,after,others,rfl,noQuote,visible,noBackslash,later,rfl⟩ |
      ⟨shown,c,after,others,rfl,known,later,rfl⟩ | ⟨a,b,c,d,first,after,rfl,hex⟩
    · refine ⟨[],rfl,fun after limit enough => ?_⟩
      obtain ⟨limit,rfl⟩ : ∃ fewer, limit = fewer + 1 := ⟨limit - 1,by simp at enough; omega⟩
      rfl
    · obtain ⟨inner,rfl,again⟩ := ih later
      exact ⟨_,rfl,again.step [c] (·.cons c) (by simp) fun _ limit =>
        read_plain noQuote visible noBackslash limit _⟩
    · obtain ⟨inner,rfl,again⟩ := ih later
      exact ⟨_,rfl,again.step ['\\',shown] (·.cons c) (by simp) fun _ limit => read_simple known limit _⟩
    · rcases decoded : character first ((nextUnit after).map (·.1)) with ⟨_ | e,paired⟩
      · rw [read_half hex limit decoded] at reads
        obtain ⟨⟨others,tail⟩,later,same⟩ := Option.map_eq_some_iff.mp reads
        obtain ⟨rfl,rfl⟩ := Prod.mk.inj same
        obtain ⟨inner,rfl,again⟩ := ih later
        refine ⟨_,rfl,again.step ['\\','u',a,b,c,d] ({ · with isText := false }) (by simp) fun after limit => ?_⟩
        rw [map_nextUnit_quote inner tail after] at decoded
        exact read_half hex limit decoded
      · cases paired with
        | false =>
          rw [read_unit hex limit decoded] at reads
          obtain ⟨⟨others,tail⟩,later,same⟩ := Option.map_eq_some_iff.mp reads
          obtain ⟨rfl,rfl⟩ := Prod.mk.inj same
          obtain ⟨inner,rfl,again⟩ := ih later
          refine ⟨_,rfl,again.step ['\\','u',a,b,c,d] (·.cons e) (by simp) fun after limit => ?_⟩
          rw [map_nextUnit_quote inner tail after] at decoded
          exact read_unit hex limit decoded
        | true =>
          obtain ⟨second,isSecond⟩ := exists_second decoded
          rw [isSecond] at decoded
          obtain ⟨⟨_,tail⟩,next,rfl⟩ := Option.map_eq_some_iff.mp isSecond
          rw [read_pair hex limit next decoded] at reads
          obtain ⟨⟨others,_⟩,later,same⟩ := Option.map_eq_some_iff.mp reads
          obtain ⟨rfl,rfl⟩ := Prod.mk.inj same
          obtain ⟨inner,rfl,again⟩ := ih later
          obtain ⟨a',b',c',d',rfl,hex'⟩ := nextUnit_front next
          exact ⟨_,rfl,again.step ['\\','u',a,b,c,d,'\\','u',a',b',c',d'] (·.cons e) (by simp) fun _ limit =>
            read_pair hex limit (nextUnit_hex hex') decoded⟩

def IsWritten (literal : Literal) (inner : List Char) : Prop :=
  ∃ limit, read limit (inner ++ ['"']) = some (literal,[])

theorem IsWritten.read {literal : Literal} {inner : List Char} (isWritten : literal.IsWritten inner) {limit : Nat}
    (enough : inner.length < limit) (after : List Char) :
    Literal.read limit (inner ++ '"' :: after) = some (literal,after) := by
  obtain ⟨_,reads⟩ := isWritten
  obtain ⟨inner',shape,again⟩ := read_front reads
  obtain rfl := List.append_cancel_right shape
  exact again after limit enough

theorem exists_isWritten {limit : Nat} {text rest : List Char} {literal : Literal}
    (reads : Literal.read limit text = some (literal,rest)) :
    ∃ inner, text = inner ++ '"' :: rest ∧ literal.IsWritten inner := by
  obtain ⟨inner,shape,again⟩ := read_front reads
  exact ⟨inner,shape,inner.length + 1,again [] _ (by omega)⟩

end Literal

end PinnedMap.Json
