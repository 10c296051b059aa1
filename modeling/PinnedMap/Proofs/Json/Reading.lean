import PinnedMap.Json.Codec
import PinnedMap.Proofs.Text.Digits
import PinnedMap.Proofs.Text.Parts

/-! What is written as a string, an array or an object reads as the tree that it was written for. That a text reads
as a tree says so for whatever may follow the text and for every sufficient limit, so that it can be said of the parts
first and then of the whole. -/
namespace PinnedMap.Json

/-- What may follow a value: nothing, or what goes on or ends an array or an object. -/
def Stops (rest : List Char) : Prop := ∀ c ∈ rest.head?, c = ',' ∨ c = ']' ∨ c = '\x7d'

structure Reads (text : List Char) (node : Node) : Prop where
  begins : ∃ c rest, text = c :: rest ∧ isSpace c = false ∧ c ≠ ']'
  read : ∀ rest limit, Stops rest → 2 * text.length ≤ limit → Node.read limit (text ++ rest) = (node,some rest)

theorem skipSpace_cons {c : Char} (visible : isSpace c = false) (rest : List Char) :
    skipSpace (c :: rest) = c :: rest :=
  List.dropWhile_cons_of_neg (by simp [visible])

theorem Reads.document {text : List Char} {node : Node} (reads : Reads text node) :
    Document.ofChars text = ⟨node,true⟩ := by
  have all := reads.read [] (2 * text.length + 2) nofun (by omega)
  rw [List.append_nil] at all
  unfold Document.ofChars
  rw [all]
  rfl

private theorem hex_control : ∀ n < 0x20, ∃ a b c d, Text.hex 4 n = [a,b,c,d] ∧ Text.hexValue? [a,b,c,d] = some n := by
  have digits : ∀ n < 0x20, (Text.hex 4 n).length = 4 ∧ Text.hexValue? (Text.hex 4 n) = some n := by decide
  intro n small
  obtain ⟨four,value⟩ := digits n small
  match shape : Text.hex 4 n, four with
  | [a,b,c,d], _ => exact ⟨a,b,c,d,rfl,shape ▸ value⟩

theorem Literal.read_plain {c : Char} (noQuote : c ≠ '"') (visible : ¬ c.toNat < 0x20) (noBackslash : c ≠ '\\')
    (limit : Nat) (rest : List Char) :
    Literal.read (limit + 1) (c :: rest) = (Literal.read limit rest).map fun (literal,after) =>
      (literal.cons c,after) := by
  rw [Literal.read.eq_def]
  dsimp only
  rw [if_neg noQuote,if_neg visible,if_pos noBackslash]

theorem Literal.read_simple {c shown : Char} (known : simpleEscape shown = some c) (limit : Nat) (rest : List Char) :
    Literal.read (limit + 1) ('\\' :: shown :: rest) = (Literal.read limit rest).map fun (literal,after) =>
      (literal.cons c,after) := by
  have other : shown ≠ 'u' := by
    rintro rfl
    cases known
  rw [Literal.read.eq_def]
  dsimp only
  rw [if_neg (by decide),if_neg (by decide),if_neg (by simp)]
  simp only [known]
  cases Literal.read limit rest <;> rfl

theorem Literal.read_control {c : Char} (control : c.toNat < 0x20) (limit : Nat) (rest : List Char) :
    Literal.read (limit + 1) ('\\' :: 'u' :: Text.hex 4 c.toNat ++ rest) =
      (Literal.read limit rest).map fun (literal,after) => (literal.cons c,after) := by
  obtain ⟨a,b,d,e,shape,value⟩ := hex_control c.toNat control
  have unit : nextUnit ('\\' :: 'u' :: a :: b :: d :: e :: rest) = some (c.toNat,rest) := by
    rw [nextUnit,Literal.unit,value]
    rfl
  have scalar : Text.scalar? c.toNat = some c := by
    have low : c.toNat < 0xD800 := by omega
    rw [Text.scalar?,if_pos (by simp [low]),Char.ofNat_toNat]
  rw [shape]
  simp only [List.cons_append,List.nil_append]
  rw [Literal.read.eq_def]
  dsimp only
  rw [if_neg (by decide),if_neg (by decide),if_neg (by simp),unit]
  simp only [Option.bind_eq_bind,Option.bind_some,character,scalar]
  cases Literal.read limit rest <;> rfl

theorem Literal.read_escape (c : Char) (limit : Nat) (rest : List Char) :
    Literal.read (limit + 1) (escape c ++ rest) = (Literal.read limit rest).map fun (literal,after) =>
      (literal.cons c,after) := by
  unfold escape
  split
  iterate 7 exact read_simple rfl limit rest
  next noQuote noBackslash _ _ _ _ _ =>
    split_ifs with control
    · exact read_control control limit rest
    · exact read_plain noQuote control noBackslash limit rest

theorem Literal.read_quoted (text rest : List Char) {limit : Nat} (enough : (text.flatMap escape).length < limit) :
    Literal.read limit (text.flatMap escape ++ '"' :: rest) = some (⟨text,true⟩,rest) := by
  induction text generalizing limit with
  | nil =>
    obtain ⟨limit,rfl⟩ : ∃ fewer, limit = fewer + 1 := ⟨limit - 1,by simp at enough; omega⟩
    rw [List.flatMap_nil,List.nil_append,Literal.read.eq_def]
    rfl
  | cons c text ih =>
    rw [List.flatMap_cons,List.length_append] at enough
    have shown : 0 < (escape c).length := by
      unfold escape
      split
      iterate 7 simp
      split_ifs <;> simp
    obtain ⟨limit,rfl⟩ : ∃ fewer, limit = fewer + 1 := ⟨limit - 1,by omega⟩
    rw [List.flatMap_cons,List.append_assoc,read_escape,ih (by omega)]
    rfl

theorem Node.read_quotes (limit : Nat) (rest : List Char) :
    Node.read (limit + 1) ('"' :: rest) = match Literal.read limit rest with
      | some (literal,rest) => (.text literal,some rest)
      | none => (.broken,none) := by
  rw [Node.read,skipSpace_cons (by decide)]
  rfl

theorem reads_quote (text : String) : Reads (quote text) (.text (Literal.ofString text)) := by
  refine ⟨⟨'"',_,rfl,by decide,by decide⟩,fun rest limit _ enough => ?_⟩
  have shape : quote text ++ rest = '"' :: (text.toList.flatMap escape ++ '"' :: rest) := by simp [quote]
  have length : (quote text).length = (text.toList.flatMap escape).length + 2 := by simp [quote]
  obtain ⟨limit,rfl⟩ : ∃ fewer, limit = fewer + 1 := ⟨limit - 1,by omega⟩
  rw [shape,Node.read_quotes,Literal.read_quoted text.toList rest (by omega)]
  rfl

private theorem stops_comma (rest : List Char) : Stops (',' :: rest) := by
  intro c first
  exact .inl (Option.some.inj first).symm

private theorem stops_bracket (rest : List Char) : Stops (']' :: rest) := by
  intro c first
  exact .inr (.inl (Option.some.inj first).symm)

private theorem stops_brace (rest : List Char) : Stops ('\x7d' :: rest) := by
  intro c first
  exact .inr (.inr (Option.some.inj first).symm)

theorem Node.readItems_last {limit : Nat} {text rest : List Char} {node : Node}
    (first : Node.read limit text = (node,some (']' :: rest))) :
    Node.readItems (limit + 1) text = ([node],some rest) := by
  rw [Node.readItems,first]
  rfl

theorem Node.readItems_comma {limit : Nat} {text rest after : List Char} {node : Node} {nodes : List Node}
    (first : Node.read limit text = (node,some (',' :: rest)))
    (others : Node.readItems limit rest = (nodes,some after)) :
    Node.readItems (limit + 1) text = (node :: nodes,some after) := by
  rw [Node.readItems,first]
  dsimp only
  rw [skipSpace_cons (by decide)]
  change (node :: (Node.readItems limit rest).1,(Node.readItems limit rest).2) = _
  rw [others]

private theorem readItems_join {texts : List (List Char)} {nodes : List Node} (each : List.Forall₂ Reads texts nodes)
    (some : texts ≠ []) (rest : List Char) {limit : Nat} (enough : 2 * (Text.join [','] texts).length < limit) :
    Node.readItems limit (Text.join [','] texts ++ ']' :: rest) = (nodes,.some rest) := by
  induction each generalizing limit with
  | nil => contradiction
  | @cons text node texts nodes reads others ih =>
    obtain ⟨limit,rfl⟩ : ∃ fewer, limit = fewer + 1 := ⟨limit - 1,by omega⟩
    cases others with
    | nil =>
      rw [Text.join] at enough ⊢
      exact Node.readItems_last (reads.read _ limit (stops_bracket rest) (by omega))
    | @cons next node' texts nodes _ _ =>
      rw [Text.join_cons_cons] at enough ⊢
      simp only [List.length_append,List.length_singleton] at enough
      rw [List.append_assoc,List.append_assoc,List.singleton_append]
      exact Node.readItems_comma (reads.read _ limit (stops_comma _) (by omega)) (ih (by simp) (by omega))

theorem Node.read_array {limit : Nat} {c : Char} {rest after : List Char} {nodes : List Node}
    (visible : isSpace c = false) (notEnd : c ≠ ']') (all : Node.readItems limit (c :: rest) = (nodes,some after)) :
    Node.read (limit + 1) ('[' :: c :: rest) = (.array nodes true,some after) := by
  rw [Node.read,skipSpace_cons (by decide)]
  split
  iterate 4
    next same => exact absurd (List.cons.inj same).1 (by decide)
  next same =>
    cases same
    rw [skipSpace_cons visible]
    split
    next same => exact absurd (List.cons.inj same).1 notEnd
    next =>
      rw [all]
      rfl
  next same => exact absurd (List.cons.inj same).1 (by decide)
  next notBracket _ => exact absurd rfl (notBracket _)

theorem reads_bracket {texts : List (List Char)} {nodes : List Node} (each : List.Forall₂ Reads texts nodes) :
    Reads (bracket texts) (.array nodes true) := by
  refine ⟨⟨'[',_,rfl,by decide,by decide⟩,fun rest limit _ enough => ?_⟩
  have shape : bracket texts ++ rest = '[' :: (Text.join [','] texts ++ ']' :: rest) := by simp [bracket]
  have length : (bracket texts).length = (Text.join [','] texts).length + 2 := by simp [bracket]
  obtain ⟨limit,rfl⟩ : ∃ fewer, limit = fewer + 1 := ⟨limit - 1,by omega⟩
  rw [shape]
  cases each with
  | nil =>
    rw [Node.read,skipSpace_cons (by decide)]
    rfl
  | @cons text node texts nodes reads others =>
    have all := readItems_join (.cons reads others) (by simp) rest (by omega : _ < limit)
    obtain ⟨c,tail,begins,visible,notEnd⟩ := reads.begins
    obtain ⟨after,front⟩ : ∃ after, Text.join [','] (text :: texts) ++ ']' :: rest = c :: after := by
      cases texts <;> simp [Text.join,begins]
    rw [front] at all ⊢
    exact Node.read_array visible notEnd all

def IsMember (text : List Char) (entry : Literal × Node) : Prop :=
  ∃ name value, text = member name value ∧ entry.1 = Literal.ofString name ∧ Reads value entry.2

theorem IsMember.read {text : List Char} {entry : Literal × Node} (isMember : IsMember text entry) (after : List Char)
    {limit : Nat} (enough : 2 * text.length ≤ limit) (stops : Stops after) :
    ∃ value, text ++ after = '"' :: value ∧ ∃ rest, Literal.read limit value = some (entry.1,':' :: rest) ∧
      Node.read limit rest = (entry.2,some after) := by
  obtain ⟨name,value,rfl,key,reads⟩ := isMember
  have length : (member name value).length = (name.toList.flatMap escape).length + value.length + 3 := by
    simp [member,quote]
    omega
  refine ⟨name.toList.flatMap escape ++ '"' :: ':' :: (value ++ after),by simp [member,quote],value ++ after,?_,
    reads.read after limit stops (by omega)⟩
  rw [key]
  exact Literal.read_quoted name.toList _ (by omega)

theorem Node.readMembers_member {limit : Nat} {text value after : List Char} {key : Literal} {node : Node}
    (name : Literal.read limit text = some (key,':' :: value)) (first : Node.read limit value = (node,some after)) :
    (∀ rest, after = '\x7d' :: rest → Node.readMembers (limit + 1) ('"' :: text) = ([(key,node)],some rest)) ∧
    ∀ rest members ends, after = ',' :: rest → Node.readMembers limit rest = (members,some ends) →
      Node.readMembers (limit + 1) ('"' :: text) = ((key,node) :: members,some ends) := by
  obtain ⟨result,all⟩ : ∃ result, Node.readMembers (limit + 1) ('"' :: text) = result := ⟨_,rfl⟩
  rw [all]
  rw [Node.readMembers,skipSpace_cons (by decide)] at all
  split at all
  next same =>
    cases same
    rw [name] at all
    dsimp only at all
    rw [skipSpace_cons (by decide)] at all
    split at all
    next same =>
      cases same
      rw [first] at all
      constructor
      · rintro rest rfl
        exact all.symm
      · rintro rest members ends rfl others
        have both : ((key,node) :: (Node.readMembers limit rest).1,(Node.readMembers limit rest).2) = result := all
        rw [others] at both
        exact both.symm
    next other => exact absurd rfl (other _)
  next other => exact absurd rfl (other _)

private theorem readMembers_join {texts : List (List Char)} {members : List (Literal × Node)}
    (each : List.Forall₂ IsMember texts members) (some : texts ≠ []) (rest : List Char) {limit : Nat}
    (enough : 2 * (Text.join [','] texts).length < limit) :
    Node.readMembers limit (Text.join [','] texts ++ '\x7d' :: rest) = (members,.some rest) := by
  induction each generalizing limit with
  | nil => contradiction
  | @cons text entry texts members isMember others ih =>
    obtain ⟨limit,rfl⟩ : ∃ fewer, limit = fewer + 1 := ⟨limit - 1,by omega⟩
    cases others with
    | nil =>
      rw [Text.join] at enough ⊢
      obtain ⟨value,shape,after,name,first⟩ := isMember.read ('\x7d' :: rest) (by omega : _ ≤ limit) (stops_brace rest)
      rw [shape]
      exact (Node.readMembers_member name first).1 rest rfl
    | @cons next entry' texts members _ _ =>
      rw [Text.join_cons_cons] at enough ⊢
      simp only [List.length_append,List.length_singleton] at enough
      rw [List.append_assoc,List.append_assoc,List.singleton_append]
      obtain ⟨value,shape,after,name,first⟩ := isMember.read (',' :: (Text.join [','] (next :: texts) ++
        '\x7d' :: rest)) (by omega : _ ≤ limit) (stops_comma _)
      rw [shape]
      exact (Node.readMembers_member name first).2 _ _ _ rfl (ih (by simp) (by omega))

theorem Node.read_object {limit : Nat} {rest after : List Char} {members : List (Literal × Node)}
    (all : Node.readMembers limit ('"' :: rest) = (members,some after)) :
    Node.read (limit + 1) ('\x7b' :: '"' :: rest) = (.object members true,some after) := by
  rw [Node.read,skipSpace_cons (by decide)]
  change (Node.object (Node.readMembers limit ('"' :: rest)).1 (Node.readMembers limit ('"' :: rest)).2.isSome,
    (Node.readMembers limit ('"' :: rest)).2) = _
  rw [all]
  rfl

theorem reads_brace {texts : List (List Char)} {members : List (Literal × Node)}
    (each : List.Forall₂ IsMember texts members) : Reads (brace texts) (.object members true) := by
  refine ⟨⟨'\x7b',_,rfl,by decide,by decide⟩,fun rest limit _ enough => ?_⟩
  have shape : brace texts ++ rest = '\x7b' :: (Text.join [','] texts ++ '\x7d' :: rest) := by simp [brace]
  have length : (brace texts).length = (Text.join [','] texts).length + 2 := by simp [brace]
  obtain ⟨limit,rfl⟩ : ∃ fewer, limit = fewer + 1 := ⟨limit - 1,by omega⟩
  rw [shape]
  cases each with
  | nil =>
    rw [Node.read,skipSpace_cons (by decide)]
    rfl
  | @cons text entry texts members isMember others =>
    have all := readMembers_join (.cons isMember others) (by simp) rest (by omega : _ < limit)
    obtain ⟨name,value,begins,_⟩ := isMember
    obtain ⟨after,front⟩ : ∃ after, Text.join [','] (text :: texts) ++ '\x7d' :: rest = '"' :: after := by
      cases texts <;> simp [Text.join,begins,member,quote]
    rw [front] at all ⊢
    exact Node.read_object all

end PinnedMap.Json
