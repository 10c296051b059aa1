import PinnedMap.Proofs.Json.Steps

/-! The grammar of JSON texts. A text is read to its end as a tree just if the grammar has it for that tree. -/
namespace PinnedMap.Json

def IsKey (text : List Char) (key : Literal) : Prop :=
  ∃ before inner after, IsBlank before ∧ key.IsWritten inner ∧ IsBlank after ∧ text = before ++ '"' :: (inner ++ '"' :: after)

mutual

/-- A text that stands for a tree, with blanks wherever they may be. -/
inductive Spells : List Char → Node → Prop
  | blanks {before text after node} (blank : IsBlank before) (spells : Spells text node) (blank' : IsBlank after) :
      Spells (before ++ text ++ after) node
  | null : Spells "null".toList .null
  | yes : Spells "true".toList (.boolean true)
  | no : Spells "false".toList (.boolean false)
  | number {text n} (reads : Number.read text = some (n,[])) : Spells text (.number n)
  | text {inner literal} (isWritten : literal.IsWritten inner) : Spells ('"' :: inner ++ ['"']) (.text literal)
  | emptyArray {between} (blank : IsBlank between) : Spells ('[' :: between ++ [']']) (.array [] true)
  | array {text items} (each : SpellsItems text items) : Spells ('[' :: text ++ [']']) (.array items true)
  | emptyObject {between} (blank : IsBlank between) : Spells ('\x7b' :: between ++ ['\x7d']) (.object [] true)
  | object {text members} (each : SpellsMembers text members) :
      Spells ('\x7b' :: text ++ ['\x7d']) (.object members true)

inductive SpellsItems : List Char → List Node → Prop
  | last {text item} (spells : Spells text item) : SpellsItems text [item]
  | comma {text others item items} (spells : Spells text item) (more : SpellsItems others items) :
      SpellsItems (text ++ ',' :: others) (item :: items)

inductive SpellsMembers : List Char → List (Literal × Node) → Prop
  | last {name text key value} (isKey : IsKey name key) (spells : Spells text value) :
      SpellsMembers (name ++ ':' :: text) [(key,value)]
  | comma {name text others key value members} (isKey : IsKey name key) (spells : Spells text value)
      (more : SpellsMembers others members) :
      SpellsMembers (name ++ ':' :: (text ++ ',' :: others)) ((key,value) :: members)

end

def Ends (rest : List Char) : Prop := ∀ c ∈ rest.head?, isSpace c = true ∨ c = ',' ∨ c = ']' ∨ c = '\x7d'

private theorem ends_blank {after rest : List Char} (blank : IsBlank after) (ends : Ends rest) :
    Ends (after ++ rest) := by
  cases after with
  | nil => exact ends
  | cons c after =>
    rintro _ ⟨⟩
    exact .inl (blank c (List.mem_cons_self ..))

theorem Ends.number {rest : List Char} (ends : Ends rest) : Number.Ends rest := by
  intro c first
  rcases ends c first with space | rfl | rfl | rfl
  · simp only [isSpace,Bool.or_eq_true,decide_eq_true_eq] at space
    rcases space with ((rfl | rfl) | rfl) | rfl <;> decide
  all_goals decide

/-- Whatever follows, the reader takes the text for the tree, and leaves at most blanks of it. -/
def ReadsAs (text : List Char) (node : Node) : Prop := ∀ (rest : List Char) (limit : Nat), Ends rest →
  2 * text.length ≤ limit → ∃ blanks, IsBlank blanks ∧ Node.read limit (text ++ rest) = (node,some (blanks ++ rest))

def ItemsReadAs (text : List Char) (items : List Node) : Prop := ∀ (rest : List Char) (limit : Nat),
  2 * text.length < limit → Node.readItems limit (text ++ ']' :: rest) = (items,some rest)

def MembersReadAs (text : List Char) (members : List (Literal × Node)) : Prop := ∀ (rest : List Char) (limit : Nat),
  2 * text.length < limit → Node.readMembers limit (text ++ '\x7d' :: rest) = (members,some rest)

private theorem readsAs_of_takes {text : List Char} {node : Node} (some : text ≠ [])
    (takes : ∀ rest limit, Ends rest → 2 * text.length ≤ limit + 1 → Node.Takes limit (text ++ rest) node rest) :
    ReadsAs text node := by
  intro rest limit ends enough
  obtain ⟨limit,rfl⟩ : ∃ fewer, limit = fewer + 1 := ⟨limit - 1,by have := List.length_pos_iff.mpr some; omega⟩
  exact ⟨[],nofun,Node.read_of_takes (takes rest limit ends enough)⟩

private theorem readsAs_blanks {before text after : List Char} {node : Node} (blank : IsBlank before)
    (reads : ReadsAs text node) (blank' : IsBlank after) : ReadsAs (before ++ text ++ after) node := by
  intro rest limit ends enough
  simp only [List.length_append] at enough
  obtain ⟨blanks,left,same⟩ := reads (after ++ rest) limit (ends_blank blank' ends) (by omega)
  refine ⟨blanks ++ after,List.forall_mem_append.mpr ⟨left,blank'⟩,?_⟩
  rw [← Node.read_skipSpace,List.append_assoc,List.append_assoc,skipSpace_blank blank,Node.read_skipSpace,same,
    List.append_assoc]

private theorem readsAs_number {text : List Char} {n : Number} (reads : Number.read text = some (n,[])) :
    ReadsAs text (.number n) := by
  obtain ⟨_,_,rfl,_⟩ := Number.exists_first reads
  exact readsAs_of_takes (by simp) fun rest limit ends _ => .number (Number.read_again reads ends.number)

private theorem readsAs_text {inner : List Char} {literal : Literal} (isWritten : literal.IsWritten inner) :
    ReadsAs ('"' :: inner ++ ['"']) (.text literal) := by
  refine readsAs_of_takes (by simp) fun rest limit _ enough => ?_
  simp only [List.length_append,List.length_cons] at enough
  simpa using Node.Takes.text (isWritten.read (by omega : inner.length < limit) rest)

private theorem readsAs_array {text : List Char} {items : List Node} (each : ItemsReadAs text items) :
    ReadsAs ('[' :: text ++ [']']) (.array items true) := by
  refine readsAs_of_takes (by simp) fun rest limit _ enough => ?_
  simp only [List.length_append,List.length_cons] at enough
  simpa using Node.Takes.array (each rest limit (by omega))

private theorem readsAs_object {text : List Char} {members : List (Literal × Node)}
    (each : MembersReadAs text members) : ReadsAs ('\x7b' :: text ++ ['\x7d']) (.object members true) := by
  refine readsAs_of_takes (by simp) fun rest limit _ enough => ?_
  simp only [List.length_append,List.length_cons] at enough
  simpa using Node.Takes.object (each rest limit (by omega))

private theorem itemsReadAs_last {text : List Char} {item : Node} (reads : ReadsAs text item) :
    ItemsReadAs text [item] := by
  intro rest limit enough
  obtain ⟨limit,rfl⟩ : ∃ fewer, limit = fewer + 1 := ⟨limit - 1,by omega⟩
  obtain ⟨blanks,left,first⟩ := reads (']' :: rest) limit (by rintro _ ⟨⟩; decide) (by omega)
  exact Node.readItems_of_takesItems (.last first (skipSpace_blank_cons left (by decide) rest))

private theorem itemsReadAs_comma {text others : List Char} {item : Node} {items : List Node}
    (reads : ReadsAs text item)
    (each : ItemsReadAs others items) : ItemsReadAs (text ++ ',' :: others) (item :: items) := by
  intro rest limit enough
  simp only [List.length_append,List.length_cons] at enough
  obtain ⟨limit,rfl⟩ : ∃ fewer, limit = fewer + 1 := ⟨limit - 1,by omega⟩
  obtain ⟨blanks,left,first⟩ := reads (',' :: (others ++ ']' :: rest)) limit (by rintro _ ⟨⟩; decide) (by omega)
  rw [List.append_assoc,List.cons_append]
  exact Node.readItems_of_takesItems (.comma first (skipSpace_blank_cons left (by decide) _) (each rest limit (by omega)))

theorem IsKey.read {name : List Char} {key : Literal} (isKey : IsKey name key) (rest : List Char) : ∃ begins colon,
    skipSpace (name ++ ':' :: rest) = '"' :: begins ∧ skipSpace colon = ':' :: rest ∧
      ∀ limit, name.length ≤ limit → Literal.read limit begins = some (key,colon) := by
  obtain ⟨before,inner,after,blank,isWritten,blank',rfl⟩ := isKey
  refine ⟨inner ++ '"' :: (after ++ ':' :: rest),after ++ ':' :: rest,?_,skipSpace_blank_cons blank' (by decide) rest,
    fun limit enough => ?_⟩
  · simpa using skipSpace_blank_cons blank (by decide) (inner ++ '"' :: (after ++ ':' :: rest))
  · simp only [List.length_append,List.length_cons] at enough
    exact isWritten.read (by omega) _

private theorem membersReadAs_last {name text : List Char} {key : Literal} {value : Node} (isKey : IsKey name key)
    (reads : ReadsAs text value) : MembersReadAs (name ++ ':' :: text) [(key,value)] := by
  intro rest limit enough
  simp only [List.length_append,List.length_cons] at enough
  obtain ⟨limit,rfl⟩ : ∃ fewer, limit = fewer + 1 := ⟨limit - 1,by omega⟩
  obtain ⟨begins,colon,named,parts,readsKey⟩ := isKey.read (text ++ '\x7d' :: rest)
  obtain ⟨blanks,left,first⟩ := reads ('\x7d' :: rest) limit (by rintro _ ⟨⟩; decide) (by omega)
  rw [List.append_assoc,List.cons_append]
  exact Node.readMembers_of_takesMembers (.last named (readsKey limit (by omega)) parts first
    (skipSpace_blank_cons left (by decide) rest))

private theorem membersReadAs_comma {name text others : List Char} {key : Literal} {value : Node}
    {members : List (Literal × Node)} (isKey : IsKey name key) (reads : ReadsAs text value)
    (each : MembersReadAs others members) : MembersReadAs (name ++ ':' :: (text ++ ',' :: others)) ((key,value) :: members) := by
  intro rest limit enough
  simp only [List.length_append,List.length_cons] at enough
  obtain ⟨limit,rfl⟩ : ∃ fewer, limit = fewer + 1 := ⟨limit - 1,by omega⟩
  obtain ⟨begins,colon,named,parts,readsKey⟩ := isKey.read (text ++ ',' :: (others ++ '\x7d' :: rest))
  obtain ⟨blanks,left,first⟩ := reads (',' :: (others ++ '\x7d' :: rest)) limit (by rintro _ ⟨⟩; decide) (by omega)
  simp only [List.append_assoc,List.cons_append]
  exact Node.readMembers_of_takesMembers (.comma named (readsKey limit (by omega)) parts first
    (skipSpace_blank_cons left (by decide) _) (each rest limit (by omega)))

mutual

theorem Spells.readsAs : ∀ {text : List Char} {node : Node}, Spells text node → ReadsAs text node
  | _, _, .blanks blank spells blank' => readsAs_blanks blank spells.readsAs blank'
  | _, _, .null => readsAs_of_takes (by simp) fun _ _ _ _ => .null
  | _, _, .yes => readsAs_of_takes (by simp) fun _ _ _ _ => .yes
  | _, _, .no => readsAs_of_takes (by simp) fun _ _ _ _ => .no
  | _, _, .number reads => readsAs_number reads
  | _, _, .text isWritten => readsAs_text isWritten
  | _, _, .emptyArray blank => readsAs_of_takes (by simp) fun rest _ _ _ => by
    simpa using Node.Takes.emptyArray (skipSpace_blank_cons blank (by decide) rest)
  | _, _, .array each => readsAs_array each.readAs
  | _, _, .emptyObject blank => readsAs_of_takes (by simp) fun rest _ _ _ => by
    simpa using Node.Takes.emptyObject (skipSpace_blank_cons blank (by decide) rest)
  | _, _, .object each => readsAs_object each.readAs

theorem SpellsItems.readAs : ∀ {text : List Char} {items : List Node}, SpellsItems text items → ItemsReadAs text items
  | _, _, .last spells => itemsReadAs_last spells.readsAs
  | _, _, .comma spells more => itemsReadAs_comma spells.readsAs more.readAs

theorem SpellsMembers.readAs : ∀ {text : List Char} {members : List (Literal × Node)}, SpellsMembers text members →
    MembersReadAs text members
  | _, _, .last isKey spells => membersReadAs_last isKey spells.readsAs
  | _, _, .comma isKey spells more => membersReadAs_comma isKey spells.readsAs more.readAs

end

/-- What the reader takes the grammar has, in each of its three parts. -/
def Recovers (limit : Nat) : Prop :=
  (∀ text node rest, Node.read limit text = (node,some rest) → ∃ front, text = front ++ rest ∧ Spells front node) ∧
  (∀ text items rest, Node.readItems limit text = (items,some rest) →
    ∃ front, text = front ++ ']' :: rest ∧ SpellsItems front items) ∧
  ∀ text members rest, Node.readMembers limit text = (members,some rest) →
    ∃ front, text = front ++ '\x7d' :: rest ∧ SpellsMembers front members

private theorem spells_of_takes {limit : Nat} (recovers : Recovers limit) {text rest : List Char} {node : Node}
    (takes : Node.Takes limit text node rest) : ∃ front, text = front ++ rest ∧ Spells front node := by
  obtain ⟨_,items,members⟩ := recovers
  cases takes with
  | null => exact ⟨_,rfl,.null⟩
  | yes => exact ⟨_,rfl,.yes⟩
  | no => exact ⟨_,rfl,.no⟩
  | number reads =>
    obtain ⟨lexeme,rfl,again⟩ := Number.read_front reads
    exact ⟨lexeme,rfl,.number (by simpa using again [] nofun)⟩
  | text reads =>
    obtain ⟨inner,rfl,isWritten⟩ := Literal.exists_isWritten reads
    exact ⟨_,by simp,.text isWritten⟩
  | emptyArray ends =>
    obtain ⟨blanks,blank,rfl⟩ := exists_blanks_cons ends
    exact ⟨_,by simp,.emptyArray blank⟩
  | array reads =>
    obtain ⟨front,rfl,each⟩ := items _ _ _ reads
    exact ⟨_,by simp,.array each⟩
  | emptyObject ends =>
    obtain ⟨blanks,blank,rfl⟩ := exists_blanks_cons ends
    exact ⟨_,by simp,.emptyObject blank⟩
  | object reads =>
    obtain ⟨front,rfl,each⟩ := members _ _ _ reads
    exact ⟨_,by simp,.object each⟩

theorem Spells.before {blanks text : List Char} {node : Node} (blank : IsBlank blanks) (spells : Spells text node) :
    Spells (blanks ++ text) node := by
  have none : IsBlank [] := nofun
  simpa using Spells.blanks blank spells none

theorem Spells.behind {blanks text : List Char} {node : Node} (spells : Spells text node) (blank : IsBlank blanks) :
    Spells (text ++ blanks) node :=
  .blanks (nofun : IsBlank []) spells blank

private theorem spellsItems_of_takes {limit : Nat} (recovers : Recovers limit) {text rest : List Char}
    {items : List Node}
    (takes : Node.TakesItems limit text items rest) : ∃ front, text = front ++ ']' :: rest ∧ SpellsItems front items := by
  obtain ⟨values,others,_⟩ := recovers
  cases takes with
  | last reads ends =>
    obtain ⟨front,rfl,spells⟩ := values _ _ _ reads
    obtain ⟨blanks,blank,rfl⟩ := exists_blanks_cons ends
    exact ⟨front ++ blanks,by simp,.last (spells.behind blank)⟩
  | comma reads goesOn more =>
    obtain ⟨front,rfl,spells⟩ := values _ _ _ reads
    obtain ⟨blanks,blank,rfl⟩ := exists_blanks_cons goesOn
    obtain ⟨later,rfl,each⟩ := others _ _ _ more
    exact ⟨(front ++ blanks) ++ ',' :: later,by simp,.comma (spells.behind blank) each⟩

private theorem isKey_of_read {limit : Nat} {text name colon under : List Char} {key : Literal}
    (begins : skipSpace text = '"' :: name) (isKey : Literal.read limit name = some (key,colon))
    (parts : skipSpace colon = ':' :: under) : ∃ front, text = front ++ ':' :: under ∧ IsKey front key := by
  obtain ⟨before,blank,rfl⟩ := exists_blanks_cons begins
  obtain ⟨inner,rfl,isWritten⟩ := Literal.exists_isWritten isKey
  obtain ⟨after,blank',rfl⟩ := exists_blanks_cons parts
  exact ⟨before ++ '"' :: (inner ++ '"' :: after),by simp,before,inner,after,blank,isWritten,blank',rfl⟩

private theorem spellsMembers_of_takes {limit : Nat} (recovers : Recovers limit) {text rest : List Char}
    {members : List (Literal × Node)} (takes : Node.TakesMembers limit text members rest) :
    ∃ front, text = front ++ '\x7d' :: rest ∧ SpellsMembers front members := by
  obtain ⟨values,_,others⟩ := recovers
  cases takes with
  | last begins isKey parts reads ends =>
    obtain ⟨name,rfl,isKey⟩ := isKey_of_read begins isKey parts
    obtain ⟨front,rfl,spells⟩ := values _ _ _ reads
    obtain ⟨blanks,blank,rfl⟩ := exists_blanks_cons ends
    exact ⟨name ++ ':' :: (front ++ blanks),by simp,.last isKey (spells.behind blank)⟩
  | comma begins isKey parts reads goesOn more =>
    obtain ⟨name,rfl,isKey⟩ := isKey_of_read begins isKey parts
    obtain ⟨front,rfl,spells⟩ := values _ _ _ reads
    obtain ⟨blanks,blank,rfl⟩ := exists_blanks_cons goesOn
    obtain ⟨later,rfl,each⟩ := others _ _ _ more
    exact ⟨name ++ ':' :: ((front ++ blanks) ++ ',' :: later),by simp,.comma isKey (spells.behind blank) each⟩

private theorem recovers (limit : Nat) : Recovers limit := by
  induction limit with
  | zero =>
    refine ⟨fun _ _ _ reads => ?_,fun _ _ _ reads => ?_,fun _ _ _ reads => ?_⟩
    all_goals cases (Prod.mk.inj reads).2
  | succ limit ih =>
    refine ⟨fun text node rest reads => ?_,fun _ _ _ reads => ?_,fun _ _ _ reads => ?_⟩
    · obtain ⟨front,shape,spells⟩ := spells_of_takes ih (Node.takes_of_read reads)
      obtain ⟨blanks,blank,whole⟩ := exists_blanks text
      exact ⟨blanks ++ front,by rw [whole,shape,List.append_assoc],spells.before blank⟩
    · exact spellsItems_of_takes ih (Node.takesItems_of_readItems reads)
    · exact spellsMembers_of_takes ih (Node.takesMembers_of_readMembers reads)

end PinnedMap.Json
