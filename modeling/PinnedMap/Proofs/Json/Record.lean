import PinnedMap.Proofs.Json.Restoring

/-! Records restore what they are made of. The members of an object are taken one by one, and where that succeeds
their order does not matter; so the object of a text and the object that it means, whose members are sorted, read
as the same record. -/
namespace PinnedMap.Json

variable {α β : Type}

def named (members : List (String × Node)) : List (Literal × Node) :=
  members.map fun (name,node) => (Literal.ofString name,node)

namespace Fields

section Taking

variable {origin : Origin} {key : String} {value : Node} {field : Field α} {rest : Fields β} {slot : Option α}
  {draft : rest.Draft}

private theorem take_of_answers (answers : field.answersTo key = true) :
    (Fields.cons field rest).take origin key value (slot,draft) = match slot with
      | some _ => .error (.data (.duplicateField field.name))
      | none => (field.codec.read origin value).map fun read => (some read,draft) :=
  if_pos answers

theorem take_of_silent (silent : field.answersTo key = false) :
    (Fields.cons field rest).take origin key value (slot,draft) =
      (rest.take origin key value draft).map fun others => (slot,others) :=
  if_neg (by simp [silent])

theorem take_cons_iff {next : (Fields.cons field rest).Draft} :
    (Fields.cons field rest).take origin key value (slot,draft) = .ok next ↔
      (field.answersTo key = true ∧ slot = none ∧ ∃ read, field.codec.read origin value = .ok read ∧
        next = (some read,draft)) ∨
      (field.answersTo key = false ∧ ∃ others, rest.take origin key value draft = .ok others ∧
        next = (slot,others)) := by
  cases answers : field.answersTo key with
  | true =>
    rw [take_of_answers answers]
    cases slot with
    | some old => simp
    | none =>
      cases reads : field.codec.read origin value with
      | error fault => simp [Except.map]
      | ok read =>
        constructor
        · exact fun same => .inl ⟨rfl,rfl,read,rfl,(Except.ok.inj same).symm⟩
        · rintro (⟨_,_,_,⟨⟩,rfl⟩ | ⟨⟨⟩,_⟩)
          rfl
  | false =>
    rw [take_of_silent answers]
    cases takes : rest.take origin key value draft with
    | error fault => simp [Except.map]
    | ok others =>
      constructor
      · exact fun same => .inr ⟨rfl,others,rfl,(Except.ok.inj same).symm⟩
      · rintro (⟨⟨⟩,_⟩ | ⟨_,_,⟨⟩,rfl⟩)
        rfl

end Taking

private theorem take_comm {origin : Origin} {key key' : String} {value value' : Node} {fields : Fields α}
    {draft between after : fields.Draft} (first : fields.take origin key value draft = .ok between)
    (second : fields.take origin key' value' between = .ok after) : ∃ other,
      fields.take origin key' value' draft = .ok other ∧ fields.take origin key value other = .ok after := by
  induction fields with
  | nil => exact ⟨(),second,first⟩
  | cons field rest ih =>
    obtain ⟨slot,draft⟩ := draft
    rw [take_cons_iff] at first
    rcases first with ⟨answers,rfl,read,reads,rfl⟩ | ⟨silent,others,takes,rfl⟩
    · rw [take_cons_iff] at second
      rcases second with ⟨_,full,_⟩ | ⟨silent,others,takes,rfl⟩
      · cases full
      · exact ⟨(none,others),take_cons_iff.mpr (.inr ⟨silent,others,takes,rfl⟩),
          take_cons_iff.mpr (.inl ⟨answers,rfl,read,reads,rfl⟩)⟩
    · rw [take_cons_iff] at second
      rcases second with ⟨answers,rfl,read,reads,rfl⟩ | ⟨silent',others',takes',rfl⟩
      · exact ⟨(some read,draft),take_cons_iff.mpr (.inl ⟨answers,rfl,read,reads,rfl⟩),
          take_cons_iff.mpr (.inr ⟨silent,others,takes,rfl⟩)⟩
      · obtain ⟨other,early,late⟩ := ih takes takes'
        exact ⟨(slot,other),take_cons_iff.mpr (.inr ⟨silent',other,early,rfl⟩),
          take_cons_iff.mpr (.inr ⟨silent,others',late,rfl⟩)⟩

theorem takeAll_cons_iff {origin : Origin} {fields : Fields α} {key : Literal} {value : Node}
    {members : List (Literal × Node)} {draft after : fields.Draft} :
    fields.takeAll origin ((key,value) :: members) draft = .ok after ↔ ∃ name between, key.text? = .ok name ∧
      fields.take origin name value draft = .ok between ∧ fields.takeAll origin members between = .ok after := by
  rw [takeAll]
  cases key.text? with
  | error fault => simp [bind,Except.bind]
  | ok name => cases taken : fields.take origin name value draft <;> simp [bind,Except.bind,taken]

theorem takeAll_perm {origin : Origin} {fields : Fields α} {members others : List (Literal × Node)}
    (perm : members.Perm others) {draft after : fields.Draft}
    (takes : fields.takeAll origin members draft = .ok after) : fields.takeAll origin others draft = .ok after := by
  induction perm generalizing draft with
  | nil => exact takes
  | cons entry _ ih =>
    obtain ⟨name,between,isText,first,rest⟩ := takeAll_cons_iff.mp takes
    exact takeAll_cons_iff.mpr ⟨name,between,isText,first,ih rest⟩
  | swap =>
    obtain ⟨name,between,isText,first,rest⟩ := takeAll_cons_iff.mp takes
    obtain ⟨name',between',isText',second,rest⟩ := takeAll_cons_iff.mp rest
    obtain ⟨other,early,late⟩ := take_comm first second
    exact takeAll_cons_iff.mpr ⟨name',other,isText',early,takeAll_cons_iff.mpr ⟨name,between',isText,late,rest⟩⟩
  | trans _ _ ih ih' => exact ih' (ih takes)

def names : {α : Type} → Fields α → List String
  | _, .nil => []
  | _, .cons field rest => field.name :: rest.names

def isApart : {α : Type} → Fields α → Bool
  | _, .nil => true
  | _, .cons field rest => rest.names.all (fun name => !field.answersTo name) && rest.isApart

/-- In the order of the fields the members hold the values of a record. Where a member is missing, its field has
the value without it. -/
def Lists : {α : Type} → Fields α → α → List (String × Node) → Prop
  | _, .nil, (), members => members = []
  | _, .cons field rest, (value,values), members =>
    (field.absent = some value ∧ rest.Lists values members) ∨
    ∃ node others, members = (field.name,node) :: others ∧ field.codec.Accepts node value ∧ rest.Lists values others

theorem Lists.sublist {fields : Fields α} {value : α} {members : List (String × Node)}
    (lists : fields.Lists value members) : (members.map Prod.fst).Sublist fields.names := by
  induction fields generalizing members with
  | nil =>
    rw [show members = [] from lists]
    exact .slnil
  | cons field rest ih =>
    obtain ⟨value,values⟩ := value
    rcases lists with ⟨_,others⟩ | ⟨node,others,rfl,_,lists⟩
    · exact (ih others).cons _
    · exact (ih lists).cons_cons _

private theorem isApart_cons {field : Field α} {rest : Fields β} (apart : (Fields.cons field rest).isApart = true) :
    (∀ name ∈ rest.names, field.answersTo name = false) ∧ rest.isApart = true := by
  rw [isApart,Bool.and_eq_true,List.all_eq_true] at apart
  exact ⟨fun name member => by simpa using apart.1 name member,apart.2⟩

theorem answersTo_name (field : Field α) : field.answersTo field.name = true := by simp [Field.answersTo]

private theorem nodup_names {fields : Fields α} (apart : fields.isApart = true) : fields.names.Nodup := by
  induction fields with
  | nil => exact .nil
  | cons field rest ih =>
    obtain ⟨silent,apart⟩ := isApart_cons apart
    refine List.nodup_cons.mpr ⟨fun listed => ?_,ih apart⟩
    have answers := silent _ listed
    rw [answersTo_name] at answers
    cases answers

theorem takeAll_silent_iff {origin : Origin} {field : Field α} {rest : Fields β} {members : List (String × Node)}
    (silent : ∀ entry ∈ members, field.answersTo entry.1 = false) {slot : Option α} {draft : rest.Draft}
    {after : (Fields.cons field rest).Draft} :
    (Fields.cons field rest).takeAll origin (named members) (slot,draft) = .ok after ↔
      ∃ others, rest.takeAll origin (named members) draft = .ok others ∧ after = (slot,others) := by
  induction members generalizing draft with
  | nil =>
    constructor
    · exact fun takes => ⟨draft,rfl,(Except.ok.inj takes).symm⟩
    · rintro ⟨_,⟨⟩,rfl⟩
      rfl
  | cons entry members ih =>
    obtain ⟨first,remaining⟩ := List.forall_mem_cons.mp silent
    have isText : (Literal.ofString entry.1).text? = .ok entry.1 := Codec.text?_ofString entry.1
    constructor
    · intro takes
      obtain ⟨name,between,named,one,others⟩ := takeAll_cons_iff.mp takes
      obtain rfl : entry.1 = name := Except.ok.inj (isText.symm.trans named)
      rcases take_cons_iff.mp one with ⟨answers,_⟩ | ⟨_,between,taken,rfl⟩
      · exact absurd (first.symm.trans answers) Bool.false_ne_true
      · obtain ⟨after,all,rfl⟩ := (ih remaining).mp others
        exact ⟨after,takeAll_cons_iff.mpr ⟨entry.1,between,isText,taken,all⟩,rfl⟩
    · rintro ⟨after,takes,rfl⟩
      obtain ⟨name,between,named,one,others⟩ := takeAll_cons_iff.mp takes
      obtain rfl : entry.1 = name := Except.ok.inj (isText.symm.trans named)
      exact takeAll_cons_iff.mpr ⟨entry.1,(slot,between),isText,take_cons_iff.mpr (.inr ⟨first,between,one,rfl⟩),
        (ih remaining).mpr ⟨after,others,rfl⟩⟩

theorem Lists.takeAll {fields : Fields α} (apart : fields.isApart = true) {value : α} {members : List (String × Node)}
    (lists : fields.Lists value members) (origin : Origin) : ∃ draft,
      fields.takeAll origin (named members) fields.empty = .ok draft ∧ fields.complete draft = .ok value := by
  induction fields generalizing members with
  | nil =>
    rw [show members = [] from lists]
    exact ⟨(),rfl,rfl⟩
  | cons field rest ih =>
    obtain ⟨silent,apart⟩ := isApart_cons apart
    have notMine {others : List (String × Node)} {values} (lists : rest.Lists values others) :
        ∀ entry ∈ others, field.answersTo entry.1 = false := fun entry member =>
      silent _ (lists.sublist.subset (List.mem_map_of_mem member))
    obtain ⟨value,values⟩ := value
    rcases lists with ⟨standard,others⟩ | ⟨node,others,rfl,accepts,lists⟩
    · obtain ⟨draft,takes,completes⟩ := ih apart others
      refine ⟨(none,draft),(takeAll_silent_iff (notMine others)).mpr ⟨draft,takes,rfl⟩,?_⟩
      rw [complete]
      dsimp only
      rw [Option.none_or,standard,completes]
      rfl
    · obtain ⟨draft,takes,completes⟩ := ih apart lists
      refine ⟨(some value,draft),takeAll_cons_iff.mpr ⟨field.name,(some value,rest.empty),Codec.text?_ofString _,
        take_cons_iff.mpr (.inl ⟨answersTo_name field,rfl,value,accepts origin,rfl⟩),
        (takeAll_silent_iff (notMine lists)).mpr ⟨draft,takes,rfl⟩⟩,?_⟩
      rw [complete]
      dsimp only
      rw [Option.some_or,completes]
      rfl

/-- Members in any order read as the record that they hold. -/
theorem Lists.read {fields : Fields α} (apart : fields.isApart = true) {value : α} {members : List (String × Node)}
    (lists : fields.Lists value members) {others : List (Literal × Node)} (perm : (named members).Perm others)
    (name : String) (origin : Origin) : fields.read name origin (.object others true) = .ok value := by
  obtain ⟨draft,takes,completes⟩ := lists.takeAll apart origin
  rw [Fields.read,takeAll_perm perm takes]
  exact completes

end Fields

namespace Value

private theorem insert_perm {name : String} {members : List (String × Value)} (new : name ∉ members.map Prod.fst)
    (value : Value) : (insert name value members).Perm ((name,value) :: members) := by
  fun_induction insert name value members with
  | case1 => rfl
  | case2 old members => simp at new
  | case3 => rfl
  | case4 other old members _ _ ih =>
    simp only [List.map_cons,List.mem_cons,not_or] at new
    exact ((ih new.2).cons _).trans (.swap _ _ _)

def insertAll (found members : List (String × Value)) : List (String × Value) :=
  members.foldl (fun found (name,value) => insert name value found) found

theorem insertAll_perm {found members : List (String × Value)}
    (apart : (members.map Prod.fst ++ found.map Prod.fst).Nodup) : (insertAll found members).Perm (members ++ found) := by
  induction members generalizing found with
  | nil => rfl
  | cons entry members ih =>
    obtain ⟨name,value⟩ := entry
    rw [List.map_cons,List.cons_append,List.nodup_cons] at apart
    have new : name ∉ found.map Prod.fst := fun listed => apart.1 (List.mem_append_right _ listed)
    have first := insert_perm new value
    have names : ((insert name value found).map Prod.fst).Perm (name :: found.map Prod.fst) := first.map Prod.fst
    have apart' := ((names.append_left (members.map Prod.fst)).trans List.perm_middle).nodup_iff.mpr
      (List.nodup_cons.mpr apart)
    exact (ih apart').trans ((first.append_left members).trans List.perm_middle)

def Means (depth : Nat) (member : String × Node) (meaning : String × Value) : Prop :=
  member.1 = meaning.1 ∧ ∀ deep, depth ≤ deep → ofNode deep member.2 = some meaning.2

theorem ofMembers_named {depth deep : Nat} (enough : depth ≤ deep) {members : List (String × Node)}
    {meanings : List (String × Value)} (each : List.Forall₂ (Means depth) members meanings)
    (found : List (String × Value)) : ofMembers deep found (named members) = some (insertAll found meanings) := by
  induction each generalizing found with
  | nil => rfl
  | @cons member meaning members meanings means _ ih =>
    obtain ⟨name,node⟩ := member
    obtain ⟨name',value⟩ := meaning
    obtain ⟨rfl,means⟩ := means
    change ofMembers deep found ((Literal.ofString name,node) :: named members) = _
    rw [ofMembers,means deep enough]
    change ofMembers deep (insert (Literal.ofString name).string value found) (named members) = _
    rw [Codec.string_ofString,ih]
    rfl

theorem toMembers_eq (members : List (String × Value)) :
    toMembers members = named (members.map fun (name,value) => (name,value.toNode)) := by
  induction members with
  | nil => rfl
  | cons entry members ih =>
    rw [toMembers,ih]
    rfl

end Value

namespace Fields

def Restores (depth : Nat) : {α : Type} → Fields α → α → α → Prop
  | _, .nil, _, _ => True
  | _, .cons field rest, (value,values), (restored,others) =>
    (field.isOmitted value = true → field.absent = some restored) ∧
      (field.isOmitted value = false → field.codec.Restores depth value restored) ∧ rest.Restores depth values others

variable {field : Field α} {rest : Fields β} {depth : Nat} {value restored : α} {values others : β}

theorem restores_given (kept : field.isOmitted value = false) (first : field.codec.Restores depth value restored)
    (remaining : rest.Restores depth values others) :
    (Fields.cons field rest).Restores depth (value,values) (restored,others) :=
  ⟨fun omitted => absurd (kept.symm.trans omitted) (by simp),fun _ => first,remaining⟩

theorem restores_omitted (omitted : field.isOmitted value = true) (standard : field.absent = some restored)
    (remaining : rest.Restores depth values others) :
    (Fields.cons field rest).Restores depth (value,values) (restored,others) :=
  ⟨fun _ => standard,fun kept => absurd (kept.symm.trans omitted) (by simp),remaining⟩

theorem Restores.members {fields : Fields α} (restores : fields.Restores depth value restored) :
    ∃ members meanings, List.Forall₂ IsMember (fields.writeMembers value) (named members) ∧
      List.Forall₂ (Value.Means depth) members meanings ∧ fields.Lists restored members ∧
      fields.Lists restored (meanings.map fun (name,value) => (name,value.toNode)) := by
  induction fields with
  | nil => exact ⟨[],[],.nil,.nil,rfl,rfl⟩
  | cons field rest ih =>
    obtain ⟨value,values⟩ := value
    obtain ⟨restored,others⟩ := restored
    obtain ⟨omitted,kept,remaining⟩ := restores
    obtain ⟨members,meanings,written,means,lists,lists'⟩ := ih remaining
    rw [writeMembers]
    dsimp only
    cases choice : field.isOmitted value with
    | true => exact ⟨members,meanings,written,means,.inl ⟨omitted choice,lists⟩,.inl ⟨omitted choice,lists'⟩⟩
    | false =>
      obtain ⟨node,meaning,reads,holds⟩ := kept choice
      exact ⟨(field.name,node) :: members,(field.name,meaning) :: meanings,
        .cons ⟨field.name,_,rfl,rfl,reads⟩ written,.cons ⟨rfl,holds.means⟩ means,
        .inr ⟨node,members,rfl,holds.tree,lists⟩,.inr ⟨meaning.toNode,_,rfl,holds.meant,lists'⟩⟩

theorem Restores.codec {fields : Fields α} (apart : fields.isApart = true)
    (restores : fields.Restores depth value restored) (name : String) :
    (fields.codec name).Restores (depth + 1) value restored := by
  obtain ⟨members,meanings,written,means,lists,lists'⟩ := restores.members
  have sorted : (Value.insertAll [] meanings).Perm meanings := by
    have distinct : (meanings.map Prod.fst ++ []).Nodup := by
      simpa [Function.comp_def] using (nodup_names apart).sublist lists'.sublist
    exact (Value.insertAll_perm distinct).trans (by rw [List.append_nil])
  refine ⟨.object (named members) true,.object (Value.insertAll [] meanings),reads_brace written,
    fun deep enough => ?_,lists.read apart (.refl _) name,?_⟩
  · have positive : 0 < deep := by omega
    rw [Value.ofNode,Value.ofMembers_named (by omega : depth ≤ deep - 1) means []]
    simp [positive]
  · rw [Value.toNode,Value.toMembers_eq]
    exact lists'.read apart ((sorted.map _).symm.map _) name

end Fields
end PinnedMap.Json
