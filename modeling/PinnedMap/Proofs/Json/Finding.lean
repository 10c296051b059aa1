import PinnedMap.Proofs.Json.Record

/-! What a record reads in an object. Where no name comes twice, every field has its own member or does without, and
the other members only have to be well-formed. -/
namespace PinnedMap.Json.Fields

variable {α β : Type} {origin : Origin} {members others : List (String × Node)}

/-- No field answers to another name among the keys than its own. -/
def IsOwn (keys : List String) : {α : Type} → Fields α → Prop
  | _, .nil => True
  | _, .cons field rest => (∀ key ∈ keys, field.answersTo key = true → key = field.name) ∧ rest.IsOwn keys

/-- Each field has what its member reads as or, without such a member, what it has where it is missing. -/
def Finds (origin : Origin) (members : List (String × Node)) : {α : Type} → Fields α → α → Prop
  | _, .nil, () => True
  | _, .cons field rest, (value,values) =>
    ((∃ node, (field.name,node) ∈ members ∧ field.codec.read origin node = .ok value) ∨
      (∀ node, (field.name,node) ∉ members) ∧ field.absent = some value) ∧ rest.Finds origin members values

theorem finds_congr {fields : Fields α} {value : α}
    (same : ∀ name ∈ fields.names, ∀ node, (name,node) ∈ members ↔ (name,node) ∈ others) :
    fields.Finds origin members value ↔ fields.Finds origin others value := by
  induction fields with
  | nil => exact .rfl
  | cons field rest ih =>
    obtain ⟨first,remaining⟩ := List.forall_mem_cons.mp same
    obtain ⟨value,values⟩ := value
    simp only [Finds,first,ih remaining]

theorem IsOwn.mono {keys fewer : List String} (subset : fewer ⊆ keys) {fields : Fields α} (own : fields.IsOwn keys) :
    fields.IsOwn fewer := by
  induction fields with
  | nil => trivial
  | cons field rest ih => exact ⟨fun key member => own.1 key (subset member),ih own.2⟩

private theorem takeAll_nil (complete : ∀ entry ∈ members, entry.2.isComplete = true) :
    Fields.nil.takeAll origin (named members) () = .ok () := by
  induction members with
  | nil => rfl
  | cons entry members ih =>
    obtain ⟨first,remaining⟩ := List.forall_mem_cons.mp complete
    refine takeAll_cons_iff.mpr ⟨entry.1,(),Codec.text?_ofString entry.1,?_,ih remaining⟩
    exact if_pos first

private theorem complete_cons_iff {field : Field α} {rest : Fields β} {slot : Option α} {draft : rest.Draft} {value : α}
    {values : β} : (Fields.cons field rest).complete (slot,draft) = .ok (value,values) ↔
      slot.or field.absent = some value ∧ rest.complete draft = .ok values := by
  rw [Fields.complete]
  dsimp only
  cases slot.or field.absent with
  | none => simp [bind,Except.bind,throw,throwThe,MonadExceptOf.throw]
  | some found => cases rest.complete draft <;> simp [bind,Except.bind,pure,Except.pure]

private theorem takeAll_iff_of_perm {fields : Fields α} {entries entries' : List (Literal × Node)}
    (perm : entries.Perm entries') {draft after : fields.Draft} :
    fields.takeAll origin entries draft = .ok after ↔ fields.takeAll origin entries' draft = .ok after :=
  ⟨takeAll_perm perm,takeAll_perm perm.symm⟩

private theorem takeAll_cons_of_missing {field : Field α} {rest : Fields β}
    (own : ∀ key ∈ members.map Prod.fst, field.answersTo key = true → key = field.name)
    (missing : ∀ node, (field.name,node) ∉ members) {value : α} {values : β} :
    (∃ draft, (Fields.cons field rest).takeAll origin (named members) (Fields.cons field rest).empty = .ok draft ∧
      (Fields.cons field rest).complete draft = .ok (value,values)) ↔ field.absent = some value ∧
        ∃ draft, rest.takeAll origin (named members) rest.empty = .ok draft ∧ rest.complete draft = .ok values := by
  have silent : ∀ entry ∈ members, field.answersTo entry.1 = false := by
    intro entry member
    refine Bool.eq_false_iff.mpr fun answers => missing entry.2 ?_
    rw [← own _ (List.mem_map_of_mem member) answers]
    exact member
  constructor
  · rintro ⟨_,takes,completes⟩
    obtain ⟨draft,others,rfl⟩ := (takeAll_silent_iff silent).mp takes
    obtain ⟨absent,completes⟩ := complete_cons_iff.mp completes
    exact ⟨absent,draft,others,completes⟩
  · rintro ⟨absent,draft,takes,completes⟩
    exact ⟨_,(takeAll_silent_iff silent).mpr ⟨draft,takes,rfl⟩,complete_cons_iff.mpr ⟨absent,completes⟩⟩

private theorem takeAll_cons_of_member {field : Field α} {rest : Fields β} {before after : List (String × Node)}
    {node : Node} (silent : ∀ entry ∈ before ++ after, field.answersTo entry.1 = false) {value : α} {values : β} :
    (∃ draft, (Fields.cons field rest).takeAll origin (named (before ++ (field.name,node) :: after))
      (Fields.cons field rest).empty = .ok draft ∧ (Fields.cons field rest).complete draft = .ok (value,values)) ↔
    field.codec.read origin node = .ok value ∧ ∃ draft,
      rest.takeAll origin (named (before ++ after)) rest.empty = .ok draft ∧ rest.complete draft = .ok values := by
  have front : (named (before ++ (field.name,node) :: after)).Perm
      ((Literal.ofString field.name,node) :: named (before ++ after)) :=
    List.perm_middle.map _
  simp only [takeAll_iff_of_perm front]
  constructor
  · rintro ⟨_,takes,completes⟩
    obtain ⟨name,between,isText,one,others⟩ := takeAll_cons_iff.mp takes
    obtain rfl : field.name = name := Except.ok.inj ((Codec.text?_ofString field.name).symm.trans isText)
    rcases take_cons_iff.mp one with ⟨_,_,found,reads,rfl⟩ | ⟨silent,_⟩
    · obtain ⟨draft,rest,rfl⟩ := (takeAll_silent_iff silent).mp others
      obtain ⟨same,completes⟩ := complete_cons_iff.mp completes
      rw [Option.some_or,Option.some.injEq] at same
      exact ⟨same ▸ reads,draft,rest,completes⟩
    · rw [answersTo_name] at silent
      cases silent
  · rintro ⟨reads,draft,takes,completes⟩
    refine ⟨(some value,draft),takeAll_cons_iff.mpr ⟨field.name,(some value,rest.empty),Codec.text?_ofString _,
      take_cons_iff.mpr (.inl ⟨answersTo_name field,rfl,value,reads,rfl⟩),?_⟩,
      complete_cons_iff.mpr ⟨rfl,completes⟩⟩
    exact (takeAll_silent_iff silent).mpr ⟨draft,takes,rfl⟩

private theorem takeAll_iff_finds {fields : Fields α} (distinct : fields.names.Nodup)
    (single : (members.map Prod.fst).Nodup)
    (own : fields.IsOwn (members.map Prod.fst)) (complete : ∀ entry ∈ members, entry.2.isComplete = true) {value : α} :
    (∃ draft, fields.takeAll origin (named members) fields.empty = .ok draft ∧ fields.complete draft = .ok value) ↔
      fields.Finds origin members value := by
  induction fields generalizing members with
  | nil => exact iff_of_true ⟨(),takeAll_nil complete,rfl⟩ trivial
  | cons field rest ih =>
    obtain ⟨value,values⟩ := value
    obtain ⟨notLater,distinct⟩ := List.nodup_cons.mp distinct
    obtain ⟨mine,own⟩ := own
    by_cases there : ∃ node, (field.name,node) ∈ members
    · obtain ⟨node,member⟩ := there
      obtain ⟨before,after,rfl⟩ := List.append_of_mem member
      have fewer : (before ++ after).Sublist (before ++ (field.name,node) :: after) :=
        (List.sublist_cons_self _ _).append_left before
      obtain ⟨alone,others⟩ : field.name ∉ (before ++ after).map Prod.fst ∧ ((before ++ after).map Prod.fst).Nodup :=
        List.nodup_cons.mp ((List.perm_middle.map Prod.fst).nodup_iff.mp single)
      have silent : ∀ entry ∈ before ++ after, field.answersTo entry.1 = false := by
        intro entry member
        refine Bool.eq_false_iff.mpr fun answers => alone ?_
        rw [← mine _ ((fewer.map Prod.fst).subset (List.mem_map_of_mem member)) answers]
        exact List.mem_map_of_mem member
      have only (node' : Node) : (field.name,node') ∈ before ++ (field.name,node) :: after ↔ node' = node := by
        have absent : (field.name,node') ∉ before ++ after := fun member => alone (List.mem_map_of_mem member)
        simp only [List.perm_middle.mem_iff,List.mem_cons,absent,or_false,Prod.mk.injEq,true_and]
      have same : rest.Finds origin (before ++ after) values ↔
          rest.Finds origin (before ++ (field.name,node) :: after) values := by
        refine finds_congr fun name listed node' => ?_
        have apart : name ≠ field.name := fun equal => notLater (equal ▸ listed)
        simp only [List.perm_middle.mem_iff,List.mem_cons,Prod.mk.injEq,apart,false_and,false_or]
      rw [takeAll_cons_of_member silent,ih distinct others (own.mono (fewer.map Prod.fst).subset)
        fun entry member => complete entry (fewer.subset member)]
      simp only [Finds,only,exists_eq_left,same,forall_eq,false_and,or_false]
    · have missing : ∀ node, (field.name,node) ∉ members := not_exists.mp there
      rw [takeAll_cons_of_missing mine missing,ih distinct single own complete]
      simp only [Finds,missing,false_and,exists_false,false_or,not_false_eq_true,implies_true,true_and]

/-- An object with each name once is read as a record just if each field finds its value. -/
theorem read_object_iff {fields : Fields α} (distinct : fields.names.Nodup) (single : (members.map Prod.fst).Nodup)
    (own : fields.IsOwn (members.map Prod.fst)) (complete : ∀ entry ∈ members, entry.2.isComplete = true) (name : String)
    {value : α} : fields.read name origin (.object (named members) true) = .ok value ↔
      fields.Finds origin members value := by
  rw [← takeAll_iff_finds distinct single own complete,Fields.read]
  cases fields.takeAll origin (named members) fields.empty with
  | error fault => simp [bind,Except.bind]
  | ok draft => simp [bind,Except.bind]

end PinnedMap.Json.Fields
