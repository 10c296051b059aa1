import PinnedMap.ImageMap.Basic
import PinnedMap.Proofs.Page.Look

/-! How edits of a page follow one another: a sequence succeeds if and only if each of its steps does, on
the page that the steps before it leave. What an edit makes of a page is put together from what its steps make of
it, whether they succeed or one of them is refused. -/
namespace PinnedMap.Editing

variable {α β : Type} {page last : Page}

theorem bind_apply (first : Editing α) (rest : α → Editing β) (page : Page) :
    (first >>= rest) page = match first page with
      | (.ok value,next) => rest value next
      | (.error fault,next) => (.error fault,next) := by
  change (match first page with | (value,next) => ExceptT.bindCont rest value next) = _
  cases first page with
  | mk result next => cases result <;> rfl

theorem bind_eq_ok {first : Editing α} {rest : α → Editing β} {result : β} :
    (first >>= rest) page = (.ok result,last) ↔
      ∃ value next, first page = (.ok value,next) ∧ rest value next = (.ok result,last) := by
  rw [bind_apply]
  obtain ⟨found,next⟩ := first page
  cases found with
  | error fault =>
    constructor
    · intro done
      cases done
    · rintro ⟨_,_,opened,_⟩
      cases opened
  | ok value =>
    constructor
    · exact fun done => ⟨value,next,rfl,done⟩
    · rintro ⟨_,_,opened,done⟩
      cases opened
      exact done

theorem get_bind_apply (rest : Page → Editing β) (page : Page) : (get >>= rest) page = rest page page := rfl

theorem liftExcept_apply (result : Except MapFault α) (page : Page) :
    ImageMap.reposition.liftExcept result page = (result,page) := rfl

theorem step_eq_ok {operation : Page → Except PageFault Page} {done : Unit} :
    step operation page = (.ok done,last) ↔ operation page = .ok last := by
  unfold step
  cases operation page with
  | error fault =>
    constructor <;> intro done <;> cases done
  | ok next =>
    constructor <;> intro done <;> cases done <;> rfl

theorem forM_cons_eq_ok {item : α} {items : List α} {edit : α → Editing Unit} {done : Unit} :
    (item :: items).forM edit page = (.ok done,last) ↔
      ∃ next, edit item page = (.ok (),next) ∧ items.forM edit next = (.ok (),last) := by
  change (edit item >>= fun _ => items.forM edit) page = _ ↔ _
  rw [bind_eq_ok]
  constructor
  · rintro ⟨_,next,head,rest⟩
    exact ⟨next,head,rest⟩
  · rintro ⟨next,head,rest⟩
    exact ⟨(),next,head,rest⟩

/-- From pages of one kind an edit leads to pages of another, and to those of a third where it is refused. -/
def Leads (edit : Editing α) (before : Page → Prop) (after : α → Page → Prop) (refused : Page → Prop) : Prop :=
  ∀ page, before page →
    match edit page with
    | (.ok value,next) => after value next
    | (.error _,next) => refused next

variable {before refused : Page → Prop}

theorem leads_pure (value : α) (after : α → Page → Prop) : Leads (pure value) (after value) after refused :=
  fun _ holds => holds

theorem leads_step {operation : Page → Except PageFault Page} {after : Unit → Page → Prop}
    (done : ∀ page next, before page → operation page = .ok next → after () next)
    (failed : ∀ page fault, before page → operation page = .error fault → refused page) :
    Leads (step operation) before after refused := by
  intro page holds
  unfold step
  cases outcome : operation page with
  | ok next => exact done page next holds outcome
  | error fault => exact failed page fault holds outcome

theorem Leads.bind {first : Editing α} {rest : α → Editing β} {middle : α → Page → Prop}
    {after : β → Page → Prop} (head : Leads first before middle refused)
    (tail : ∀ value, Leads (rest value) (middle value) after refused) :
    Leads (first >>= rest) before after refused := by
  intro page holds
  have reached := head page holds
  rw [bind_apply]
  cases edited : first page with
  | mk result next =>
    rw [edited] at reached
    cases result with
    | error fault => exact reached
    | ok value => exact tail value next reached

theorem leads_forM {edit : α → Editing Unit} {holding : List α → Page → Prop}
    (round : ∀ item items, Leads (edit item) (holding (item :: items)) (fun _ => holding items) refused)
    (items : List α) : Leads (items.forM edit) (holding items) (fun _ => holding []) refused := by
  induction items with
  | nil => exact fun page holds => holds
  | cons item items ih => exact (round item items).bind fun _ => ih

end PinnedMap.Editing
