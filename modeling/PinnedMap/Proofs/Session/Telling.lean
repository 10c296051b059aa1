import PinnedMap.Proofs.Session.Chronicle

/-! What a subscriber learns. It reads the first of the events that the session let out, in their order, and all of
them as long as it stays; and what the session lets out is an account of its layout passes, with one event for
each. Both are kept by every step of the session and by all that others do. -/
namespace PinnedMap

def Pass.IsToldBy (id : Uuid) (pass : Pass) (event : MapEvent) : Prop :=
  match pass.result with
  | .ok update => ∃ time, event = .repositioned id update time
  | .error fault => event = .recomputeFailed id (Fault.map fault).message

/-- A pass that succeeds tells what it wrote, and wrote nothing else. -/
def Pass.IsTrue (map : ImageMap) (pass : Pass) : Prop :=
  ∀ update, pass.result = .ok update →
    update.placements = map.placements update.ratio ∧ pass.after = pass.before.putAll update.placements

/-- What there is to tell of a map before it is given up: nothing, or that it is attached and then every pass, of which
the first succeeded. -/
inductive IsCourse (id : Uuid) : List Pass → List MapEvent → Prop
  | silent : IsCourse id [] []
  | followed {natural : Size} {first : Pass} {rest : List Pass} {update : Reposition} {events : List MapEvent}
      (done : first.result = .ok update) (each : List.Forall₂ (Pass.IsToldBy id) (first :: rest) events) :
      IsCourse id (first :: rest) (.attached id natural :: events)

/-- All that is told of a map that is given up: that it could not be loaded, or a course and then its end. -/
inductive IsFullAccount (id : Uuid) : List Pass → List MapEvent → Prop
  | loadFailed (url reason : String) : IsFullAccount id [] [.loadFailed id url reason]
  | disposed {passes : List Pass} {events : List MapEvent} (course : IsCourse id passes events) :
      IsFullAccount id passes (events ++ [.disposed id])

variable {id : Uuid} {pass : Pass} {passes : List Pass} {event : MapEvent} {events : List MapEvent}

theorem Pass.IsToldBy.map_eq (told : pass.IsToldBy id event) : event.map = id := by
  unfold IsToldBy at told
  split at told
  · obtain ⟨_,rfl⟩ := told
    rfl
  · rw [told]
    rfl

theorem IsCourse.map_eq (course : IsCourse id passes events) : ∀ event ∈ events, event.map = id := by
  cases course with
  | silent => simp
  | followed done each =>
    intro event member
    rcases List.mem_cons.mp member with rfl | inside
    · rfl
    · obtain ⟨place,bound,rfl⟩ := List.mem_iff_getElem.mp inside
      exact (each.get (by rw [each.length_eq]; exact bound) bound).map_eq

theorem IsFullAccount.map_eq (account : IsFullAccount id passes events) : ∀ event ∈ events, event.map = id := by
  cases account with
  | loadFailed url reason =>
    intro event member
    rw [List.mem_singleton.mp member]
    rfl
  | disposed course =>
    intro event member
    rcases List.mem_append.mp member with inside | last
    · exact course.map_eq event inside
    · rw [List.mem_singleton.mp last]
      rfl

theorem IsCourse.snoc (course : IsCourse id passes events) (begun : passes ≠ []) (told : pass.IsToldBy id event) :
    IsCourse id (passes ++ [pass]) (events ++ [event]) := by
  cases course with
  | silent => exact absurd rfl begun
  | followed done each => exact .followed done (List.rel_append each (.cons told .nil))

namespace Session

variable {session : Session} {scene : Scene} {next : Session × Scene} {now : Timestamp} {page : Page}

private theorem isTrue_of_mem_passes (member : pass ∈ session.passes page) : pass.IsTrue session.map := by
  unfold passes at member
  split at member
  next natural activity =>
    split at member
    next map after update outcome =>
      obtain rfl := List.mem_singleton.mp member
      intro told done
      obtain rfl := Except.ok.inj done
      exact (ImageMap.attachLoaded_eq_ok outcome).2.2
    next => cases member
  next =>
    obtain rfl := List.mem_singleton.mp member
    exact fun update done => ImageMap.reposition_eq_ok (Prod.ext done rfl)
  next => cases member

end Session

namespace Chronicle

variable {chronicle : Chronicle} {next : Session × Scene} {now : Timestamp} {map : ImageMap}

/-- What was read and what waits to be read is what was let out, as long as anyone reads, and its beginning after. -/
structure Delivers (chronicle : Chronicle) : Prop where
  ordered : chronicle.received ++ chronicle.session.events <+: chronicle.told
  complete : chronicle.session.isRead = true → chronicle.received ++ chronicle.session.events = chronicle.told
  room : chronicle.session.events.length ≤ Session.eventRoom

theorem Delivers.stepped (delivers : chronicle.Delivers)
    (step : Session.Stepped now chronicle.session chronicle.scene next) : (chronicle.stepped next).Delivers := by
  obtain ⟨isRead,events,room⟩ := step.events_eq
  have complete : next.1.isRead = true →
      chronicle.received ++ next.1.events = chronicle.told ++ chronicle.session.tells := by
    intro read
    rw [isRead] at read
    rw [events,if_pos read,← List.append_assoc,delivers.complete read]
  refine ⟨?_,complete,room delivers.room⟩
  cases read : chronicle.session.isRead with
  | true =>
    refine (complete ?_) ▸ List.prefix_refl _
    rw [isRead,read]
  | false =>
    change chronicle.received ++ next.1.events <+: chronicle.told ++ chronicle.session.tells
    rw [events,read]
    simpa using delivers.ordered.trans (List.prefix_append _ _)

theorem Delivers.ordered_nil (delivers : chronicle.Delivers) : chronicle.received ++ [] <+: chronicle.told := by
  rw [List.append_nil]
  exact (List.prefix_append _ _).trans delivers.ordered

theorem Delivers.moved {later : Chronicle} (delivers : chronicle.Delivers) (moved : Moved chronicle later) :
    later.Delivers := by
  cases moved with
  | stepped step => exact delivers.stepped step
  | @read event events unread =>
    have same : (chronicle.received ++ [event]) ++ events = chronicle.received ++ chronicle.session.events := by
      rw [unread]
      simp
    have room := delivers.room
    rw [unread,List.length_cons] at room
    exact ⟨same ▸ delivers.ordered,fun read => same.trans (delivers.complete read),by dsimp only; omega⟩
  | ignored | disposed => exact ⟨delivers.ordered_nil,nofun,Nat.zero_le _⟩
  | idle | heeded | answered | locked | changed | used => exact ⟨delivers.ordered,delivers.complete,delivers.room⟩

def Accounts (id : Uuid) (passes : List Pass) (told : List MapEvent) : Activity → Prop
  | .loading | .loaded _ => passes = [] ∧ told = []
  | .joining _ update => told = [] ∧ ∃ first, passes = [first] ∧ first.result = .ok update
  | .sending event others .listen => passes ≠ [] ∧ IsCourse id passes (told ++ event :: others)
  | .sending event others .stop => others = [] ∧ IsFullAccount id passes (told ++ [event])
  | .listening | .resized => passes ≠ [] ∧ IsCourse id passes told
  | .leaving => IsCourse id passes told
  | .ended => IsFullAccount id passes told

/-- A session speaks of its own map only, and tells the truth about it. -/
structure Speaks (map : ImageMap) (chronicle : Chronicle) : Prop where
  name : chronicle.session.map.id = map.id
  places : chronicle.session.map.placements = map.placements
  isTrue : ∀ pass ∈ chronicle.passes, pass.IsTrue map
  accounts : Accounts map.id chronicle.passes chronicle.told chronicle.session.activity

theorem Accounts.stepped {id : Uuid} (name : chronicle.session.map.id = id)
    (accounts : Accounts id chronicle.passes chronicle.told chronicle.session.activity)
    (step : Session.Stepped now chronicle.session chronicle.scene next) :
    Accounts id (chronicle.stepped next).passes (chronicle.stepped next).told next.1.activity := by
  subst name
  unfold Chronicle.stepped
  cases step with
  | hears activity | lags activity | wakes activity =>
    rw [activity] at accounts
    simpa [Session.tells,Session.passes,activity,Accounts] using accounts
  | misses activity =>
    rw [activity] at accounts
    obtain ⟨passes,told⟩ := accounts
    simp only [Session.tells,Session.passes,activity,passes,told]
    exact ⟨rfl,.loadFailed _ _⟩
  | refuses activity outcome =>
    rw [activity] at accounts
    obtain ⟨passes,told⟩ := accounts
    obtain rfl := ImageMap.attachLoaded_eq_error outcome
    simp only [Session.tells,Session.passes,activity,passes,told,outcome]
    exact ⟨rfl,.loadFailed _ _⟩
  | attaches activity outcome =>
    rw [activity] at accounts
    obtain ⟨passes,told⟩ := accounts
    simp only [Session.tells,Session.passes,activity,passes,told,outcome]
    exact ⟨rfl,_,rfl,rfl⟩
  | joins activity =>
    rw [activity] at accounts
    obtain ⟨told,first,passes,done⟩ := accounts
    simp only [Session.tells,Session.passes,activity,passes,told]
    -- The first pass was made when the map was attached, and is told from here on.
    refine ⟨by simp,.followed done (.cons ?_ .nil)⟩
    rw [Pass.IsToldBy,done]
    exact ⟨_,rfl⟩
  | @tells event other others sequel activity room =>
    rw [activity] at accounts
    simp only [Session.tells,Session.passes,activity,List.append_nil]
    cases sequel with
    | listen =>
      obtain ⟨begun,course⟩ := accounts
      refine ⟨begun,?_⟩
      rw [List.append_assoc]
      exact course
    | stop =>
      obtain ⟨alone,_⟩ := accounts
      cases alone
  | listens activity =>
    rw [activity] at accounts
    simpa [Session.tells,Session.passes,activity,Accounts] using accounts
  | ends activity =>
    rw [activity] at accounts
    simpa [Session.tells,Session.passes,activity,Accounts] using accounts
  | @repositions result page activity pass =>
    rw [activity] at accounts
    obtain ⟨begun,course⟩ := accounts
    simp only [Session.tells,Session.passes,activity,pass,List.append_nil]
    refine ⟨by simp,course.snoc begun ?_⟩
    cases result with
    | ok update => exact ⟨now,rfl⟩
    | error fault => rfl
  | leaves activity =>
    rw [activity] at accounts
    simp only [Session.tells,Session.passes,activity,List.append_nil]
    exact ⟨rfl,.disposed accounts⟩

theorem Speaks.stepped (speaks : chronicle.Speaks map)
    (step : Session.Stepped now chronicle.session chronicle.scene next) : (chronicle.stepped next).Speaks map := by
  obtain ⟨name,_,places⟩ := step.map_eq
  refine ⟨name.trans speaks.name,places.trans speaks.places,fun pass member => ?_,?_⟩
  · rcases List.mem_append.mp member with old | new
    · exact speaks.isTrue pass old
    · have isTrue := Session.isTrue_of_mem_passes new
      unfold Pass.IsTrue at isTrue ⊢
      rwa [speaks.places] at isTrue
  · exact Accounts.stepped speaks.name speaks.accounts step

theorem Speaks.moved {later : Chronicle} (speaks : chronicle.Speaks map) (moved : Moved chronicle later) :
    later.Speaks map := by
  cases moved with
  | stepped step => exact speaks.stepped step
  | heeded _ waiting =>
    have accounts := speaks.accounts
    refine ⟨speaks.name,speaks.places,speaks.isTrue,?_⟩
    rcases waiting with activity | activity
    · rw [activity] at accounts
      obtain ⟨passes,told⟩ := accounts
      simp only [passes,told]
      exact .silent
    · rw [activity] at accounts
      exact accounts.2
  | idle | answered | read | ignored | disposed | locked | changed | used =>
    exact ⟨speaks.name,speaks.places,speaks.isTrue,speaks.accounts⟩

/-- A session takes its leave only when it was told to stop, and then nobody reads any more. -/
structure Parts (chronicle : Chronicle) : Prop where
  cancelled : chronicle.session.isCancelled = true → chronicle.isDisposed = true
  deaf : chronicle.isDisposed = true → chronicle.session.isRead = false
  leaving : chronicle.session.activity = .leaving → chronicle.isDisposed = true
  parting : ∀ id, .disposed id ∈ chronicle.told ++ chronicle.session.pending → chronicle.isDisposed = true
  unheard : ∀ id, .disposed id ∉ chronicle.received ++ chronicle.session.events

theorem Parts.stepped (parts : chronicle.Parts)
    (step : Session.Stepped now chronicle.session chronicle.scene next) : (chronicle.stepped next).Parts := by
  obtain ⟨isRead,events,_⟩ := step.events_eq
  refine ⟨fun cancelled => ?_,fun disposed => ?_,fun leaving => ?_,fun id member => ?_,fun id => ?_⟩
  · exact parts.cancelled (step.isCancelled_eq ▸ cancelled)
  · exact isRead.trans (parts.deaf disposed)
  · exact absurd leaving step.activity_ne_leaving
  · rcases step.pending_eq with left | ⟨silent,last⟩ | ⟨silent,plain⟩
    · exact parts.parting id (by rw [left,← List.append_assoc]; exact member)
    · exact parts.leaving last
    · refine parts.parting id ?_
      change _ ∈ (chronicle.told ++ chronicle.session.tells) ++ next.1.pending at member
      rw [silent,List.append_nil] at member
      exact List.mem_append_left _ ((List.mem_append.mp member).resolve_right (plain id))
  · change _ ∉ chronicle.received ++ next.1.events
    rw [events,← List.append_assoc,List.mem_append,not_or]
    refine ⟨parts.unheard id,?_⟩
    -- Whoever still reads has not told the session to stop, so this is not its last event.
    split_ifs with read
    · intro member
      have disposed := parts.parting id (List.mem_append_right _ (Session.tells_subset_pending member))
      cases (parts.deaf disposed).symm.trans read
    · exact List.not_mem_nil

theorem Parts.moved {later : Chronicle} (parts : chronicle.Parts) (moved : Moved chronicle later) : later.Parts := by
  cases moved with
  | stepped step => exact parts.stepped step
  | heeded cancelled waiting =>
    have disposed := parts.cancelled cancelled
    exact ⟨nofun,parts.deaf,fun _ => disposed,fun _ _ => disposed,parts.unheard⟩
  | @read event events unread =>
    have unheard := parts.unheard
    rw [unread] at unheard
    exact ⟨parts.cancelled,parts.deaf,parts.leaving,parts.parting,by simpa using unheard⟩
  | ignored =>
    refine ⟨parts.cancelled,fun _ => rfl,parts.leaving,parts.parting,fun id member => parts.unheard id ?_⟩
    exact List.mem_append_left _ ((List.mem_append.mp member).resolve_right List.not_mem_nil)
  | disposed =>
    refine ⟨fun _ => rfl,fun _ => rfl,fun _ => rfl,fun _ _ => rfl,fun id member => parts.unheard id ?_⟩
    exact List.mem_append_left _ ((List.mem_append.mp member).resolve_right List.not_mem_nil)
  | idle | answered | locked | changed | used =>
    exact ⟨parts.cancelled,parts.deaf,parts.leaving,parts.parting,parts.unheard⟩

private theorem delivers_afterAll (map : ImageMap) (page : Page) (capacity : Nat) (uses : List Bus.Use)
    (moves : List Move) : ((start map page capacity uses).afterAll moves).Delivers :=
  afterAll_induction ⟨List.nil_prefix,fun _ => rfl,Nat.zero_le _⟩ (fun _ _ => Delivers.moved) moves

theorem speaks_afterAll (map : ImageMap) (page : Page) (capacity : Nat) (uses : List Bus.Use)
    (moves : List Move) : ((start map page capacity uses).afterAll moves).Speaks map :=
  afterAll_induction ⟨rfl,rfl,nofun,rfl,rfl⟩ (fun _ _ => Speaks.moved) moves

theorem parts_afterAll (map : ImageMap) (page : Page) (capacity : Nat) (uses : List Bus.Use)
    (moves : List Move) : ((start map page capacity uses).afterAll moves).Parts :=
  afterAll_induction ⟨nofun,nofun,nofun,nofun,nofun⟩ (fun _ _ => Parts.moved) moves

/-- What was told is the beginning of a whole account, or all of it where the session waits for a resize or has
ended. -/
theorem Speaks.exists_account (speaks : chronicle.Speaks map) :
    ∃ account, (IsCourse map.id chronicle.passes account ∨ IsFullAccount map.id chronicle.passes account) ∧
      chronicle.told <+: account ∧
      (chronicle.session.activity = .listening ∨ chronicle.session.activity = .ended →
        chronicle.told = account) := by
  have accounts := speaks.accounts
  cases activity : chronicle.session.activity with
  | loading | loaded =>
    rw [activity] at accounts
    obtain ⟨passes,told⟩ := accounts
    rw [passes,told]
    exact ⟨[],.inl .silent,List.nil_prefix,fun _ => rfl⟩
  | joining natural update =>
    rw [activity] at accounts
    obtain ⟨told,first,passes,done⟩ := accounts
    rw [passes,told]
    have event : first.IsToldBy map.id (.repositioned map.id update default) := by
      rw [Pass.IsToldBy,done]
      exact ⟨_,rfl⟩
    have course : IsCourse map.id [first] [.attached map.id natural,.repositioned map.id update default] :=
      .followed done (.cons event .nil)
    exact ⟨_,.inl course,List.nil_prefix,by simp⟩
  | sending event others sequel =>
    rw [activity] at accounts
    cases sequel with
    | listen => exact ⟨_,.inl accounts.2,List.prefix_append _ _,by simp⟩
    | stop => exact ⟨_,.inr accounts.2,List.prefix_append _ _,by simp⟩
  | listening | resized =>
    rw [activity] at accounts
    exact ⟨_,.inl accounts.2,List.prefix_refl _,fun _ => rfl⟩
  | leaving =>
    rw [activity] at accounts
    exact ⟨_,.inl accounts,List.prefix_refl _,fun _ => rfl⟩
  | ended =>
    rw [activity] at accounts
    exact ⟨_,.inr accounts,List.prefix_refl _,fun _ => rfl⟩

/-- The events of a session, whatever it and all others did in whatever order. -/
theorem events_of_session (map : ImageMap) (page : Page) (capacity : Nat) (uses : List Bus.Use)
    (moves : List Move) :
    let chronicle := (start map page capacity uses).afterAll moves
    chronicle.received ++ chronicle.session.events <+: chronicle.told ∧
      (chronicle.session.isRead = true → chronicle.received ++ chronicle.session.events = chronicle.told) ∧
      chronicle.session.events.length ≤ Session.eventRoom ∧
      (∃ account, (IsCourse map.id chronicle.passes account ∨ IsFullAccount map.id chronicle.passes account) ∧
        chronicle.told <+: account ∧
        (chronicle.session.activity = .listening ∨ chronicle.session.activity = .ended →
          chronicle.told = account)) ∧
      (∀ pass ∈ chronicle.passes, pass.IsTrue map) ∧
      (∀ event ∈ chronicle.told, event.map = map.id) ∧
      ∀ id, .disposed id ∉ chronicle.received := by
  intro chronicle
  have delivers : chronicle.Delivers := delivers_afterAll map page capacity uses moves
  have speaks : chronicle.Speaks map := speaks_afterAll map page capacity uses moves
  have parts : chronicle.Parts := parts_afterAll map page capacity uses moves
  obtain ⟨account,shape,told,whole⟩ := speaks.exists_account
  refine ⟨delivers.ordered,delivers.complete,delivers.room,⟨account,shape,told,whole⟩,speaks.isTrue,?_,?_⟩
  · intro event member
    have inside : event ∈ account := told.subset member
    rcases shape with course | full
    · exact course.map_eq event inside
    · exact full.map_eq event inside
  · exact fun id member => parts.unheard id (List.mem_append_left _ member)

/-- Two of three events are read: the second pass waits behind them. -/
example :
    let page := (Page.ofViewport ⟨1000,600⟩).performAll
      [.create "div",.append Page.body ⟨1⟩,.create "button",.create "img",.setStyle ⟨3⟩ "width" "100%"]
    let map : ImageMap := ⟨⟨7⟩,⟨"plan.png",[⟨100,50,none⟩]⟩,{},[⟨2⟩],⟨1⟩,⟨3⟩,none,.loading⟩
    let chronicle := (start map page 1 []).afterAll [.answer (.ok ⟨1000,500⟩),.act default,.act default,
      .act default,.act default,.act default,.change (.setViewport ⟨500,600⟩),
      .use (.announce ⟨⟨500,600⟩,default⟩),.act default,.act default,.act default,.read,.read]
    chronicle.received =
        [.attached ⟨7⟩ ⟨1000,500⟩,.repositioned ⟨7⟩ ⟨⟨1,1⟩,[⟨0,⟨2⟩,100,50⟩]⟩ default] ∧
      chronicle.session.events = [.repositioned ⟨7⟩ ⟨⟨0.5,0.5⟩,[⟨0,⟨2⟩,50,25⟩]⟩ default] ∧
      chronicle.passes.length = 2 := by
  decide +kernel

end Chronicle
end PinnedMap
