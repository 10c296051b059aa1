import PinnedMap.Proofs.Session.Seating
import PinnedMap.Proofs.Session.Stopping
import PinnedMap.Proofs.Session.Telling

/-! How a session ends. A session that was told to stop is never stuck: from wherever it is, each of its turns brings
it closer to its end, and others can only keep it from the page. When it ends it gives its map back, with the wrapper
out of the container, and from then on it has no part in what becomes of the page and the bus. -/
namespace PinnedMap.Chronicle

variable {chronicle : Chronicle} {next : Session × Scene} {now : Timestamp} {map : ImageMap}

def IsMounted (map : ImageMap) (chronicle : Chronicle) : Prop :=
  chronicle.hasFailed = false ∧
    ∃ wrapper, chronicle.session.map = map.wrappedIn wrapper ∧ chronicle.wrapper = some wrapper

def remains (map : ImageMap) (chronicle : Chronicle) : ImageMap :=
  if chronicle.hasFailed then map.markFailed else map.disposed

/-- The map is given up. Its wrapper is out of the container, unless others hung it back, or the map was not loading
when it came and the session could not use it. -/
def IsGivenUp (map : ImageMap) (chronicle : Chronicle) : Prop :=
  chronicle.session.map = chronicle.remains map ∧
    (chronicle.hasFailed = false ∨ map.phase = .loading → chronicle.isRehung = false →
      chronicle.isHung chronicle.scene.page = false)

/-- How things stand, by what the session is at. -/
def Stands (map : ImageMap) (chronicle : Chronicle) : Activity → Prop
  | .loading | .loaded _ =>
    chronicle.hasFailed = false ∧ chronicle.session.map = map ∧ chronicle.wrapper = map.wrapper ∧
      chronicle.session.place = none
  | .joining .. => chronicle.IsMounted map ∧ chronicle.session.place = none
  | .sending _ _ .listen | .listening | .resized => chronicle.IsMounted map ∧ chronicle.session.place.isSome = true
  | .leaving =>
    chronicle.hasFailed = false ∧ chronicle.session.map.disposed = map.disposed ∧
      chronicle.session.map.wrapper = chronicle.wrapper
  | .sending _ _ .stop => chronicle.IsGivenUp map
  | .ended =>
    chronicle.IsGivenUp map ∧ chronicle.session.place = none ∧ chronicle.returned = some (.ok chronicle.session.map)

structure Keeps (map : ImageMap) (chronicle : Chronicle) : Prop where
  forest : chronicle.scene.page.IsForest
  unbroken : chronicle.session.fault = none
  container : chronicle.session.map.container = map.container
  counted : chronicle.scene.bus.listeners = chronicle.others + chronicle.session.ownListeners
  stands : Stands map chronicle chronicle.session.activity

private theorem stepped_wrapper (same : next.2.page.elements.size = chronicle.scene.page.elements.size) :
    (chronicle.stepped next).wrapper = chronicle.wrapper := by
  unfold stepped
  dsimp only
  rw [if_neg (by omega)]

private theorem isHung_of_unwrapped (unwrapped : chronicle.wrapper = none) (page : Page) :
    chronicle.isHung page = false := by
  rw [isHung,unwrapped]
  rfl

private theorem isHung_of_wrapper {wrapper : ElementId} {page : Page} (own : chronicle.wrapper = some wrapper)
    (apart : page.parent wrapper ≠ some chronicle.session.map.container) : chronicle.isHung page = false := by
  rw [isHung,own]
  simpa using apart

private theorem isGivenUp_of_refused (whole : map.IsWhole) (own : chronicle.wrapper = map.wrapper)
    {page : Page} {session : Session} (failed : chronicle.session.fails chronicle.scene.page = true)
    (left : session.map = map.markFailed)
    (orphan : page.elements.size = chronicle.scene.page.elements.size ∨
      page.parent ⟨chronicle.scene.page.elements.size⟩ = none) (bus : Bus) :
    (chronicle.stepped (session,⟨page,bus⟩)).IsGivenUp map := by
  have hasFailed : (chronicle.stepped (session,⟨page,bus⟩)).hasFailed = true := by
    simp [stepped,failed]
  refine ⟨?_,fun cause _ => ?_⟩
  · rw [remains,hasFailed]
    exact left
  · rw [hasFailed] at cause
    have unwrapped : map.wrapper = none := by
      have wrapped := whole.wrapped
      rw [cause.resolve_left (by simp)] at wrapped
      simpa using wrapped
    by_cases grown : chronicle.scene.page.elements.size < page.elements.size
    · have made : (chronicle.stepped (session,⟨page,bus⟩)).wrapper = some ⟨chronicle.scene.page.elements.size⟩ := by
        simp [stepped,grown]
      refine isHung_of_wrapper made ?_
      rw [show (chronicle.stepped (session,⟨page,bus⟩)).scene.page = page from rfl,orphan.resolve_left (by omega)]
      nofun
    · refine isHung_of_unwrapped ?_ _
      simp [stepped,grown,own,unwrapped]

theorem IsMounted.stepped (mounted : chronicle.IsMounted map) (same : next.1.map = chronicle.session.map)
    (size : next.2.page.elements.size = chronicle.scene.page.elements.size)
    (passed : chronicle.session.fails chronicle.scene.page = false) : (chronicle.stepped next).IsMounted map := by
  obtain ⟨unfailed,wrapper,wrapped,own⟩ := mounted
  refine ⟨?_,wrapper,same.trans wrapped,(stepped_wrapper size).trans own⟩
  simp [Chronicle.stepped,unfailed,passed]

theorem IsGivenUp.stepped (givenUp : chronicle.IsGivenUp map) {session : Session} {bus : Bus}
    (same : session.map = chronicle.session.map) (passed : chronicle.session.fails chronicle.scene.page = false)
    (spared : chronicle.session.needsPage = false) :
    (chronicle.stepped (session,⟨chronicle.scene.page,bus⟩)).IsGivenUp map := by
  have own : (chronicle.stepped (session,⟨chronicle.scene.page,bus⟩)).wrapper = chronicle.wrapper :=
    stepped_wrapper rfl
  obtain ⟨left,hung⟩ := givenUp
  refine ⟨?_,fun cause still => ?_⟩
  · simpa [Chronicle.stepped,remains,passed] using same.trans left
  · have before := hung (by simpa [Chronicle.stepped,passed] using cause)
      (by simpa [Chronicle.stepped,spared] using still)
    rw [isHung,own]
    simpa [isHung,Chronicle.stepped,same] using before

private theorem isGivenUp_of_left (unfailed : chronicle.hasFailed = false)
    (same : chronicle.session.map.disposed = map.disposed) (own : chronicle.session.map.wrapper = chronicle.wrapper)
    {session : Session} (left : session.map = chronicle.session.map.disposed)
    (passed : chronicle.session.fails chronicle.scene.page = false) (bus : Bus) :
    (chronicle.stepped (session,⟨chronicle.session.map.unhung chronicle.scene.page,bus⟩)).IsGivenUp map := by
  refine ⟨?_,fun _ _ => ?_⟩
  · simpa [Chronicle.stepped,remains,unfailed,passed] using left.trans same
  · have kept : (chronicle.stepped (session,⟨chronicle.session.map.unhung chronicle.scene.page,bus⟩)).wrapper =
        chronicle.session.map.wrapper :=
      (stepped_wrapper (ImageMap.size_unhung ..)).trans own.symm
    cases wrapper : chronicle.session.map.wrapper with
    | none => exact isHung_of_unwrapped (kept.trans wrapper) _
    | some id =>
      refine isHung_of_wrapper (kept.trans wrapper) ?_
      have apart := ImageMap.parent_unhung wrapper chronicle.scene.page
      simpa [Chronicle.stepped,left,ImageMap.disposed] using apart

/-- The step: how things stand after it follows from how they stood before. -/
theorem Stands.stepped (whole : map.IsWhole) (keeps : chronicle.Keeps map)
    (step : Session.Stepped now chronicle.session chronicle.scene next) :
    Stands map (chronicle.stepped next) next.1.activity := by
  have stands := keeps.stands
  have unbroken := step.fault_eq.trans keeps.unbroken
  cases step with
  | hears activity answer =>
    rw [activity] at stands
    obtain ⟨unfailed,same,own,place⟩ := stands
    refine ⟨?_,same,(stepped_wrapper rfl).trans own,place⟩
    simp [Chronicle.stepped,Session.fails,activity,answer,unfailed]
  | misses activity answer =>
    rw [activity] at stands
    obtain ⟨_,same,own,_⟩ := stands
    refine isGivenUp_of_refused whole own ?_ (congrArg ImageMap.markFailed same) (.inl rfl) _
    simp [Session.fails,activity,answer]
  | refuses activity outcome =>
    rw [activity] at stands
    obtain ⟨_,same,own,_⟩ := stands
    obtain rfl := ImageMap.attachLoaded_eq_error outcome
    refine isGivenUp_of_refused whole own ?_ (congrArg ImageMap.markFailed same)
      (ImageMap.orphan_of_attachLoaded keeps.forest outcome) _
    simp [Session.fails,activity,outcome,Except.isOk,Except.toBool]
  | attaches activity outcome =>
    rw [activity] at stands
    obtain ⟨unfailed,same,_,place⟩ := stands
    obtain ⟨rfl,grown,_⟩ := ImageMap.attachLoaded_eq_ok outcome
    refine ⟨⟨?_,_,congrArg (ImageMap.wrappedIn · _) same,?_⟩,place⟩
    · simp [Chronicle.stepped,Session.fails,activity,outcome,unfailed,Except.isOk,Except.toBool]
    · simp [Chronicle.stepped,grown]
  | joins activity =>
    rw [activity] at stands
    exact ⟨stands.1.stepped rfl rfl (by simp [Session.fails,activity]),rfl⟩
  | @tells event other others sequel activity =>
    have passed : chronicle.session.fails chronicle.scene.page = false := by simp [Session.fails,activity]
    have noted := Session.noting_map chronicle.session event
    rw [activity] at stands
    cases sequel with
    | listen =>
      refine ⟨stands.1.stepped noted rfl passed,?_⟩
      exact (congrArg Option.isSome (Session.noting_place ..)).trans stands.2
    | stop => exact stands.stepped noted passed (by simp [Session.needsPage,activity])
  | listens activity =>
    rw [activity] at stands
    refine ⟨stands.1.stepped (Session.noting_map ..) rfl (by simp [Session.fails,activity]),?_⟩
    exact (congrArg Option.isSome (Session.noting_place ..)).trans stands.2
  | ends activity =>
    rw [activity] at stands
    refine ⟨stands.stepped (Session.noting_map ..) ?_ ?_,rfl,?_⟩
    · simp [Session.fails,activity]
    · simp [Session.needsPage,activity]
    · exact congrArg some (Session.result_of_unbroken unbroken)
  | lags activity =>
    rw [activity] at stands
    dsimp only
    rw [activity]
    exact ⟨stands.1.stepped rfl rfl (by simp [Session.fails,activity]),rfl⟩
  | wakes activity =>
    rw [activity] at stands
    exact ⟨stands.1.stepped rfl rfl (by simp [Session.fails,activity]),rfl⟩
  | repositions activity pass =>
    rw [activity] at stands
    have size := ImageMap.size_reposition chronicle.session.map chronicle.scene.page
    rw [pass] at size
    exact ⟨stands.1.stepped rfl size (by simp [Session.fails,activity]),stands.2⟩
  | leaves activity =>
    rw [activity] at stands
    obtain ⟨unfailed,same,own⟩ := stands
    exact isGivenUp_of_left unfailed same own rfl (by simp [Session.fails,activity]) _

theorem Keeps.stepped_forest (keeps : chronicle.Keeps map)
    (step : Session.Stepped now chronicle.session chronicle.scene next) : next.2.page.IsForest := by
  have forest := keeps.forest
  cases step with
  | @refuses natural _ _ _ activity outcome | @attaches natural _ _ _ activity outcome =>
    have kept := ImageMap.isForest_attachLoaded natural chronicle.session.map forest
    rwa [outcome] at kept
  | repositions activity pass =>
    have kept := ImageMap.isForest_reposition chronicle.session.map forest
    rwa [pass] at kept
  | leaves activity => exact ImageMap.isForest_unhung _ forest
  | hears | misses | joins | tells | listens | ends | lags | wakes => exact forest

theorem Stands.apart {natural : Size} {update : Reposition} (stands : Stands map chronicle chronicle.session.activity)
    (activity : chronicle.session.activity = .joining natural update) : chronicle.session.place = none := by
  rw [activity] at stands
  exact stands.2

theorem Keeps.stepped (keeps : chronicle.Keeps map) (whole : map.IsWhole)
    (step : Session.Stepped now chronicle.session chronicle.scene next) : (chronicle.stepped next).Keeps map := by
  have counted := step.counted keeps.counted fun _ _ => keeps.stands.apart
  exact ⟨keeps.stepped_forest step,step.fault_eq.trans keeps.unbroken,step.map_eq.2.1.trans keeps.container,counted,
    Stands.stepped whole keeps step⟩

theorem IsGivenUp.changed (givenUp : chronicle.IsGivenUp map) (operation : Page.Operation) :
    (chronicle.changed operation).IsGivenUp map := by
  obtain ⟨left,hung⟩ := givenUp
  refine ⟨left,fun cause still => ?_⟩
  obtain ⟨before,after⟩ := Bool.or_eq_false_iff.mp still
  rw [hung cause before] at after
  exact after

theorem Keeps.changed (keeps : chronicle.Keeps map) (operation : Page.Operation) :
    (chronicle.changed operation).Keeps map := by
  have stands := keeps.stands
  refine ⟨keeps.forest.perform operation,keeps.unbroken,keeps.container,keeps.counted,?_⟩
  change Stands map (chronicle.changed operation) chronicle.session.activity
  cases activity : chronicle.session.activity with
  | sending event others sequel =>
    rw [activity] at stands
    cases sequel with
    | listen => exact stands
    | stop => exact IsGivenUp.changed stands operation
  | ended =>
    rw [activity] at stands
    exact ⟨IsGivenUp.changed stands.1 operation,stands.2⟩
  | loading | loaded | joining | listening | resized | leaving =>
    rw [activity] at stands
    exact stands

theorem Keeps.moved {later : Chronicle} (whole : map.IsWhole) (keeps : chronicle.Keeps map)
    (moved : Moved chronicle later) : later.Keeps map := by
  have stands := keeps.stands
  cases moved with
  | stepped step => exact keeps.stepped whole step
  | heeded _ waiting =>
    refine ⟨keeps.forest,keeps.unbroken,keeps.container,keeps.counted,?_⟩
    rcases waiting with activity | activity
    · rw [activity] at stands
      obtain ⟨unfailed,same,own,_⟩ := stands
      exact ⟨unfailed,congrArg ImageMap.disposed same,(congrArg ImageMap.wrapper same).trans own.symm⟩
    · rw [activity] at stands
      obtain ⟨⟨unfailed,wrapper,same,own⟩,_⟩ := stands
      exact ⟨unfailed,(congrArg ImageMap.disposed same).trans rfl,(congrArg ImageMap.wrapper same).trans own.symm⟩
  | changed operation => exact keeps.changed operation
  | used listened => exact ⟨keeps.forest,keeps.unbroken,keeps.container,used_counted keeps.counted listened,stands⟩
  | idle | answered | read | ignored | disposed | locked =>
    exact ⟨keeps.forest,keeps.unbroken,keeps.container,keeps.counted,stands⟩

private theorem isReleased_moved {later : Chronicle}
    (released : chronicle.isDisposed = true → chronicle.session.IsReleased) (moved : Moved chronicle later) :
    later.isDisposed = true → later.session.IsReleased := by
  intro disposed
  cases moved with
  | stepped step => exact step.isReleased (released disposed)
  | heeded => exact (released disposed).of_leaving
  | ignored => exact ⟨rfl,(released disposed).told⟩
  | disposed => exact ⟨rfl,.inl rfl⟩
  | idle | answered | read | locked | changed | used => exact ⟨(released disposed).unread,(released disposed).told⟩

def Move.operations : Move → List Page.Operation
  | .change operation => [operation]
  | _ => []

private theorem ended_moved {later : Chronicle} (ended : chronicle.session.activity = .ended)
    (moved : Moved chronicle later) :
    later.session.activity = .ended ∧ later.returned = chronicle.returned := by
  cases moved with
  | stepped step => exact absurd ended step.activity_ne_ended
  | heeded _ waiting => simp [ended] at waiting
  | idle | answered | read | ignored | disposed | locked | changed | used => exact ⟨ended,rfl⟩

private theorem page_after_of_ended (ended : chronicle.session.activity = .ended) (move : Move) :
    (chronicle.after move).scene.page = chronicle.scene.page.performAll move.operations := by
  cases move with
  | act now =>
    rw [after,act,Session.step?,ended]
    split_ifs <;> rfl
  | change operation =>
    rw [after,change,if_neg (by simp [Session.holdsPage,ended])]
    rfl
  | read =>
    rw [after,read]
    split <;> rfl
  | use use =>
    rw [after,Chronicle.use]
    split_ifs <;> rfl
  | heed | answer | ignore | dispose | take | free => rfl

private theorem afterAll_of_ended (ended : chronicle.session.activity = .ended) (moves : List Move) :
    (chronicle.afterAll moves).session.activity = .ended ∧
      (chronicle.afterAll moves).scene.page = chronicle.scene.page.performAll (moves.flatMap Move.operations) ∧
      (chronicle.afterAll moves).returned = chronicle.returned := by
  induction moves generalizing chronicle with
  | nil => exact ⟨ended,rfl,rfl⟩
  | cons move moves ih =>
    obtain ⟨still,returned⟩ := ended_moved ended (moved_after chronicle move)
    obtain ⟨last,page,kept⟩ := ih still
    refine ⟨last,page.trans ?_,kept.trans returned⟩
    rw [page_after_of_ended ended,List.flatMap_cons,Page.performAll,Page.performAll,Page.performAll,List.foldl_append]

private theorem keeps_start (map : ImageMap) {page : Page} (forest : page.IsForest) (capacity : Nat)
    (uses : List Bus.Use) : (start map page capacity uses).Keeps map :=
  ⟨forest,rfl,rfl,rfl,rfl,rfl,rfl,rfl⟩

private theorem stepsLeft_cancel_le (session : Session) :
    (session.cancel?.getD session).stepsLeft ≤ session.stepsLeft := by
  unfold Session.cancel?
  split_ifs
  · cases activity : session.activity <;> simp [Session.stepsLeft,activity]
  · exact Nat.le_refl _

private theorem stepsLeft_after_le (chronicle : Chronicle) {move : Move} (others : ∀ now, move ≠ .act now) :
    (chronicle.after move).session.stepsLeft ≤ chronicle.session.stepsLeft := by
  cases move with
  | act now => exact absurd rfl (others now)
  | heed => exact stepsLeft_cancel_le chronicle.session
  | read =>
    rw [after,read,Session.next?]
    cases chronicle.session.events <;> exact Nat.le_refl _
  | change operation =>
    rw [after,change]
    split_ifs <;> exact Nat.le_refl _
  | use use =>
    rw [after,Chronicle.use]
    split_ifs <;> exact Nat.le_refl _
  | answer | ignore | dispose | take | free => exact Nat.le_refl _

private theorem exists_turn (released : chronicle.session.IsReleased) (running : chronicle.session.activity ≠ .ended)
    (free : chronicle.isBarred = false) (now : Timestamp) :
    ∃ move ∈ [.heed,.act now], (chronicle.after move).session.stepsLeft < chronicle.session.stepsLeft := by
  rcases released.turn running now chronicle.scene with ⟨next,heeds,_,less⟩ | ⟨_,next,step,_,less⟩
  · refine ⟨.heed,by simp,?_⟩
    rw [after,heeds]
    exact less
  · refine ⟨.act now,by simp,?_⟩
    rw [after,act,free,step]
    exact less

private theorem not_ended_of_passes (speaks : chronicle.Speaks map) (parts : chronicle.Parts)
    (wanted : chronicle.isDisposed = false) (attached : chronicle.passes ≠ []) :
    chronicle.session.activity ≠ .ended := by
  intro ended
  have accounts := speaks.accounts
  rw [ended] at accounts
  generalize chronicle.passes = passes at accounts attached
  generalize told : chronicle.told = events at accounts
  cases accounts with
  | loadFailed => exact attached rfl
  | disposed course =>
    have disposed := parts.parting map.id (by simp [told])
    rw [wanted] at disposed
    cases disposed

/-- How a session ends, whatever it and all others did before and do afterwards. -/
theorem end_of_session (map : ImageMap) {page : Page} (forest : page.IsForest) (whole : map.IsWhole)
    (capacity : Nat) (uses : List Bus.Use) (moves : List Move) :
    let chronicle := (start map page capacity uses).afterAll moves
    (chronicle.isDisposed = true → chronicle.session.isEnded = false →
        (chronicle.isBarred = false → ∀ now, ∃ move ∈ [.heed,.act now],
          (chronicle.after move).session.stepsLeft < chronicle.session.stepsLeft) ∧
        (∀ move, (∀ now, move ≠ .act now) →
          (chronicle.after move).session.stepsLeft ≤ chronicle.session.stepsLeft) ∧
        ∀ now scene, (chronicle.session.run now chronicle.session.stepsLeft scene).1.isEnded = true) ∧
      (chronicle.session.isEnded = true →
        (∃ left, chronicle.returned = some (.ok left) ∧
          left = (if chronicle.hasFailed then map.markFailed else map.disposed) ∧
          left.phase =
            if chronicle.hasFailed then (if map.phase = .loading then .failed else map.phase) else .disposed) ∧
        (chronicle.hasFailed = false ∨ map.phase = .loading → chronicle.isRehung = false →
          ∀ wrapper, chronicle.wrapper = some wrapper → chronicle.scene.page.parent wrapper ≠ some map.container ∧
            wrapper ∉ chronicle.scene.page.children map.container) ∧
        chronicle.session.place = none ∧
        ∀ later,
          (chronicle.afterAll later).scene.page =
              chronicle.scene.page.performAll (later.flatMap Move.operations) ∧
            (chronicle.afterAll later).returned = chronicle.returned ∧
            (chronicle.afterAll later).scene.bus.listeners = (chronicle.afterAll later).others) ∧
      (chronicle.isDisposed = false → chronicle.passes ≠ [] → chronicle.session.isEnded = false) := by
  intro chronicle
  have keeps : chronicle.Keeps map :=
    afterAll_induction (keeps_start map forest capacity uses) (fun _ _ keeps => keeps.moved whole) moves
  refine ⟨fun disposed running => ?_,fun ended => ?_,fun wanted attached => ?_⟩
  · have released : chronicle.isDisposed = true → chronicle.session.IsReleased :=
      afterAll_induction nofun (fun _ _ => isReleased_moved) moves
    have running : chronicle.session.activity ≠ .ended := by
      rwa [ne_eq,← Session.isEnded_iff,Bool.not_eq_true]
    refine ⟨fun free now => exists_turn (released disposed) running free now,fun move others => ?_,fun now scene => ?_⟩
    · exact stepsLeft_after_le chronicle others
    · rw [Session.isEnded_iff]
      exact (released disposed).run (Nat.le_refl _) now scene
  · rw [Session.isEnded_iff] at ended
    have stands := keeps.stands
    rw [ended] at stands
    obtain ⟨⟨left,hung⟩,place,returned⟩ := stands
    refine ⟨⟨_,returned,left,?_⟩,fun cause still wrapper own => ?_,place,fun later => ?_⟩
    · rw [left,remains,ImageMap.markFailed]
      split_ifs <;> rfl
    · have out := hung cause still
      have apart : chronicle.scene.page.parent wrapper ≠ some map.container := by
        rw [isHung,own,keeps.container] at out
        simpa using out
      exact ⟨apart,keeps.forest.not_mem_children apart⟩
    · obtain ⟨still,same,kept⟩ := afterAll_of_ended ended later
      have keeps : (chronicle.afterAll later).Keeps map :=
        afterAll_induction keeps (fun _ _ keeps => keeps.moved whole) later
      have stands := keeps.stands
      have counted := keeps.counted
      rw [still] at stands
      rw [Session.ownListeners,stands.2.1] at counted
      exact ⟨same,kept,counted⟩
  · have speaks : chronicle.Speaks map := speaks_afterAll map page capacity uses moves
    have parts : chronicle.Parts := parts_afterAll map page capacity uses moves
    have running := not_ended_of_passes speaks parts wanted attached
    rwa [ne_eq,← Session.isEnded_iff,Bool.not_eq_true] at running

/-- The session is told to stop with a resize unread and the page taken, and leaves when the page is free. -/
theorem end_of_session_after_resize :
    let page := (Page.ofViewport ⟨800,600⟩).performAll
      [.create "div",.append Page.body ⟨1⟩,.create "button",.create "img"]
    let map : ImageMap := ⟨⟨7⟩,⟨"plan.png",[⟨100,50,none⟩]⟩,{},[⟨2⟩],⟨1⟩,⟨3⟩,none,.loading⟩
    let moves : List Move := [.answer (.ok ⟨1000,500⟩),.act default,.act default,.act default,.act default,
      .act default,.use (.announce ⟨⟨500,600⟩,default⟩),.take,.dispose,.heed,.act default,.free,.act default,
      .act default]
    ∃ chronicle, (start map page 1 []).afterAll moves = chronicle ∧ page.IsForest ∧ map.IsWhole ∧
      chronicle.isDisposed = true ∧ chronicle.session.isEnded = true ∧
      (∃ left, chronicle.returned = some (.ok left) ∧ left.phase = .disposed) ∧
      chronicle.scene.page.parent ⟨4⟩ ≠ some map.container ∧ chronicle.session.place = none := by
  intro page map moves
  have forest : page.IsForest := (Page.isForest_ofViewport ⟨800,600⟩).performAll _
  have whole : map.IsWhole := ⟨rfl,by decide⟩
  have disposed : ((start map page 1 []).afterAll moves).isDisposed = true := by decide +kernel
  have ended : ((start map page 1 []).afterAll moves).session.isEnded = true := by decide +kernel
  have unfailed : ((start map page 1 []).afterAll moves).hasFailed = false := by decide +kernel
  have alone : ((start map page 1 []).afterAll moves).isRehung = false := by decide +kernel
  have wrapper : ((start map page 1 []).afterAll moves).wrapper = some ⟨4⟩ := by decide +kernel
  obtain ⟨_,atEnd,_⟩ := end_of_session map forest whole 1 [] moves
  obtain ⟨⟨left,returned,_,phase⟩,out,place,_⟩ := atEnd ended
  rw [unfailed] at phase
  exact ⟨_,rfl,forest,whole,disposed,ended,⟨left,returned,phase⟩,(out (.inl unfailed) alone ⟨4⟩ wrapper).1,place⟩

/-- The wrapper hangs in the container at the end of a session that could not use a map, since that was attached
before, and of one that others hung the wrapper back for after it had left. -/
theorem wrapper_hangs_at_end :
    let page := (Page.ofViewport ⟨800,600⟩).performAll
      [.create "div",.append Page.body ⟨1⟩,.create "button",.create "img",.resolveImage ⟨3⟩ ⟨100,50⟩]
    let map : ImageMap := ⟨⟨7⟩,⟨"plan.png",[⟨1,1,none⟩]⟩,{},[⟨2⟩],⟨1⟩,⟨3⟩,none,.loading⟩
    let refused := (start (map.attach page).map (map.attach page).page 1 []).afterAll
      [.answer (.ok ⟨100,50⟩),.act default,.act default,.dispose,.act default]
    let rehung := (start map page 1 []).afterAll [.answer (.ok ⟨100,50⟩),.act default,.act default,.act default,
      .act default,.act default,.dispose,.heed,.act default,.change (.append ⟨1⟩ ⟨4⟩),.act default]
    (refused.isDisposed = true ∧ refused.session.isEnded = true ∧ refused.hasFailed = true ∧
        refused.session.map.phase = .attached ∧ refused.wrapper = some ⟨4⟩ ∧
        refused.scene.page.parent ⟨4⟩ = some map.container) ∧
      rehung.isDisposed = true ∧ rehung.session.isEnded = true ∧ rehung.session.map.phase = .disposed ∧
        rehung.wrapper = some ⟨4⟩ ∧ rehung.scene.page.parent ⟨4⟩ = some map.container := by
  decide +kernel

end PinnedMap.Chronicle
