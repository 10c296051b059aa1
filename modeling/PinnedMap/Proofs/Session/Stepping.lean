import PinnedMap.Proofs.ImageMap.Loading
import PinnedMap.Proofs.Session.Steps

/-! All that one step of a session can do, one case for each thing that can happen. What a session keeps is shown
case by case from here on, and its steps are not opened again. -/
namespace PinnedMap.Session

variable {session : Session} {scene : Scene} {next : Session × Scene} {now : Timestamp}

def freed (session : Session) (bus : Bus) : Bus := if session.holdsBus then bus.release else bus

def left (session : Session) (bus : Bus) : Bus :=
  if session.place.isSome then (session.freed bus).unsubscribe else session.freed bus

def news (now : Timestamp) (session : Session) : Except MapFault Reposition → MapEvent
  | .ok update => .repositioned session.map.id update now
  | .error fault => .recomputeFailed session.map.id (Fault.map fault).message

def tells (session : Session) : List MapEvent :=
  match session.activity with
  | .sending event _ _ => [event]
  | _ => []

/-- The events that a session is about to let out. -/
def pending (session : Session) : List MapEvent :=
  match session.activity with
  | .sending event others _ => event :: others
  | _ => []

inductive Stepped (now : Timestamp) (session : Session) (scene : Scene) : Session × Scene → Prop
  | hears {natural : Size} (activity : session.activity = .loading) (answer : session.answer = some (.ok natural)) :
      Stepped now session scene ({ session with activity := .loaded natural },scene)
  | misses {fault : Fault} (activity : session.activity = .loading) (answer : session.answer = some (.error fault)) :
      Stepped now session scene (session.fail fault,scene)
  | refuses {natural : Size} {map : ImageMap} {page : Page} {fault : MapFault}
      (activity : session.activity = .loaded natural)
      (outcome : session.map.attachLoaded natural scene.page = ⟨map,page,.error fault⟩) :
      Stepped now session scene
        ({ session with map, holdsBus := false }.fail (.map fault),⟨page,session.freed scene.bus⟩)
  | attaches {natural : Size} {map : ImageMap} {page : Page} {update : Reposition}
      (activity : session.activity = .loaded natural)
      (outcome : session.map.attachLoaded natural scene.page = ⟨map,page,.ok update⟩) :
      Stepped now session scene ({ session with map, activity := .joining natural update },⟨page,scene.bus⟩)
  | joins {natural : Size} {update : Reposition} (activity : session.activity = .joining natural update) :
      Stepped now session scene
        ({ session with
            holdsBus := false
            place := some scene.bus.sent
            activity := .sending (.attached session.map.id natural) [session.news now (.ok update)] .listen },
          ⟨scene.page,session.freed scene.bus.subscribe.2⟩)
  | tells {event other : MapEvent} {others : List MapEvent} {sequel : Sequel}
      (activity : session.activity = .sending event (other :: others) sequel)
      (room : session.isRead = true → session.events.length < eventRoom) :
      Stepped now session scene ({ session.noting event with activity := .sending other others sequel },scene)
  | listens {event : MapEvent} (activity : session.activity = .sending event [] .listen)
      (room : session.isRead = true → session.events.length < eventRoom) :
      Stepped now session scene ({ session.noting event with activity := .listening },scene)
  | ends {event : MapEvent} (activity : session.activity = .sending event [] .stop)
      (room : session.isRead = true → session.events.length < eventRoom) :
      Stepped now session scene
        ({ session.noting event with holdsBus := false, place := none, activity := .ended },
          ⟨scene.page,session.left scene.bus⟩)
  | lags {own place missed : Nat} (activity : session.activity = .listening) (listening : session.place = some own)
      (received : scene.bus.receive own = (.lagged missed,place)) :
      Stepped now session scene ({ session with place := some place },scene)
  | wakes {own place : Nat} {resize : Resize} (activity : session.activity = .listening)
      (listening : session.place = some own) (received : scene.bus.receive own = (.resized resize,place)) :
      Stepped now session scene ({ session with place := some place, activity := .resized },scene)
  | repositions {result : Except MapFault Reposition} {page : Page} (activity : session.activity = .resized)
      (pass : session.map.reposition scene.page = (result,page)) :
      Stepped now session scene
        ({ session with activity := .sending (session.news now result) [] .listen },⟨page,scene.bus⟩)
  | leaves (activity : session.activity = .leaving) :
      Stepped now session scene
        ({ session with map := session.map.disposed, activity := .sending (.disposed session.map.id) [] .stop },
          ⟨session.map.unhung scene.page,scene.bus⟩)

private theorem releaseBus_scene (session : Session) (scene : Scene) :
    (session.releaseBus scene).2 = ⟨scene.page,session.freed scene.bus⟩ := by
  unfold releaseBus freed
  split_ifs <;> rfl

private theorem attach_eq (natural : Size) (session : Session) (scene : Scene) :
    session.attach natural scene =
      match session.map.attachLoaded natural scene.page with
      | ⟨map,page,.error fault⟩ =>
        ({ session with map, holdsBus := false }.fail (.map fault),⟨page,session.freed scene.bus⟩)
      | ⟨map,page,.ok update⟩ => ({ session with map, activity := .joining natural update },⟨page,scene.bus⟩) := by
  unfold ImageMap.attachLoaded
  cases resolved : scene.page.resolveImage session.map.image natural with
  | error fault =>
    unfold attach
    rw [resolved]
    refine Prod.ext ?_ (releaseBus_scene ..)
    dsimp only
    rw [Prod.map_fst,releaseBus_eq]
  | ok loaded =>
    dsimp only
    cases attaches : session.map.attach loaded with
    | mk map page result =>
      cases result with
      | error fault =>
        rw [attach_of_refused resolved attaches]
        refine Prod.ext ?_ (releaseBus_scene ..)
        dsimp only
        rw [releaseBus_eq]
      | ok update => exact attach_of_attached resolved attaches

private theorem join_eq (now : Timestamp) (natural : Size) (update : Reposition) (session : Session) (scene : Scene) :
    session.join now natural update scene =
      ({ session with
          holdsBus := false
          place := some scene.bus.sent
          activity := .sending (.attached session.map.id natural) [session.news now (.ok update)] .listen },
        ⟨scene.page,session.freed scene.bus.subscribe.2⟩) := by
  unfold join
  rw [← releaseBus_scene session { scene with bus := scene.bus.subscribe.2 }]
  dsimp only
  rw [releaseBus_eq]
  rfl

private theorem stop_eq_left (session : Session) (scene : Scene) :
    session.stop scene =
      ({ session with holdsBus := false, place := none, activity := .ended },
        ⟨scene.page,session.left scene.bus⟩) := by
  refine Prod.ext (stop_eq session scene) ?_
  have released := releaseBus_scene session scene
  have kept := congrArg Session.place (releaseBus_eq session scene)
  unfold stop left
  dsimp only at kept ⊢
  rw [released,kept]
  split_ifs <;> rfl

private theorem stepped_of_send {event : MapEvent} {others : List MapEvent} {sequel : Sequel}
    (activity : session.activity = .sending event others sequel)
    (sent : session.send event others sequel scene = some next) : Stepped now session scene next := by
  rw [send_eq] at sent
  split_ifs at sent with full
  obtain rfl := Option.some.inj sent
  have room : session.isRead = true → session.events.length < eventRoom := by
    intro read
    by_contra crowded
    exact full (by simp [read,Nat.le_of_not_lt crowded])
  cases others with
  | cons other others => exact .tells activity room
  | nil =>
    cases sequel with
    | listen => exact .listens activity room
    | stop =>
      have same (bus : Bus) : (session.noting event).left bus = session.left bus := by
        unfold left freed noting
        split_ifs <;> rfl
      rw [sentOn,stop_eq_left,same]
      exact .ends activity room

private theorem stepped_of_listen {heard : Session} (activity : session.activity = .listening)
    (listened : session.listen scene = some heard) : Stepped now session scene (heard,scene) := by
  unfold listen at listened
  cases place : session.place with
  | none =>
    rw [place] at listened
    cases listened
  | some own =>
    rw [place,Option.map_some] at listened
    cases received : scene.bus.receive own with
    | mk delivery later =>
      rw [received] at listened
      cases delivery with
      | resized resize =>
        obtain rfl := Option.some.inj listened
        exact .wakes activity place received
      | lagged missed =>
        obtain rfl := Option.some.inj listened
        exact .lags activity place received
      | empty | closed => cases listened

theorem stepped_of_step? (step : session.step? now scene = some next) : Stepped now session scene next := by
  unfold step? at step
  cases activity : session.activity with
  | loading =>
    rw [activity] at step
    obtain ⟨heard,answered,rfl⟩ := Option.map_eq_some_iff.mp step
    unfold takeAnswer at answered
    split at answered
    next => cases answered
    next natural answer =>
      obtain rfl := Option.some.inj answered
      exact .hears activity answer
    next fault answer =>
      obtain rfl := Option.some.inj answered
      exact .misses activity answer
  | loaded natural =>
    rw [activity] at step
    obtain rfl := Option.some.inj step
    rw [attach_eq]
    cases outcome : session.map.attachLoaded natural scene.page with
    | mk map page result =>
      cases result with
      | error fault => exact .refuses activity outcome
      | ok update => exact .attaches activity outcome
  | joining natural update =>
    rw [activity] at step
    obtain rfl := Option.some.inj step
    rw [join_eq]
    exact .joins activity
  | sending event others sequel =>
    rw [activity] at step
    exact stepped_of_send activity step
  | listening =>
    rw [activity] at step
    obtain ⟨heard,listened,rfl⟩ := Option.map_eq_some_iff.mp step
    exact stepped_of_listen activity listened
  | resized =>
    rw [activity] at step
    obtain rfl := Option.some.inj step
    cases pass : session.map.reposition scene.page with
    | mk result page =>
      cases result with
      | ok update =>
        rw [reposition_of_ok now pass]
        exact .repositions activity pass
      | error fault =>
        rw [reposition_of_error now pass]
        exact .repositions activity pass
  | leaving =>
    rw [activity] at step
    obtain rfl := Option.some.inj step
    unfold leave
    rw [ImageMap.detach_eq]
    exact .leaves activity
  | ended =>
    rw [activity] at step
    cases step

/-- A step puts what it lets out behind the events that wait, if anyone reads them, and keeps to their room. -/
theorem Stepped.events_eq (stepped : Stepped now session scene next) :
    next.1.isRead = session.isRead ∧
      next.1.events = session.events ++ (if session.isRead then session.tells else []) ∧
      (session.events.length ≤ eventRoom → next.1.events.length ≤ eventRoom) := by
  cases stepped with
  | hears activity | misses activity | refuses activity | attaches activity | joins activity | lags activity
  | wakes activity | repositions activity | leaves activity => simp [fail,Session.tells,activity]
  | tells activity room | listens activity room | ends activity room =>
    unfold noting Session.tells
    rw [activity]
    cases read : session.isRead with
    | false => simp [read]
    | true =>
      have room := room read
      simp
      omega

theorem Stepped.isCancelled_eq (stepped : Stepped now session scene next) :
    next.1.isCancelled = session.isCancelled := by
  cases stepped with
  | tells | listens | ends =>
    unfold noting
    split_ifs <;> rfl
  | _ => rfl

theorem Stepped.fault_eq (stepped : Stepped now session scene next) : next.1.fault = session.fault := by
  cases stepped with
  | tells | listens | ends =>
    unfold noting
    split_ifs <;> rfl
  | _ => rfl

theorem Stepped.activity_ne_leaving (stepped : Stepped now session scene next) : next.1.activity ≠ .leaving := by
  cases stepped with
  | lags activity =>
    dsimp only
    rw [activity]
    nofun
  | _ => nofun

theorem tells_subset_pending : session.tells ⊆ session.pending := by
  unfold tells pending
  cases session.activity <;> simp

/-- A step lets out the first of the events, or it is the one in which the session leaves, or it adds events to those
that the session is about to let out, of which none is the last. -/
theorem Stepped.pending_eq (stepped : Stepped now session scene next) :
    session.pending = session.tells ++ next.1.pending ∨
      session.tells = [] ∧ session.activity = .leaving ∨
      session.tells = [] ∧ ∀ id, .disposed id ∉ next.1.pending := by
  cases stepped with
  | tells activity | listens activity | ends activity =>
    exact .inl (by simp [pending,Session.tells,activity])
  | leaves activity => exact .inr (.inl ⟨by simp [Session.tells,activity],activity⟩)
  | @repositions result page activity =>
    refine .inr (.inr ⟨by simp [Session.tells,activity],fun id => ?_⟩)
    cases result <;> simp [pending,news]
  | hears activity | misses activity | refuses activity | attaches activity | joins activity | lags activity
  | wakes activity => exact .inr (.inr ⟨by simp [Session.tells,activity],by simp [pending,fail,news,activity]⟩)

theorem Stepped.map_eq (stepped : Stepped now session scene next) :
    next.1.map.id = session.map.id ∧ next.1.map.container = session.map.container ∧
      next.1.map.placements = session.map.placements := by
  cases stepped with
  | misses =>
    unfold fail ImageMap.markFailed
    split_ifs <;> exact ⟨rfl,rfl,rfl⟩
  | refuses activity outcome =>
    obtain rfl := ImageMap.attachLoaded_eq_error outcome
    unfold fail ImageMap.markFailed
    split_ifs <;> exact ⟨rfl,rfl,rfl⟩
  | attaches activity outcome =>
    obtain ⟨rfl,_⟩ := ImageMap.attachLoaded_eq_ok outcome
    exact ⟨rfl,rfl,rfl⟩
  | tells | listens | ends =>
    unfold noting
    split_ifs <;> exact ⟨rfl,rfl,rfl⟩
  | _ => exact ⟨rfl,rfl,rfl⟩

private theorem freed_sameRing (session : Session) (bus : Bus) : bus.SameRing (session.freed bus) := by
  unfold freed
  split_ifs <;> exact ⟨rfl,rfl,rfl⟩

private theorem left_sameRing (session : Session) (bus : Bus) : bus.SameRing (session.left bus) := by
  have freed := session.freed_sameRing bus
  unfold left
  split_ifs
  · exact ⟨freed.slots,freed.sent,freed.kept⟩
  · exact freed

theorem Stepped.sameRing (stepped : Stepped now session scene next) : scene.bus.SameRing next.2.bus := by
  cases stepped with
  | refuses => exact freed_sameRing ..
  | joins =>
    have freed := session.freed_sameRing scene.bus.subscribe.2
    exact ⟨freed.slots,freed.sent,freed.kept⟩
  | ends => exact left_sameRing ..
  | hears | misses | attaches | tells | listens | lags | wakes | repositions | leaves => exact ⟨rfl,rfl,rfl⟩

theorem Stepped.activity_ne_ended (stepped : Stepped now session scene next) : session.activity ≠ .ended := by
  cases stepped <;> simp [*]

end PinnedMap.Session
