import PinnedMap.Proofs.Session.Steps

/-! How a session settles: it takes its steps until it waits, and the number of steps that it is given is
enough for what is called for. -/
namespace PinnedMap.Session

variable {session next : Session} {scene after : Scene} {now : Timestamp}

private theorem run_of_step (going : session.isCancelled = false) (step : session.step? now scene = some (next,after))
    (steps : Nat) :
    session.run now (steps + 1) scene = next.run now steps after := by
  rw [run,cancel?,going,step]
  rfl

private theorem run_of_wait (going : session.isCancelled = false) (waits : session.step? now scene = none)
    (steps : Nat) :
    session.run now steps scene = (session,scene) := by
  cases steps with
  | zero => rfl
  | succ steps =>
    rw [run,cancel?,going,waits]
    rfl

private theorem stepLimit_eq (scene : Scene) : stepLimit scene = 3 * scene.bus.kept.length + 6 + 6 := rfl

theorem settle_of_attached {map : ImageMap} {page loaded placed : Page} {bus : Bus} {natural : Size}
    {update : Reposition} {attached : ImageMap} (now : Timestamp) (sound : bus.IsSound)
    (resolved : page.resolveImage map.image natural = .ok loaded)
    (attaches : map.attach loaded = ⟨attached,placed,.ok update⟩) :
    ((ofMap map).answerWith (.ok natural)).settle now ⟨page,bus⟩ =
      ({ ofMap attached with
          answer := some (.ok natural)
          activity := .listening
          place := some bus.sent
          holdsBus := false
          events := [.attached attached.id natural,.repositioned attached.id update now] },
        ⟨placed,bus.subscribe.2.release⟩) := by
  let answered : Session := { ofMap map with answer := some (.ok natural), activity := .loaded natural }
  have taking : ((ofMap map).answerWith (.ok natural)).step? now ⟨page,bus⟩ = some (answered,⟨page,bus⟩) :=
    rfl
  have attaching : answered.step? now ⟨page,bus⟩ =
      some ({ answered with map := attached, activity := .joining natural update },⟨placed,bus⟩) :=
    congrArg some (attach_of_attached resolved attaches)
  unfold settle
  rw [stepLimit_eq,run_of_step rfl taking,run_of_step rfl attaching,run_of_step rfl rfl,run_of_step rfl rfl,
    run_of_step rfl rfl,run_of_wait rfl]
  · rfl
  · exact congrArg (Option.map _) (listen_of_done rfl sound.kept_le (Nat.le_refl _))

private theorem run_of_last {event : MapEvent} (activity : session.activity = .sending event [] .stop)
    (going : session.isCancelled = false) (read : session.isRead = true)
    (room : session.events.length < eventRoom) (scene : Scene) (now : Timestamp) (steps : Nat) :
    ∃ ended after, session.run now (steps + 1) scene = (ended,after) ∧ ended.activity = .ended ∧
      ended.events = session.events ++ [event] := by
  have sending : session.step? now scene = some ((session.noting event).stop scene) := by
    unfold step?
    rw [activity]
    exact send_of_room event [] .stop scene room
  have ended := stop_eq (session.noting event) scene
  rw [noting_of_read read] at ended sending
  cases stopped : ({ session with events := session.events ++ [event] } : Session).stop scene with
  | mk last after =>
    rw [stopped] at ended sending
    dsimp only at ended
    rw [run_of_step going sending]
    subst ended
    exact ⟨_,_,run_of_wait (by exact going) rfl steps,rfl,rfl⟩

private theorem run_of_failed (going : session.isCancelled = false) (read : session.isRead = true)
    (empty : session.events = []) (fault : Fault) (scene : Scene) (now : Timestamp) (steps : Nat) :
    ∃ ended after, (session.fail fault).run now (steps + 1) scene = (ended,after) ∧ ended.activity = .ended ∧
      ended.events = [.loadFailed session.map.id session.url fault.message] := by
  have room : session.events.length < eventRoom := by
    rw [empty]
    decide
  have activity : (session.fail fault).activity =
      .sending (.loadFailed session.map.id session.url fault.message) [] .stop := rfl
  obtain ⟨ended,after,ran,last,events⟩ := run_of_last activity going read room scene now steps
  refine ⟨ended,after,ran,last,?_⟩
  rw [events]
  change session.events ++ _ = _
  rw [empty]
  rfl

theorem settle_of_unloaded (map : ImageMap) (scene : Scene) (fault : Fault) (now : Timestamp) :
    ∃ ended after, ((ofMap map).answerWith (.error fault)).settle now scene = (ended,after) ∧
      ended.activity = .ended ∧ ended.events = [.loadFailed map.id map.plan.image fault.message] := by
  have taking : ((ofMap map).answerWith (.error fault)).step? now scene =
      some (((ofMap map).answerWith (.error fault)).fail fault,scene) := rfl
  unfold settle
  rw [stepLimit_eq,run_of_step rfl taking]
  exact run_of_failed rfl rfl rfl fault scene now _

theorem settle_of_refused {map attached : ImageMap} {page loaded placed : Page} {bus : Bus} {natural : Size}
    {fault : MapFault} (now : Timestamp) (resolved : page.resolveImage map.image natural = .ok loaded)
    (attaches : map.attach loaded = ⟨attached,placed,.error fault⟩) :
    ∃ ended after, ((ofMap map).answerWith (.ok natural)).settle now ⟨page,bus⟩ = (ended,after) ∧
      ended.activity = .ended ∧
      ended.events = [.loadFailed attached.id attached.plan.image (Fault.map fault).message] := by
  let answered : Session := { ofMap map with answer := some (.ok natural), activity := .loaded natural }
  have taking : ((ofMap map).answerWith (.ok natural)).step? now ⟨page,bus⟩ = some (answered,⟨page,bus⟩) :=
    rfl
  have refusing : answered.step? now ⟨page,bus⟩ = some _ :=
    congrArg some (attach_of_refused resolved attaches)
  unfold settle
  rw [stepLimit_eq,run_of_step rfl taking,run_of_step rfl refusing]
  have released := releaseBus_eq { answered with map := attached } ⟨placed,bus⟩
  rw [released]
  exact run_of_failed rfl rfl rfl (.map fault) _ now _

/-- A session that has seen all resizes and has told all events. -/
structure IsIdle (session : Session) (scene : Scene) : Prop where
  activity : session.activity = .listening
  place : session.place = some scene.bus.sent
  bus : scene.bus.IsSound
  listened : 0 < scene.bus.listeners
  read : session.isRead = true
  empty : session.events = []
  going : session.isCancelled = false

theorem IsIdle.settle (idle : session.IsIdle scene) (resize : Resize) {page placed : Page}
    {update : Reposition} (pass : session.map.reposition page = (.ok update,placed)) (now : Timestamp) :
    session.settle now ⟨page,scene.bus.announce resize⟩ =
      ({ session with
          place := some (scene.bus.sent + 1)
          events := [.repositioned session.map.id update now] },
        ⟨placed,scene.bus.announce resize⟩) := by
  obtain ⟨map,answer,activity,place,holdsBus,events,isRead,isCancelled,fault⟩ := session
  obtain ⟨rfl,rfl,sound,listened,rfl,rfl,rfl⟩ := idle
  have sound := sound.announce resize
  have sent := Bus.announce_sent resize listened
  let started : Session := ⟨map,answer,.listening,some scene.bus.sent,holdsBus,[],true,false,fault⟩
  let heard : Session := { started with place := some (scene.bus.sent + 1), activity := .resized }
  let telling : Session := { heard with activity := .sending (.repositioned map.id update now) [] .listen }
  let last : Session := { heard with activity := .listening, events := [.repositioned map.id update now] }
  generalize scene.bus.announce resize = bus at *
  have hears : started.listen ⟨page,bus⟩ = some heard := by
    have place : started.place = some scene.bus.sent := rfl
    have behind : scene.bus.sent < bus.sent := by omega
    rcases listen_of_behind ⟨page,bus⟩ place sound behind with ⟨lost,inside,_⟩ | hears
    · dsimp only at lost inside
      omega
    · exact hears
  have hearing : started.step? now ⟨page,bus⟩ = some (heard,⟨page,bus⟩) :=
    congrArg (Option.map (·,(⟨page,bus⟩ : Scene))) hears
  have passing : heard.step? now ⟨page,bus⟩ = some (telling,⟨placed,bus⟩) :=
    congrArg some (reposition_of_ok now pass)
  have sending : telling.step? now ⟨placed,bus⟩ = some (last,⟨placed,bus⟩) := rfl
  have waits : last.step? now ⟨placed,bus⟩ = none :=
    congrArg (Option.map _) (listen_of_done rfl sound.kept_le (Nat.le_of_eq sent))
  unfold Session.settle
  rw [stepLimit_eq]
  apply (run_of_step rfl hearing _).trans
  apply (run_of_step rfl passing _).trans
  apply (run_of_step rfl sending _).trans
  exact run_of_wait rfl waits _

end PinnedMap.Session
