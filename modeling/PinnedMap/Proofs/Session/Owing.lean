import PinnedMap.Proofs.ImageMap.Overwriting
import PinnedMap.Proofs.Session.Seating
import PinnedMap.Proofs.Session.Telling

/-! What a session has before it while it goes from resize to resize: the passes that it owes for the resizes that it
still finds, and the steps that they take. Each of its steps takes one from these, and each pass one from those. -/
namespace PinnedMap.Session

variable {session : Session} {scene : Scene} {next : Session × Scene} {now : Timestamp}

def isFollowing (session : Session) : Bool :=
  match session.activity with
  | .sending _ [] .listen | .listening | .resized => true
  | _ => false

def isAtRest (session : Session) (scene : Scene) : Bool :=
  session.activity = .listening && (session.listen scene).isNone

/-- How many passes are still to come if no other resize does. -/
def owed (session : Session) (bus : Bus) : Nat :=
  session.place.elim 0 bus.due + if session.activity = .resized then 1 else 0

def workLeft (session : Session) (bus : Bus) : Nat :=
  session.place.elim 0 bus.effort +
    match session.activity with
    | .resized => 2
    | .sending .. => 1
    | _ => 0

/-- What a step comes to while the session goes from resize to resize. A pass is one of those that were owed, there is
one event to tell it, and the next would be the same. -/
structure Advances (session : Session) (scene : Scene) (next : Session × Scene) : Prop where
  following : next.1.isFollowing = true
  listening : next.1.place.isSome = true
  map : next.1.map = session.map
  owed : next.1.owed scene.bus + (session.passes scene.page).length = session.owed scene.bus
  workLeft : next.1.workLeft scene.bus + 1 = session.workLeft scene.bus
  told : ∃ events, List.Forall₂ (Pass.IsToldBy session.map.id) (session.passes scene.page) events ∧
    session.pending ++ events = session.tells ++ next.1.pending
  results : ∀ pass ∈ session.passes scene.page, pass.result = (session.map.reposition scene.page).1
  steady : (session.map.reposition next.2.page).1 = (session.map.reposition scene.page).1

/-- A step that is no pass lets out no more than was pending. -/
theorem advances_of_silent {advanced : Session} (silent : session.passes scene.page = [])
    (following : advanced.isFollowing = true) (listening : advanced.place.isSome = true)
    (map : advanced.map = session.map) (owed : advanced.owed scene.bus = session.owed scene.bus)
    (work : advanced.workLeft scene.bus + 1 = session.workLeft scene.bus)
    (told : session.pending = session.tells ++ advanced.pending) : session.Advances scene (advanced,scene) := by
  refine ⟨following,listening,map,?_,work,⟨[],?_,?_⟩,?_,rfl⟩
  · rw [silent]
    exact owed
  · rw [silent]
    exact .nil
  · rw [List.append_nil]
    exact told
  · simp [silent]

theorem Stepped.advances (stepped : Stepped now session scene next) (filled : scene.bus.IsFilled)
    (following : session.isFollowing = true) (listening : session.place.isSome = true) :
    session.Advances scene next := by
  cases stepped with
  | @listens event activity room =>
    have silent : session.passes scene.page = [] := by simp [Session.passes,activity]
    refine advances_of_silent silent rfl ?_ (noting_map ..) ?_ ?_ ?_
    · exact (congrArg Option.isSome (noting_place ..)).trans listening
    · simp [Session.owed,activity]
    · simp [Session.workLeft,activity]
    · simp [Session.pending,Session.tells,activity]
  | lags activity own received =>
    obtain ⟨lost,rfl⟩ := Bus.receive_eq_lagged received
    have due := filled.due_oldest lost
    have effort := filled.effort_oldest lost
    have silent : session.passes scene.page = [] := by simp [Session.passes,activity]
    refine advances_of_silent silent ?_ rfl rfl ?_ ?_ ?_
    · simp [isFollowing,activity]
    · simp [Session.owed,own,activity,due]
    · simp [Session.workLeft,own,activity,effort]
    · simp [Session.pending,Session.tells,activity]
  | wakes activity own received =>
    obtain ⟨kept,behind,rfl⟩ := Bus.receive_eq_resized filled.isSound.kept_le received
    have due := filled.due_succ kept behind
    have effort := filled.effort_succ kept behind
    have silent : session.passes scene.page = [] := by simp [Session.passes,activity]
    refine advances_of_silent silent rfl rfl rfl ?_ ?_ ?_
    · simp [Session.owed,own,activity,due]
    · simp [Session.workLeft,own,activity]
      omega
    · simp [Session.pending,Session.tells,activity]
  | @repositions result page activity pass =>
    have passes : session.passes scene.page = [⟨scene.page,result,page⟩] := by simp [Session.passes,activity,pass]
    have again := session.map.reposition_reposition scene.page
    rw [pass] at again
    refine ⟨rfl,listening,rfl,?_,?_,⟨[session.news now result],?_,?_⟩,?_,?_⟩
    · simp [Session.owed,passes,activity]
    · simp [Session.workLeft,activity]
    · rw [passes]
      refine .cons ?_ .nil
      cases result with
      | ok update => exact ⟨now,rfl⟩
      | error fault => rfl
    · simp [Session.pending,Session.tells,activity]
    · simp [passes,pass]
    · rw [pass,again]
  | hears activity | misses activity | refuses activity | attaches activity | joins activity | tells activity
  | ends activity | leaves activity => simp [isFollowing,activity] at following

theorem isSome_step?_of_following (following : session.isFollowing = true) (busy : session.isAtRest scene = false)
    (room : session.isRead = true → session.events.length < eventRoom) (now : Timestamp) :
    (session.step? now scene).isSome = true := by
  cases activity : session.activity with
  | listening =>
    rw [step?,activity]
    simpa [isAtRest,activity,← Option.isSome_iff_ne_none] using busy
  | resized =>
    rw [step?,activity]
    rfl
  | sending event others sequel =>
    have free : ¬ (session.isRead && eventRoom ≤ session.events.length) = true := by
      intro full
      obtain ⟨read,full⟩ := Bool.and_eq_true_iff.mp full
      exact absurd (room read) (by simpa using full)
    rw [step?,activity]
    dsimp only
    rw [send_eq,if_neg free]
    rfl
  | loading | loaded | joining | leaving | ended => simp [isFollowing,activity] at following

theorem isAtRest_iff {place : Nat} (filled : scene.bus.IsFilled) (own : session.place = some place) :
    session.isAtRest scene = true ↔ session.activity = .listening ∧ scene.bus.sent ≤ place := by
  unfold isAtRest
  rw [Bool.and_eq_true,decide_eq_true_eq,Option.isNone_iff_eq_none]
  refine and_congr_right fun activity => ⟨fun waits => ?_,listen_of_done own filled.isSound.kept_le⟩
  by_contra behind
  rcases listen_of_behind scene own filled.isSound (Nat.lt_of_not_le behind) with ⟨_,_,heard⟩ | heard <;>
    cases heard.symm.trans waits

theorem isAtRest_iff_workLeft (filled : scene.bus.IsFilled) (following : session.isFollowing = true)
    (listening : session.place.isSome = true) :
    session.isAtRest scene = true ↔ session.workLeft scene.bus = 0 := by
  obtain ⟨place,own⟩ := Option.isSome_iff_exists.mp listening
  rw [isAtRest_iff filled own,← filled.effort_eq_zero,workLeft,own,Option.elim_some]
  cases activity : session.activity with
  | listening | resized | sending => simp
  | loading | loaded | joining | leaving | ended => simp [isFollowing,activity] at following

theorem owed_of_atRest (filled : scene.bus.IsFilled) (listening : session.place.isSome = true)
    (rests : session.isAtRest scene = true) : session.owed scene.bus = 0 ∧ session.pending = [] := by
  obtain ⟨place,own⟩ := Option.isSome_iff_exists.mp listening
  obtain ⟨activity,done⟩ := (isAtRest_iff filled own).mp rests
  have due := Bus.due_of_done done
  exact ⟨by simp [owed,own,activity,due],by simp [pending,activity]⟩

theorem owed_eq {bus other : Bus} (same : bus.SameRing other) (session : Session) :
    session.owed other = session.owed bus := by
  unfold owed
  cases session.place <;> simp [same.due_eq]

theorem workLeft_eq {bus other : Bus} (same : bus.SameRing other) (session : Session) :
    session.workLeft other = session.workLeft bus := by
  unfold workLeft
  cases session.place <;> simp [same.effort_eq]

theorem isSeated_of_following (following : session.isFollowing = true) {page : Page} (seated : session.IsSeated page) :
    session.place.isSome = true ∧ ∀ pin ∈ session.map.pins, (page.element? pin).isSome := by
  unfold isFollowing at following
  unfold IsSeated at seated
  cases activity : session.activity with
  | sending event others sequel =>
    rw [activity] at following seated
    cases sequel with
    | listen => exact seated
    | stop => simp at following
  | listening | resized =>
    rw [activity] at seated
    exact seated
  | loading | loaded | joining | leaving | ended => simp [activity] at following

end PinnedMap.Session
