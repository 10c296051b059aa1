import PinnedMap.Proofs.Session.Course
import PinnedMap.Proofs.Session.Seating

/-! A session keeps up with the layout. While it follows, its pins stand where the last pass put them, and where
a pass would put them now unless the page changed unannounced or a resize is still ahead of its place on the
bus. Each move keeps this, whatever the others do in between. -/
namespace PinnedMap

theorem Pass.last?_concat (passes : List Pass) (pass : Pass) :
    last? (passes ++ [pass]) = if pass.result.isOk then some pass.after else last? passes := by
  unfold last?
  cases done : pass.result.isOk <;> simp [List.filter_append,done]

namespace Course

open Chronicle (Move)

variable {course other : Course} {next : Session × Scene} {now : Timestamp} {ring : Nat}

/-- The map is on the page, and its pins are where the last pass that succeeded left them. -/
structure Follows (course : Course) : Prop where
  attached : course.session.map.phase = .attached
  known : ∀ pin ∈ course.session.map.pins, (course.scene.page.element? pin).isSome
  kept : ∃ last, Pass.last? course.passes = some last ∧ ∀ pin ∈ course.session.map.pins,
    ∀ property ∈ ["left","top"], course.scene.page.style pin property = last.style pin property

def IsBehind (course : Course) : Prop :=
  ∃ place, course.session.place = some place ∧ place < course.scene.bus.sent

/-- What is announced is either seen to or still ahead of the session's place. -/
structure MissesNothing (course : Course) : Prop where
  listening : course.session.place.isSome = true
  heard : course.isAnnounced = true → course.session.map.IsPlaced course.scene.page ∨ course.IsBehind

def KeepsUp (course : Course) : Activity → Prop
  | .joining .. => course.Follows ∧ course.session.map.IsPlaced course.scene.page
  | .listening | .sending _ _ .listen => course.Follows ∧ course.MissesNothing
  | .resized => course.Follows
  | .loading | .loaded _ | .sending _ _ .stop | .leaving | .ended => True

structure IsSound (ring : Nat) (course : Course) : Prop where
  tuned : course.IsTuned ring
  keepsUp : course.KeepsUp course.session.activity

private theorem isSound_start (map : ImageMap) (page : Page) (capacity : Nat) (uses : List Bus.Use) :
    (start map page capacity uses).IsSound (Bus.ofCapacity capacity).slots :=
  ⟨Chronicle.isTuned_start map page capacity uses,trivial⟩

theorem KeepsUp.imp {activity : Activity} (keepsUp : course.KeepsUp activity)
    (follows : course.Follows → other.Follows) (misses : course.Follows → course.MissesNothing → other.MissesNothing)
    (placed : ∀ natural update, activity = .joining natural update →
      course.session.map.IsPlaced course.scene.page → other.session.map.IsPlaced other.scene.page) :
    other.KeepsUp activity := by
  cases activity with
  | joining natural update => exact ⟨follows keepsUp.1,placed natural update rfl keepsUp.2⟩
  | listening => exact ⟨follows keepsUp.1,misses keepsUp.1 keepsUp.2⟩
  | resized => exact follows keepsUp
  | sending event others sequel =>
    cases sequel with
    | listen => exact ⟨follows keepsUp.1,misses keepsUp.1 keepsUp.2⟩
    | stop => trivial
  | loading | loaded | leaving | ended => trivial

theorem Follows.of_same (follows : course.Follows) (map : other.session.map = course.session.map)
    (page : other.scene.page = course.scene.page) (passes : other.passes = course.passes) : other.Follows := by
  refine ⟨?_,?_,?_⟩
  · rw [map]
    exact follows.attached
  · rw [map,page]
    exact follows.known
  · rw [map,page,passes]
    exact follows.kept

theorem Follows.of_pass {before : Page} {update : Reposition} (attached : course.session.map.phase = .attached)
    (known : ∀ pin ∈ course.session.map.pins, (course.scene.page.element? pin).isSome)
    (passes : course.passes = other.passes ++ [⟨before,.ok update,course.scene.page⟩]) : course.Follows := by
  refine ⟨attached,known,_,?_,fun _ _ _ _ => rfl⟩
  rw [passes,Pass.last?_concat]
  rfl

theorem KeepsUp.of_alike {activity : Activity} (keepsUp : course.KeepsUp activity)
    (map : other.session.map = course.session.map) (place : other.session.place = course.session.place)
    (scene : other.scene = course.scene) (passes : other.passes = course.passes)
    (announced : other.isAnnounced = course.isAnnounced) : other.KeepsUp activity := by
  refine keepsUp.imp (fun follows => follows.of_same map (congrArg Scene.page scene) passes) ?_ ?_
  · intro _ misses
    refine ⟨place ▸ misses.listening,?_⟩
    unfold IsBehind
    rw [map,place,scene,announced]
    exact misses.heard
  · intro _ _ _ placed
    rw [map,scene]
    exact placed

def stepped (course : Course) (next : Session × Scene) : Course :=
  { course with toChronicle := course.toChronicle.stepped next }

private theorem passes_stepped (quiet : course.session.passes course.scene.page = []) :
    (course.stepped next).passes = course.passes :=
  (congrArg (course.passes ++ ·) quiet).trans (List.append_nil _)

/-- The step: whatever the session does, it keeps up. -/
theorem IsSound.stepped (sound : course.IsSound ring)
    (step : Session.Stepped now course.session course.scene next) : (course.stepped next).IsSound ring := by
  have tuned := sound.tuned.stepped step
  refine ⟨tuned,?_⟩
  have keepsUp := sound.keepsUp
  cases step with
  | hears | misses | refuses | ends | leaves => trivial
  | @attaches natural map page update activity outcome =>
    obtain ⟨rfl,pass,_,known⟩ := ImageMap.attachLoaded_pass outcome
    have placed := ImageMap.isPlaced_reposition known
    rw [pass] at placed
    have passes : course.session.passes course.scene.page =
        [⟨course.session.map.filled natural course.scene.page,.ok update,page⟩] := by
      simp only [Session.passes,activity,outcome]
    exact ⟨.of_pass rfl tuned.seated.2 (congrArg (course.passes ++ ·) passes),placed⟩
  | joins activity =>
    rw [activity] at keepsUp
    exact ⟨keepsUp.1.of_same rfl rfl (passes_stepped (by simp [Session.passes,activity])),rfl,fun _ => .inl keepsUp.2⟩
  | @tells event other others sequel activity =>
    rw [activity] at keepsUp
    cases sequel with
    | listen =>
      have listening : course.KeepsUp .listening := keepsUp
      exact listening.of_alike (Session.noting_map ..) (Session.noting_place ..) rfl
        (passes_stepped (by simp [Session.passes,activity])) rfl
    | stop => trivial
  | listens activity =>
    rw [activity] at keepsUp
    have listening : course.KeepsUp .listening := keepsUp
    exact listening.of_alike (Session.noting_map ..) (Session.noting_place ..) rfl
      (passes_stepped (by simp [Session.passes,activity])) rfl
  | lags activity own received =>
    rw [activity] at keepsUp
    obtain ⟨lost,rfl⟩ := Bus.receive_eq_lagged received
    have behind : course.scene.bus.oldest < course.scene.bus.sent :=
      Bus.oldest_lt_sent sound.tuned.filled.isSound (Nat.lt_of_lt_of_le lost (Nat.sub_le ..))
    change KeepsUp _ course.session.activity
    rw [activity]
    exact ⟨keepsUp.1.of_same rfl rfl (passes_stepped (by simp [Session.passes,activity])),rfl,
      fun _ => .inr ⟨_,rfl,behind⟩⟩
  | wakes activity =>
    rw [activity] at keepsUp
    exact keepsUp.1.of_same rfl rfl (passes_stepped (by simp [Session.passes,activity]))
  | @repositions result page activity pass =>
    rw [activity] at keepsUp
    have placed := ImageMap.isPlaced_reposition keepsUp.known
    have passes : course.session.passes course.scene.page = [⟨course.scene.page,result,page⟩] := by
      simp only [Session.passes,activity,pass]
    rw [pass] at placed
    cases result with
    | ok update =>
      exact ⟨.of_pass keepsUp.attached tuned.seated.2 (congrArg (course.passes ++ ·) passes),tuned.seated.1,
        fun _ => .inl placed⟩
    | error fault =>
      -- The page is as it was, and so is the last pass that succeeded.
      obtain rfl := ImageMap.reposition_of_error keepsUp.known pass
      have last : Pass.last? (course.passes ++ course.session.passes course.scene.page) = Pass.last? course.passes := by
        rw [passes,Pass.last?_concat]
        rfl
      exact ⟨⟨keepsUp.attached,keepsUp.known,last.symm ▸ keepsUp.kept⟩,tuned.seated.1,fun _ => .inl placed⟩

private theorem apart_of_spares {operation : Page.Operation} {pins : List ElementId}
    (spared : operation.spares pins = true) :
    ∀ pin ∈ pins, ∀ property ∈ ["left","top"], ∀ text, operation ≠ .setStyle pin property text := by
  rintro pin member property placing text rfl
  simp [Page.Operation.spares,member,placing] at spared

theorem IsSound.keepsUp_change (sound : course.IsSound ring) {operation : Page.Operation}
    (spared : operation.spares course.session.map.pins = true) :
    KeepsUp ⟨course.toChronicle.change operation,course.isAnnouncedAfter (.change operation)⟩
      (course.toChronicle.change operation).session.activity := by
  have apart := apart_of_spares spared
  unfold isAnnouncedAfter Chronicle.change
  split_ifs with held
  · exact sound.keepsUp.of_alike rfl rfl rfl rfl (by simp)
  have known (follows : course.Follows) (pin : ElementId) (member : pin ∈ course.session.map.pins) :=
    Page.isSome_element?_perform (follows.known pin member) operation
  have style (follows : course.Follows) (pin : ElementId) (member : pin ∈ course.session.map.pins) (property : String)
      (placing : property ∈ ["left","top"]) :=
    Page.style_perform (follows.known pin member) operation (apart pin member property placing)
  refine sound.keepsUp.imp ?_ ?_ ?_
  · intro follows
    obtain ⟨last,passed,kept⟩ := follows.kept
    refine ⟨follows.attached,known follows,last,passed,fun pin member property placing => ?_⟩
    exact (style follows pin member property placing).trans (kept pin member property placing)
  · refine fun follows misses => ⟨misses.listening,fun announced => ?_⟩
    obtain ⟨before,same⟩ : course.isAnnounced = true ∧ course.session.map.ratio
        (course.scene.page.perform operation) = course.session.map.ratio course.scene.page :=
      (Bool.and_eq_true_iff.mp announced).imp_right of_decide_eq_true
    exact (misses.heard before).imp_left fun placed => placed.of_ratio same (style follows) follows.known (known follows)
  · intro natural update activity
    simp [Session.holdsPage,activity] at held

theorem IsSound.keepsUp_use (sound : course.IsSound ring) (use : Bus.Use) :
    KeepsUp ⟨course.toChronicle.use use,course.isAnnouncedAfter (.use use)⟩
      (course.toChronicle.use use).session.activity := by
  unfold isAnnouncedAfter Chronicle.use
  split_ifs with barred
  · refine sound.keepsUp.of_alike rfl rfl rfl rfl ?_
    obtain rfl : use = .unsubscribe := by simpa using (Bool.and_eq_true_iff.mp barred).1
    exact Bool.or_false _
  refine sound.keepsUp.imp (fun follows => follows.of_same rfl rfl rfl) ?_ fun _ _ _ placed => placed
  refine fun _ misses => ⟨misses.listening,fun announced => ?_⟩
  cases announcing : use.isAnnouncement with
  | false =>
    refine (misses.heard (by simpa [announcing] using announced)).imp_right ?_
    rintro ⟨place,own,behind⟩
    exact ⟨place,own,(Bus.use_sameRing course.scene.bus announcing).sent.symm ▸ behind⟩
  | true =>
    -- The resize is the last of the bus, so it is ahead of every place.
    obtain ⟨place,own⟩ := Option.isSome_iff_exists.mp misses.listening
    have listened : 0 < course.scene.bus.listeners := by
      rw [sound.tuned.counted,Session.ownListeners,if_pos misses.listening]
      exact Nat.succ_pos _
    have grown := Bus.sent_use_announcement announcing listened
    exact .inr ⟨place,own,grown ▸ Nat.lt_succ_of_le (sound.tuned.trails place own)⟩

theorem IsSound.after (sound : course.IsSound ring) (move : Move) : (course.after move).IsSound ring := by
  unfold Course.after
  split_ifs with spared
  · refine ⟨sound.tuned.after move,?_⟩
    cases move with
    | act now =>
      dsimp only [Chronicle.after,Chronicle.act]
      split_ifs
      · exact sound.keepsUp
      · cases step : course.session.step? now course.scene with
        | none => exact sound.keepsUp
        | some next => exact (sound.stepped (Session.stepped_of_step? step)).keepsUp
    | heed =>
      dsimp only [Chronicle.after,Session.cancel?]
      split_ifs
      · cases activity : course.session.activity with
        | loading | listening => trivial
        | loaded | joining | sending | resized | leaving | ended => exact sound.keepsUp
      · exact sound.keepsUp
    | read =>
      dsimp only [Chronicle.after,Chronicle.read,Session.next?]
      cases course.session.events <;> exact sound.keepsUp.of_alike rfl rfl rfl rfl rfl
    | change operation => exact sound.keepsUp_change spared
    | use use => exact sound.keepsUp_use use
    | answer | ignore | dispose | take | free => exact sound.keepsUp.of_alike rfl rfl rfl rfl rfl
  · exact sound

theorem IsSound.afterAll (sound : course.IsSound ring) (moves : List Move) : (course.afterAll moves).IsSound ring := by
  induction moves generalizing course with
  | nil => exact sound
  | cons move moves ih => exact ih (sound.after move)

theorem IsSound.not_isBehind (sound : course.IsSound ring) (unread : course.session.listen course.scene = none) :
    ¬ course.IsBehind := by
  rintro ⟨place,own,behind⟩
  rcases Session.listen_of_behind course.scene own sound.tuned.filled.isSound behind with ⟨_,_,lagged⟩ | resized
  · cases lagged.symm.trans unread
  · cases resized.symm.trans unread

theorem IsSound.laidOut (sound : course.IsSound ring) (waiting : course.session.isWaiting = true)
    (unread : course.session.listen course.scene = none) (announced : course.isAnnounced = true) :
    course.session.map.phase = .attached ∧ ∃ page, course.laidOut = some page ∧
      ∀ pin ∈ course.session.map.pins, ∀ property ∈ ["left","top"],
        course.scene.page.style pin property = page.style pin property := by
  have keepsUp := sound.keepsUp
  obtain ⟨follows,misses⟩ : course.Follows ∧ course.MissesNothing := by
    unfold Session.isWaiting at waiting
    split at waiting
    next activity =>
      rw [activity] at keepsUp
      exact keepsUp
    next activity =>
      rw [activity] at keepsUp
      exact keepsUp
    next => cases waiting
  have placed := (misses.heard announced).resolve_right (sound.not_isBehind unread)
  obtain ⟨last,passed,kept⟩ := follows.kept
  refine ⟨follows.attached,?_⟩
  unfold ImageMap.IsPlaced at placed
  unfold Course.laidOut
  cases pass : course.session.map.reposition course.scene.page with
  | mk result page =>
    rw [pass] at placed
    cases result with
    | ok update => exact ⟨page,rfl,placed⟩
    | error fault => exact ⟨last,passed,kept⟩

/-- No resize is lost: whatever a session and all others did in whatever order, once the changes of the page are
announced and the session waits with nothing left to read, every pin is where a layout pass would put it. -/
theorem pins_laid_out (map : ImageMap) (page : Page) (capacity : Nat) (uses : List Bus.Use)
    (moves : List Move) (course : Course) (ran : (start map page capacity uses).afterAll moves = course)
    (waiting : course.session.isWaiting = true) (unread : course.session.listen course.scene = none)
    (announced : course.isAnnounced = true) :
    course.session.map.phase = .attached ∧ ∃ page, course.laidOut = some page ∧
      ∀ pin ∈ course.session.map.pins, ∀ property ∈ ["left","top"],
        course.scene.page.style pin property = page.style pin property := by
  have sound := (isSound_start map page capacity uses).afterAll moves
  rw [ran] at sound
  exact sound.laidOut waiting unread announced

/-- One resize comes before the session listens, and one is pushed out of a ring of one slot. -/
theorem pins_laid_out_after_lag :
    let page := (Page.ofViewport ⟨800,600⟩).performAll
      [.create "div",.append Page.body ⟨1⟩,.create "button",.create "img",.setStyle ⟨3⟩ "width" "100%"]
    let map : ImageMap := ⟨⟨7⟩,⟨"plan.png",[⟨100,50,none⟩]⟩,{},[⟨2⟩],⟨1⟩,⟨3⟩,none,.loading⟩
    let moves : List Move := [.answer (.ok ⟨1000,500⟩),.act default,.act default,
      .use (.announce ⟨⟨800,600⟩,default⟩),.act default,.act default,.act default,
      .change (.setViewport ⟨500,600⟩),.use (.announce ⟨⟨500,600⟩,default⟩),
      .change (.setViewport ⟨400,600⟩),.use (.announce ⟨⟨400,600⟩,default⟩),
      .act default,.act default,.act default,.read,.act default]
    ∃ course, (start map page 1 []).afterAll moves = course ∧ course.session.isWaiting = true ∧
      course.session.listen course.scene = none ∧ course.isAnnounced = true ∧
      course.session.map.phase = .attached ∧ ∃ page, course.laidOut = some page ∧
        ∀ pin ∈ course.session.map.pins, ∀ property ∈ ["left","top"],
          course.scene.page.style pin property = page.style pin property := by
  intro page map moves
  have waiting : ((start map page 1 []).afterAll moves).session.isWaiting = true := by decide +kernel
  have unread : (((start map page 1 []).afterAll moves).session.listen
      ((start map page 1 []).afterAll moves).scene).isNone = true := by decide +kernel
  have unread := Option.isNone_iff_eq_none.mp unread
  have announced : ((start map page 1 []).afterAll moves).isAnnounced = true := by decide +kernel
  have laidOut := pins_laid_out map page 1 [] moves _ rfl waiting unread announced
  exact ⟨_,rfl,waiting,unread,announced,laidOut⟩

end Course
end PinnedMap
