import PinnedMap.Proofs.Session.Bus
import PinnedMap.Session.Basic

/-! What single steps of a session do to its map, its place and the bus. -/
namespace PinnedMap.Session

variable {session : Session} {scene : Scene}

theorem releaseBus_eq (session : Session) (scene : Scene) :
    (session.releaseBus scene).1 = { session with holdsBus := false } := by
  unfold releaseBus
  obtain ⟨map,answer,activity,place,holdsBus,events,isRead,isCancelled,fault⟩ := session
  cases holdsBus <;> rfl

theorem stop_eq (session : Session) (scene : Scene) :
    (session.stop scene).1 = { session with holdsBus := false, place := none, activity := .ended } := by
  have released := releaseBus_eq session scene
  unfold stop
  dsimp only
  rw [released]

theorem attach_of_attached {natural : Size} {loaded placed : Page} {attached : ImageMap} {update : Reposition}
    (resolved : scene.page.resolveImage session.map.image natural = .ok loaded)
    (attaches : session.map.attach loaded = ⟨attached,placed,.ok update⟩) :
    session.attach natural scene =
      ({ session with map := attached, activity := .joining natural update },{ scene with page := placed }) := by
  unfold attach
  rw [resolved]
  dsimp only
  rw [attaches]

theorem attach_of_refused {natural : Size} {loaded placed : Page} {attached : ImageMap} {fault : MapFault}
    (resolved : scene.page.resolveImage session.map.image natural = .ok loaded)
    (attaches : session.map.attach loaded = ⟨attached,placed,.error fault⟩) :
    session.attach natural scene =
      (({ session with map := attached }.releaseBus { scene with page := placed }).1.fail (.map fault),
        ({ session with map := attached }.releaseBus { scene with page := placed }).2) := by
  unfold attach
  rw [resolved]
  dsimp only
  rw [attaches]
  rfl

theorem result_of_unbroken (unbroken : session.fault = none) : session.result = .ok session.map := by
  unfold result
  rw [unbroken]

def noting (session : Session) (event : MapEvent) : Session :=
  if session.isRead then { session with events := session.events ++ [event] } else session

theorem noting_of_read (read : session.isRead = true) (event : MapEvent) :
    session.noting event = { session with events := session.events ++ [event] } := by
  rw [noting,if_pos read]

@[simp] theorem noting_map (session : Session) (event : MapEvent) :
    (session.noting event).map = session.map := by
  unfold noting
  split_ifs <;> rfl

@[simp] theorem noting_place (session : Session) (event : MapEvent) :
    (session.noting event).place = session.place := by
  unfold noting
  split_ifs <;> rfl

def sentOn (others : List MapEvent) (sequel : Sequel) (session : Session) (scene : Scene) : Session × Scene :=
  match others, sequel with
  | next :: rest, _ => ({ session with activity := .sending next rest sequel },scene)
  | [], .listen => ({ session with activity := .listening },scene)
  | [], .stop => session.stop scene

theorem send_eq (event : MapEvent) (others : List MapEvent) (sequel : Sequel) (session : Session)
    (scene : Scene) :
    session.send event others sequel scene =
      if session.isRead && eventRoom ≤ session.events.length then none
      else some ((session.noting event).sentOn others sequel scene) := by
  unfold send noting sentOn
  cases others with
  | nil => cases sequel <;> rfl
  | cons next rest => rfl

theorem send_of_room (event : MapEvent) (others : List MapEvent) (sequel : Sequel) (scene : Scene)
    (room : session.events.length < eventRoom) :
    session.send event others sequel scene = some ((session.noting event).sentOn others sequel scene) := by
  have free : ¬ (session.isRead && eventRoom ≤ session.events.length) = true := by
    simp only [Bool.and_eq_true,decide_eq_true_eq]
    omega
  rw [send_eq,if_neg free]

theorem listen_of_done {place : Nat} (own : session.place = some place)
    (kept_le : scene.bus.kept.length ≤ scene.bus.sent) (done : scene.bus.sent ≤ place) :
    session.listen scene = none := by
  unfold listen
  rw [own,Option.map_some]
  cases received : scene.bus.receive place with
  | mk delivery later =>
    have nothing := Bus.receive_of_done kept_le done
    rw [received] at nothing
    rcases nothing with rfl | rfl <;> rfl

private theorem listen_of_lost {place : Nat} (own : session.place = some place) (lost : place < scene.bus.oldest) :
    session.listen scene = some { session with place := some scene.bus.oldest } := by
  unfold listen
  rw [own,Option.map_some,Bus.receive_of_lost lost]

private theorem listen_of_kept {place : Nat} (own : session.place = some place) (kept : scene.bus.oldest ≤ place)
    (behind : place < scene.bus.sent) :
    session.listen scene = some { session with place := some (place + 1), activity := .resized } := by
  obtain ⟨resize,received⟩ := Bus.receive_of_kept kept behind
  unfold listen
  rw [own,Option.map_some,received]

theorem listen_of_behind (scene : Scene) {place : Nat} (own : session.place = some place)
    (sound : scene.bus.IsSound) (behind : place < scene.bus.sent) :
    (place < scene.bus.oldest ∧ scene.bus.oldest < scene.bus.sent ∧
        session.listen scene = some { session with place := some scene.bus.oldest }) ∨
      session.listen scene = some { session with place := some (place + 1), activity := .resized } := by
  rcases Nat.lt_or_ge place scene.bus.oldest with lost | kept
  · exact .inl ⟨lost,Bus.oldest_lt_sent sound behind,listen_of_lost own lost⟩
  · exact .inr (listen_of_kept own kept behind)

theorem reposition_of_ok {update : Reposition} {placed : Page} (now : Timestamp)
    (done : session.map.reposition scene.page = (.ok update,placed)) :
    session.reposition now scene =
      ({ session with activity := .sending (.repositioned session.map.id update now) [] .listen },
        { scene with page := placed }) := by
  unfold reposition
  rw [done]

theorem reposition_of_error {fault : MapFault} {placed : Page} (now : Timestamp)
    (failed : session.map.reposition scene.page = (.error fault,placed)) :
    session.reposition now scene =
      ({ session with activity := .sending (.recomputeFailed session.map.id (Fault.map fault).message) [] .listen },
        { scene with page := placed }) := by
  unfold reposition
  rw [failed]

end PinnedMap.Session
