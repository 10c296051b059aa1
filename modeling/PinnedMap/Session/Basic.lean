import PinnedMap.Fault
import PinnedMap.Session.Bus

/-! A session takes one map through its life: it waits for the image, attaches the map, and repositions
it for every resize until it is disposed. It acts in small steps, between which others may act. -/
namespace PinnedMap

inductive MapEvent where
  | attached (map : Uuid) (natural : Size)
  | repositioned (map : Uuid) (update : Reposition) (time : Timestamp)
  | loadFailed (map : Uuid) (url reason : String)
  | recomputeFailed (map : Uuid) (reason : String)
  | disposed (map : Uuid)
deriving Repr, DecidableEq

def MapEvent.endsPass : MapEvent → Bool
  | .repositioned .. | .recomputeFailed .. => true
  | _ => false

inductive Sequel where
  | listen
  | stop
deriving Repr, DecidableEq

inductive Activity where
  | loading
  | loaded (natural : Size)
  /-- The map is attached; the page is held until the bus is joined. -/
  | joining (natural : Size) (update : Reposition)
  /-- Sends the first of the events, waiting for room among those not read yet. -/
  | sending (event : MapEvent) (others : List MapEvent) (sequel : Sequel)
  | listening
  | resized
  | leaving
  | ended
deriving Repr, DecidableEq

structure Session where
  map : ImageMap
  answer : Option (Except Fault Size) := none
  activity : Activity := .loading
  place : Option Nat := none
  holdsBus : Bool := true
  events : List MapEvent := []
  isRead : Bool := true
  isCancelled : Bool := false
  fault : Option MapFault := none

structure Scene where
  page : Page
  bus : Bus

namespace Session

def eventRoom : Nat := 64

def ofMap (map : ImageMap) : Session := { map }

def url (session : Session) : String := session.map.plan.image

def releaseBus (session : Session) (scene : Scene) : Session × Scene :=
  if session.holdsBus then ({ session with holdsBus := false },{ scene with bus := scene.bus.release })
  else (session,scene)

def stop (session : Session) (scene : Scene) : Session × Scene :=
  let (session,scene) := session.releaseBus scene
  let scene := if session.place.isSome then { scene with bus := scene.bus.unsubscribe } else scene
  ({ session with place := none, activity := .ended },scene)

/-- The image cannot be used: the map stays out of the tree. -/
def fail (session : Session) (fault : Fault) : Session :=
  { session with
    map := session.map.markFailed
    activity := .sending (.loadFailed session.map.id session.url fault.message) [] .stop }

def takeAnswer (session : Session) : Option Session :=
  match session.answer with
  | none => none
  | some (.ok natural) => some { session with activity := .loaded natural }
  | some (.error fault) => some (session.fail fault)

/-- Attaches the map. If that succeeds, the page is not let go of yet. -/
def attach (natural : Size) (session : Session) (scene : Scene) : Session × Scene :=
  match scene.page.resolveImage session.map.image natural with
  | .error fault => (session.releaseBus scene).map (·.fail (.map (.page fault))) id
  | .ok page =>
    let outcome := session.map.attach page
    let scene := { scene with page := outcome.page }
    let session := { session with map := outcome.map }
    match outcome.result with
    | .error fault => (session.releaseBus scene).map (·.fail (.map fault)) id
    | .ok update => ({ session with activity := .joining natural update },scene)

/-- Begins to listen, lets go of the page, and tells that the map is attached. -/
def join (now : Timestamp) (natural : Size) (update : Reposition) (session : Session) (scene : Scene) : Session × Scene :=
  let (place,bus) := scene.bus.subscribe
  let (session,scene) := session.releaseBus { scene with bus }
  let id := session.map.id
  ({ session with
      place := some place
      activity := .sending (.attached id natural) [.repositioned id update now] .listen },scene)

/-- Sends one event. Without a reader it is lost at once; a full queue makes it wait. -/
def send (event : MapEvent) (others : List MapEvent) (sequel : Sequel) (session : Session) (scene : Scene) :
    Option (Session × Scene) :=
  if session.isRead && eventRoom ≤ session.events.length then none
  else
    let session := if session.isRead then { session with events := session.events ++ [event] } else session
    match others, sequel with
    | next :: rest, _ => some ({ session with activity := .sending next rest sequel },scene)
    | [], .listen => some ({ session with activity := .listening },scene)
    | [], .stop => some (session.stop scene)

/-- Reads the bus. A lag is passed over: the next resize read is one for those that were missed. -/
def listen (session : Session) (scene : Scene) : Option Session :=
  match session.place.map scene.bus.receive with
  | some (.resized _,place) => some { session with place := some place, activity := .resized }
  | some (.lagged _,place) => some { session with place := some place }
  | _ => none

def reposition (now : Timestamp) (session : Session) (scene : Scene) : Session × Scene :=
  let (result,page) := session.map.reposition scene.page
  let id := session.map.id
  let event := match result with
    | .ok update => MapEvent.repositioned id update now
    | .error fault => .recomputeFailed id (Fault.map fault).message
  ({ session with activity := .sending event [] .listen },{ scene with page })

def leave (session : Session) (scene : Scene) : Session × Scene :=
  let outcome := session.map.detach scene.page
  let session := { session with map := outcome.map }
  let scene := { scene with page := outcome.page }
  match outcome.result with
  | .ok () => ({ session with activity := .sending (.disposed session.map.id) [] .stop },scene)
  | .error fault => { session with fault := some fault }.stop scene

def step? (now : Timestamp) (session : Session) (scene : Scene) : Option (Session × Scene) :=
  match session.activity with
  | .loading => session.takeAnswer.map (·,scene)
  | .loaded natural => some (session.attach natural scene)
  | .joining natural update => some (session.join now natural update scene)
  | .sending event others sequel => session.send event others sequel scene
  | .listening => (session.listen scene).map (·,scene)
  | .resized => some (session.reposition now scene)
  | .leaving => some (session.leave scene)
  | .ended => none

/-- A session that was told to stop does so where it waits for the image or for a resize. -/
def cancel? (session : Session) : Option Session :=
  if session.isCancelled then
    match session.activity with
    | .loading | .listening => some { session with activity := .leaving, isCancelled := false }
    | _ => none
  else none

/-- Takes steps until the session waits; to stop comes before all else that it waits for. -/
def run (now : Timestamp) : (steps : Nat) → Session → Scene → Session × Scene
  | 0, session, scene => (session,scene)
  | steps + 1, session, scene =>
    match session.cancel? with
    | some session => run now steps session scene
    | none =>
      match session.step? now scene with
      | some (session,scene) => run now steps session scene
      | none => (session,scene)

/-- Each resize that is kept takes three steps, all else no more than a dozen. -/
def stepLimit (scene : Scene) : Nat := 3 * scene.bus.kept.length + 12

def settle (now : Timestamp) (session : Session) (scene : Scene) : Session × Scene :=
  session.run now (stepLimit scene) scene

def answerWith (answer : Except Fault Size) (session : Session) : Session := { session with answer := some answer }

def isEnded (session : Session) : Bool := session.activity = .ended

def result (session : Session) : Except MapFault ImageMap :=
  match session.fault with
  | none => .ok session.map
  | some fault => .error fault

def holdsPage (session : Session) : Bool :=
  match session.activity with
  | .joining .. => true
  | _ => false

def isSending (session : Session) : Bool :=
  match session.activity with
  | .sending .. => true
  | _ => false

def ignore (session : Session) : Session := { session with isRead := false, events := [] }

def dispose (session : Session) : Session := { session.ignore with isCancelled := true }

def next? (session : Session) : Option (MapEvent × Session) :=
  match session.events with
  | [] => none
  | event :: events => some (event,{ session with events })

end Session
end PinnedMap
