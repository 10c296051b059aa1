import PinnedMap.Proofs.Session.Stepping

/-! A session and all around it, with a record of what came of it: the events that it let out and those that were
read, its layout passes, whether loading or attaching failed, and what it gave back. Between any two of its steps
others answer for the loader, read its events or stop reading, tell it to stop, hold the page and change it, and
use the bus. -/
namespace PinnedMap

def MapEvent.map : MapEvent → Uuid
  | .attached map _ | .repositioned map _ _ | .loadFailed map _ _ | .recomputeFailed map _ | .disposed map => map

def Bus.Use.counted (listeners : Nat) : Use → Nat
  | .subscribe => listeners + 1
  | .unsubscribe => listeners - 1
  | _ => listeners

/-- A layout pass: the page that it found, its result, and the page that it left. -/
structure Pass where
  before : Page
  result : Except MapFault Reposition
  after : Page

namespace Session

def passes (session : Session) (page : Page) : List Pass :=
  match session.activity with
  | .loaded natural =>
    match session.map.attachLoaded natural page with
    | ⟨_,after,.ok update⟩ => [⟨session.map.filled natural page,.ok update,after⟩]
    | ⟨_,_,.error _⟩ => []
  | .resized => [⟨page,(session.map.reposition page).1,(session.map.reposition page).2⟩]
  | _ => []

def fails (session : Session) (page : Page) : Bool :=
  match session.activity with
  | .loading =>
    match session.answer with
    | some (.error _) => true
    | _ => false
  | .loaded natural => !(session.map.attachLoaded natural page).result.isOk
  | _ => false

def needsPage (session : Session) : Bool :=
  match session.activity with
  | .loaded _ | .resized | .leaving => true
  | _ => false

end Session

structure Chronicle where
  session : Session
  scene : Scene
  others : Nat
  wrapper : Option ElementId
  isTaken : Bool := false
  told : List MapEvent := []
  received : List MapEvent := []
  passes : List Pass := []
  hasFailed : Bool := false
  isDisposed : Bool := false
  /-- Whether others hung the wrapper into the container after the session's last edit. -/
  isRehung : Bool := false
  returned : Option (Except MapFault ImageMap) := none

namespace Chronicle

inductive Move where
  | act (now : Timestamp)
  | heed
  | answer (answer : Except Fault Size)
  | read
  | ignore
  | dispose
  | take
  | free
  | change (operation : Page.Operation)
  | use (use : Bus.Use)

def start (map : ImageMap) (page : Page) (capacity : Nat) (uses : List Bus.Use) : Chronicle :=
  let bus := uses.foldl Bus.use (.ofCapacity capacity)
  { session := .ofMap map
    scene := ⟨page,bus.share⟩
    others := bus.listeners
    wrapper := map.wrapper }

def isHung (chronicle : Chronicle) (page : Page) : Bool :=
  chronicle.wrapper.any fun wrapper => page.parent wrapper = some chronicle.session.map.container

def stepped (chronicle : Chronicle) (next : Session × Scene) : Chronicle :=
  let session := chronicle.session
  let page := chronicle.scene.page
  { chronicle with
    session := next.1
    scene := next.2
    wrapper := if page.elements.size < next.2.page.elements.size then some ⟨page.elements.size⟩ else chronicle.wrapper
    told := chronicle.told ++ session.tells
    passes := chronicle.passes ++ session.passes page
    hasFailed := chronicle.hasFailed || session.fails page
    isRehung := chronicle.isRehung && !session.needsPage
    returned := if next.1.isEnded then some next.1.result else chronicle.returned }

def isBarred (chronicle : Chronicle) : Bool := chronicle.isTaken && chronicle.session.needsPage

def act (now : Timestamp) (chronicle : Chronicle) : Chronicle :=
  if chronicle.isBarred then chronicle
  else
    match chronicle.session.step? now chronicle.scene with
    | none => chronicle
    | some next => chronicle.stepped next

def read (chronicle : Chronicle) : Chronicle :=
  match chronicle.session.next? with
  | none => chronicle
  | some (event,session) => { chronicle with session, received := chronicle.received ++ [event] }

def changed (operation : Page.Operation) (chronicle : Chronicle) : Chronicle :=
  let page := chronicle.scene.page.perform operation
  { chronicle with
    scene := { chronicle.scene with page }
    isRehung := chronicle.isRehung || !chronicle.isHung chronicle.scene.page && chronicle.isHung page }

def change (operation : Page.Operation) (chronicle : Chronicle) : Chronicle :=
  if chronicle.session.holdsPage then chronicle else chronicle.changed operation

def use (use : Bus.Use) (chronicle : Chronicle) : Chronicle :=
  if use = .unsubscribe && chronicle.others = 0 then chronicle
  else
    { chronicle with
      scene := { chronicle.scene with bus := chronicle.scene.bus.use use }
      others := use.counted chronicle.others }

def after (chronicle : Chronicle) : Move → Chronicle
  | .act now => chronicle.act now
  | .heed => { chronicle with session := chronicle.session.cancel?.getD chronicle.session }
  | .answer answer => { chronicle with session := chronicle.session.answerWith answer }
  | .read => chronicle.read
  | .ignore => { chronicle with session := chronicle.session.ignore }
  | .dispose => { chronicle with session := chronicle.session.dispose, isDisposed := true }
  | .take => { chronicle with isTaken := chronicle.isTaken || !chronicle.session.holdsPage }
  | .free => { chronicle with isTaken := false }
  | .change operation => chronicle.change operation
  | .use use => chronicle.use use

def afterAll (chronicle : Chronicle) (moves : List Move) : Chronicle := moves.foldl after chronicle

/-- What a move makes of a chronicle, one case for each thing that can happen. -/
inductive Moved (chronicle : Chronicle) : Chronicle → Prop
  | idle : Moved chronicle chronicle
  | stepped {now : Timestamp} {next : Session × Scene}
      (step : Session.Stepped now chronicle.session chronicle.scene next) : Moved chronicle (chronicle.stepped next)
  | heeded (cancelled : chronicle.session.isCancelled = true)
      (waiting : chronicle.session.activity = .loading ∨ chronicle.session.activity = .listening) :
      Moved chronicle
        { chronicle with session := { chronicle.session with activity := .leaving, isCancelled := false } }
  | answered (answer : Except Fault Size) :
      Moved chronicle { chronicle with session := chronicle.session.answerWith answer }
  | read {event : MapEvent} {events : List MapEvent} (unread : chronicle.session.events = event :: events) :
      Moved chronicle
        { chronicle with session := { chronicle.session with events }, received := chronicle.received ++ [event] }
  | ignored : Moved chronicle { chronicle with session := chronicle.session.ignore }
  | disposed : Moved chronicle { chronicle with session := chronicle.session.dispose, isDisposed := true }
  | locked (isTaken : Bool) : Moved chronicle { chronicle with isTaken }
  | changed (operation : Page.Operation) (free : chronicle.session.holdsPage = false) :
      Moved chronicle (chronicle.changed operation)
  | used {use : Bus.Use} (listened : use = .unsubscribe → chronicle.others ≠ 0) :
      Moved chronicle
        { chronicle with
          scene := { chronicle.scene with bus := chronicle.scene.bus.use use }
          others := use.counted chronicle.others }

private theorem moved_heed (chronicle : Chronicle) :
    Moved chronicle { chronicle with session := chronicle.session.cancel?.getD chronicle.session } := by
  unfold Session.cancel?
  cases cancelled : chronicle.session.isCancelled with
  | false => exact .idle
  | true =>
    rw [if_pos rfl]
    cases activity : chronicle.session.activity with
    | loading => exact .heeded cancelled (.inl activity)
    | listening => exact .heeded cancelled (.inr activity)
    | loaded | joining | sending | resized | leaving | ended => exact .idle

theorem moved_after (chronicle : Chronicle) (move : Move) : Moved chronicle (chronicle.after move) := by
  cases move with
  | act now =>
    rw [after,act]
    split_ifs
    · exact .idle
    · cases step : chronicle.session.step? now chronicle.scene with
      | none => exact .idle
      | some next => exact .stepped (Session.stepped_of_step? step)
  | heed => exact moved_heed chronicle
  | answer answer => exact .answered answer
  | read =>
    rw [after,read,Session.next?]
    cases unread : chronicle.session.events with
    | nil => exact .idle
    | cons event events => exact .read unread
  | ignore => exact .ignored
  | dispose => exact .disposed
  | take => exact .locked _
  | free => exact .locked false
  | change operation =>
    rw [after,change]
    split_ifs with held
    · exact .idle
    · exact .changed operation (by simpa using held)
  | use use =>
    rw [after,Chronicle.use]
    split_ifs with barred
    · exact .idle
    · exact .used fun stops => by simpa [stops] using barred

/-- What the first chronicle has, and every move keeps, all that follow have. -/
theorem afterAll_induction {chronicle : Chronicle} {holds : Chronicle → Prop} (begins : holds chronicle)
    (keeps : ∀ chronicle next, holds chronicle → Moved chronicle next → holds next) (moves : List Move) :
    holds (chronicle.afterAll moves) := by
  induction moves generalizing chronicle with
  | nil => exact begins
  | cons move moves ih => exact ih (keeps chronicle _ begins (moved_after chronicle move))

end Chronicle
end PinnedMap
