import PinnedMap.Picture.Source
import PinnedMap.Session.Basic
import PinnedMap.Settings.Toml

/-! A replay: a page with one map, and its session, which is led through the sizes of the viewport. After
each size the replay waits until the session has tried to lay the map out. -/
namespace PinnedMap

inductive Arrival where
  | laidOut
  | unloaded
deriving Repr, DecidableEq

def MapEvent.arrival? (event : MapEvent) : Option Arrival :=
  if event.endsPass then some .laidOut
  else match event with
    | .loadFailed .. => some .unloaded
    | _ => none

/-- The events up to the first that says how the layout went, what it says, and the events after it. -/
def MapEvent.await : List MapEvent → List MapEvent × Option Arrival × List MapEvent
  | [] => ([],none,[])
  | event :: events =>
    match event.arrival? with
    | some arrival => ([event],some arrival,events)
    | none =>
      let (before,arrival,after) := await events
      (event :: before,arrival,after)

structure Replay where
  session : Session
  scene : Scene

namespace Replay

def createAll (tag : String) : (count : Nat) → Page → List ElementId × Page
  | 0, page => ([],page)
  | count + 1, page =>
    let (element,page) := page.create tag
    let (elements,page) := createAll tag count page
    (element :: elements,page)

def stage (id : Uuid) (settings : Settings) : Except MapFault (ImageMap × Page) := do
  let (container,page) := (Page.ofViewport settings.viewport.initial).create "div"
  let page ← (page.append Page.body container).mapError .page
  let (pins,page) := createAll "button" settings.plan.gates.length page
  ImageMap.create page id settings.plan pins container settings.layout

def start (id : Uuid) (settings : Settings) (answer : Except Fault Size) : Except Fault Replay := do
  let (map,page) ← (stage id settings).mapError .map
  return ⟨(Session.ofMap map).answerWith answer,⟨page,Bus.standard.share⟩⟩

def await (now : Timestamp) (replay : Replay) : List MapEvent × Option Arrival × Replay :=
  let (session,scene) := replay.session.settle now replay.scene
  let (events,arrival,unread) := MapEvent.await session.events
  (events,arrival,⟨{ session with events := unread },scene⟩)

def resize (now : Timestamp) (size : Size) (replay : Replay) : Replay :=
  { replay with scene := ⟨replay.scene.page.setViewport size,replay.scene.bus.announce ⟨size,now⟩⟩ }

def dispose (now : Timestamp) (replay : Replay) : Except Fault ImageMap :=
  (replay.session.dispose.settle now replay.scene).1.result.mapError .map

structure Report where
  events : List MapEvent := []
  result : Except Fault Unit

def Report.after (events : List MapEvent) (later : Report) : Report := { later with events := events ++ later.events }

/-- Leads the map through the sizes ahead, with a wait after each, and takes it off its page. What the wait says does
not matter, so long as the session goes on. The clock gives the time of each wait. -/
def walk (clock : Nat → Timestamp) (step : Nat) : (ahead : List Size) → Replay → Report
  | [], replay => ⟨[],(replay.dispose (clock step)).map fun _ => ()⟩
  | size :: ahead, replay =>
    let (events,arrival,replay) := (replay.resize (clock step) size).await (clock (step + 1))
    match arrival with
    | some _ => (walk clock (step + 1) ahead replay).after events
    | none => ⟨events,.error .sessionEnded⟩

/-- Waits for the first layout. Without an image there are no others. -/
def report (clock : Nat → Timestamp) (ahead : List Size) (replay : Replay) : Report :=
  let url := replay.session.url
  let (events,arrival,replay) := replay.await (clock 0)
  match arrival with
  | some .laidOut => (walk clock 0 ahead replay).after events
  | some .unloaded => ⟨events,(replay.dispose (clock 0)).bind fun _ => .error (.source (.notLoaded url))⟩
  | none => ⟨events,.error .sessionEnded⟩

def run (files : Files) (root : String) (id : Uuid) (clock : Nat → Timestamp) (settings : Settings) : Report :=
  match start id settings (ImageSource.load files root settings.plan.image) with
  | .ok replay => replay.report clock settings.viewport.steps
  | .error fault => ⟨[],.error fault⟩

end Replay
end PinnedMap
