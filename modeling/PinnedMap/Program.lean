import PinnedMap.Json.Forms
import PinnedMap.Replay
import PinnedMap.Settings.Search

/-! The program: it finds its settings, replays them, and prints a line for each event. -/
namespace PinnedMap

namespace Surroundings

def replay (id : Uuid) (clock : Nat → Timestamp) (surroundings : Surroundings) : Replay.Report :=
  let surroundings := surroundings.loadVariables
  match surroundings.settings with
  | .ok (settings,path) => Replay.run surroundings.files (Path.parent path) id clock settings
  | .error fault => ⟨[],.error fault⟩

def imageFile? (surroundings : Surroundings) : Option String :=
  match surroundings.settings with
  | .ok (settings,path) =>
    match ImageSource.locate (Path.parent path) settings.plan.image with
    | .ok (.file path) => some path
    | _ => none
  | .error _ => none

/-- The paths at which a replay looks: for variables, for settings, and for an image. What stands at
the earlier ones decides on the later ones. -/
def lookedAt (surroundings : Surroundings) : List String :=
  let informed := surroundings.loadVariables
  variableFiles surroundings.directory ++ (informed.environment.lookup settingsVariable).toList ++
    informed.settingsCandidates ++ informed.imageFile?.toList

def askedFor (surroundings : Surroundings) : List String :=
  let mentioned := ((variableFiles surroundings.directory).findSome? surroundings.files.bytes?).map
    (Assignments.words ∘ Assignments.readable)
  settingsVariable :: userVariable :: homeVariable :: mentioned.getD []

end Surroundings

namespace Replay.Report

def lines (report : Report) : List String := report.events.map MapEvent.line

def complaint? (report : Report) : Option String :=
  match report.result with
  | .ok () => none
  | .error fault => some ("gatemap: " ++ fault.message)

def exitCode (report : Report) : Nat :=
  match report.result with
  | .ok () => 0
  | .error _ => 1

end Replay.Report
end PinnedMap
