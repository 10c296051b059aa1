import PinnedMap.Settings.Toml
import PinnedMap.Surroundings

/-! Where the settings are: at the path that a variable gives, or else beside the program, in the
working directory, or in the user's directory of settings. -/
namespace PinnedMap

namespace Surroundings

def settingsVariable : String := "GATEMAP_CONFIG"

def userVariable : String := "XDG_CONFIG_HOME"

def homeVariable : String := "HOME"

def settingsName : String := "gatemap.toml"

/-- The user's directory of settings: as given if the path is absolute, else one in the home directory. -/
def userDirectory? (surroundings : Surroundings) : Option String :=
  match surroundings.environment.lookup userVariable with
  | some directory => if Path.isAbsolute directory then some directory else standard
  | none => standard
where
  standard : Option String :=
    ((surroundings.environment.lookup homeVariable).filter (· ≠ "")).map (Path.within · ".config")

def settingsCandidates (surroundings : Surroundings) : List String :=
  let beside := surroundings.programDirectory.map (Path.within · settingsName)
  let user := surroundings.userDirectory?.map fun directory =>
    Path.within (Path.within directory "gatemap") settingsName
  beside.toList ++ Path.within surroundings.directory settingsName :: user.toList

/-- The path of the settings. Something must stand there, readable or not. -/
def settingsPath (surroundings : Surroundings) : Except SettingsFault String :=
  match surroundings.environment.lookup settingsVariable with
  | some path => if (surroundings.files path).isSome then .ok path else .error (.missingTarget path)
  | none =>
    match surroundings.settingsCandidates.find? fun path => (surroundings.files path).isSome with
    | some path => .ok path
    | none => .error .notFound

def settings (surroundings : Surroundings) : Except Fault (Settings × String) := do
  let path ← surroundings.settingsPath.mapError .settings
  return (← Settings.load surroundings.files path,path)

end Surroundings
end PinnedMap
