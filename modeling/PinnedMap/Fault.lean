import PinnedMap.ImageMap.Basic
import PinnedMap.Json.Fault
import PinnedMap.Picture.Base64

/-! Everything that can go wrong, by cause, and the wording of each cause. -/
namespace PinnedMap

inductive SettingsFault where
  | missingTarget (path : String)
  | notFound
deriving Repr, DecidableEq

def SettingsFault.message : SettingsFault → String
  | .missingTarget path => "GATEMAP_CONFIG points at " ++ path ++ " which does not exist"
  | .notFound =>
    "gatemap.toml not found via GATEMAP_CONFIG, next to executable, in working directory or user config directory"

inductive PlanFault where
  | root
  | image
  | gates
deriving Repr, DecidableEq

def PlanFault.message : PlanFault → String
  | .root => "root object is invalid"
  | .image => "mapImage key is invalid"
  | .gates => "gates key is invalid"

inductive SourceFault where
  | emptyUrl
  | remote (url : String)
  | noPayload
  | notBase64
  | notLoaded (url : String)
  /-- A loader's own reason. -/
  | reported (reason : String)
deriving Repr, DecidableEq

def SourceFault.message : SourceFault → String
  | .emptyUrl => "empty image URL"
  | .remote url => "remote images are not supported: " ++ url
  | .noPayload => "data URL has no payload"
  | .notBase64 => "data URL is not base64 encoded"
  | .notLoaded url => url ++ " could not be loaded"
  | .reported reason => reason

inductive Fault where
  | settings (cause : SettingsFault)
  | plan (cause : PlanFault)
  | source (cause : SourceFault)
  | map (cause : MapFault)
  | sessionEnded
  | unreadable
  | json (cause : Json.Fault)
  | settingsText
  | picture
  | base64 (cause : Base64.Fault)
deriving Repr, DecidableEq

def MapFault.message : MapFault → String
  | .gateCount gates pins =>
    "Gate count mismatch: " ++ toString gates ++ " gates for " ++ toString pins ++ " binding elements"
  | .attachIn phase => "Invalid map state: attach called in state " ++ phase.name
  | .positionIn phase => "Invalid map state: cannot position elements in state " ++ phase.name
  | .notLoaded => "Invalid map state: map image has not loaded yet"
  | .scale fault => "Layout error: " ++ fault.message
  | .page fault => "DOM error: " ++ fault.message

def Fault.message : Fault → String
  | .settings cause => "Configuration error: " ++ cause.message
  | .plan cause => "Map config parse error: " ++ cause.message
  | .source cause => "Image load error: " ++ cause.message
  | .map cause => cause.message
  | .sessionEnded => "Session error: map session ended unexpectedly"
  | .unreadable => "IO error: the file cannot be read or written"
  | .json cause => "JSON error: " ++ cause.message
  | .settingsText => "TOML deserialize error: the text does not hold settings"
  | .picture => "Image decode error: no header of a supported image"
  | .base64 cause => "Base64 decode error: " ++ cause.message

end PinnedMap
