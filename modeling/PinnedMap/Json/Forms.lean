import PinnedMap.Fault
import PinnedMap.Files.Tree
import PinnedMap.Json.Tagged
import PinnedMap.Session.Basic
import PinnedMap.Settings.Toml
import PinnedMap.Timestamp.Reading
import PinnedMap.Uuid

/-! The JSON forms of the types that are stored, printed or sent. -/
namespace PinnedMap

open Json

def Size.json : Codec Size :=
  (Fields.cons { name := "width", codec := Codec.number } <|
    .cons { name := "height", codec := Codec.number } .nil).codec "struct Size"
  |>.imap (fun (width,height,()) => ⟨width,height⟩) fun size => (size.width,size.height,())

def Gate.json : Codec Gate :=
  (Fields.cons { name := "x", codec := Codec.number } <|
    .cons { name := "y", codec := Codec.number } <|
    .cons { name := "label", codec := Codec.string.optional, absent := some none, isOmitted := Option.isNone } .nil).codec
      "struct GateConfig"
  |>.imap (fun (x,y,label,()) => ⟨x,y,label⟩) fun gate => (gate.x,gate.y,gate.label,())

def MapPlan.json : Codec MapPlan :=
  (Fields.cons { name := "mapImage", alias? := some "map_image", codec := Codec.string } <|
    .cons { name := "gates", codec := Gate.json.list } .nil).codec "struct ImageMapConfig"
  |>.imap (fun (image,gates,()) => ⟨image,gates⟩) fun plan => (plan.image,plan.gates,())

def ScaleMode.json : Codec ScaleMode := Codec.choice [("uniform",.uniform),("per_axis",.perAxis)]

def LayoutOptions.json : Codec LayoutOptions :=
  let standard : LayoutOptions := {}
  (Fields.cons { name := "max_width", codec := Codec.number, absent := some standard.maxWidth } <|
    .cons { name := "class_name", codec := Codec.string, absent := some standard.className } <|
    .cons { name := "scale_mode", codec := ScaleMode.json, absent := some standard.scaleMode } .nil).codec
      "struct LayoutOptions"
  |>.imap (fun (width,name,mode,()) => ⟨width,name,mode⟩) fun options =>
    (options.maxWidth,options.className,options.scaleMode,())

def MapPhase.json : Codec MapPhase :=
  Codec.choice [("loading",.loading),("attached",.attached),("failed",.failed),("disposed",.disposed)]

def Ratio.json : Codec Ratio :=
  (Fields.cons { name := "x", codec := Codec.number } <|
    .cons { name := "y", codec := Codec.number } .nil).codec "struct ScaleRatio"
  |>.imap (fun (x,y,()) => ⟨x,y⟩) fun ratio => (ratio.x,ratio.y,())

def ElementId.json : Codec ElementId := Codec.count.imap ElementId.mk ElementId.index

def Placement.json : Codec Placement :=
  (Fields.cons { name := "index", codec := Codec.count } <|
    .cons { name := "element", codec := ElementId.json } <|
    .cons { name := "left", codec := Codec.number } <|
    .cons { name := "top", codec := Codec.number } .nil).codec "struct Placement"
  |>.imap (fun (index,element,left,top,()) => ⟨index,element,left,top⟩) fun place =>
    (place.index,place.element,place.left,place.top,())

def Reposition.json : Codec Reposition :=
  (Fields.cons { name := "ratio", codec := Ratio.json } <|
    .cons { name := "placements", codec := Placement.json.list } .nil).codec "struct Reposition"
  |>.imap (fun (ratio,placements,()) => ⟨ratio,placements⟩) fun update => (update.ratio,update.placements,())

def ViewportPlan.json : Codec ViewportPlan :=
  let standard : ViewportPlan := {}
  (Fields.cons { name := "width", codec := Codec.number, absent := some standard.width } <|
    .cons { name := "height", codec := Codec.number, absent := some standard.height } <|
    .cons { name := "resize_steps", codec := Codec.number.pair.list, absent := some standard.resizeSteps } .nil).codec
      "struct ViewportConfig"
  |>.imap (fun (width,height,steps,()) => ⟨width,height,steps⟩) fun plan =>
    (plan.width,plan.height,plan.resizeSteps,())

def Settings.json : Codec Settings :=
  (Fields.cons { name := "map", codec := MapPlan.json } <|
    .cons { name := "layout", codec := LayoutOptions.json, absent := some {} } <|
    .cons { name := "viewport", codec := ViewportPlan.json, absent := some {} } .nil).codec "struct AppConfig"
  |>.imap (fun (plan,layout,viewport,()) => ⟨plan,layout,viewport⟩) fun settings =>
    (settings.plan,settings.layout,settings.viewport,())

def Uuid.json : Codec Uuid :=
  Codec.written "a formatted UUID string"
    (fun text => (ofChars text.toList).mapError ("UUID parsing failed: " ++ ·.message)) Uuid.text

def Timestamp.json : Codec Timestamp :=
  Codec.written "an RFC 3339 formatted date and time string"
    (fun text => (ofChars text.toList).mapError Fault.message) Timestamp.text

def Resize.json : Codec Resize :=
  let fields := Fields.cons { name := "width", codec := Codec.number } <|
    .cons { name := "height", codec := Codec.number } <|
    .cons { name := "timestamp", codec := Timestamp.json } .nil
  Tagged.codec ⟨"ViewportEvent","type",
    [fields.variant "resized" "ViewportEvent::Resized"
      (fun (width,height,time,()) => ⟨⟨width,height⟩,time⟩)
      fun resize => some (resize.size.width,resize.size.height,resize.time,())]⟩

namespace MapEvent

def mapField : Json.Field Uuid := { name := "map_id", codec := Uuid.json }

def reasonField : Json.Field String := { name := "reason", codec := Codec.string }

def attachedVariant : Variant MapEvent :=
  (Fields.cons mapField <| .cons { name := "natural", codec := Size.json } .nil).variant
    "attached" "MapEvent::Attached" (fun (map,natural,()) => .attached map natural)
    fun | .attached map natural => some (map,natural,()) | _ => none

def repositionedVariant : Variant MapEvent :=
  (Fields.cons mapField <|
    .cons { name := "ratio", codec := Ratio.json } <|
    .cons { name := "placements", codec := Placement.json.list } <|
    .cons { name := "timestamp", codec := Timestamp.json } .nil).variant
    "repositioned" "MapEvent::Repositioned"
    (fun (map,ratio,placements,time,()) => .repositioned map ⟨ratio,placements⟩ time)
    fun | .repositioned map update time => some (map,update.ratio,update.placements,time,()) | _ => none

def loadFailedVariant : Variant MapEvent :=
  (Fields.cons mapField <| .cons { name := "url", codec := Codec.string } <| .cons reasonField .nil).variant
    "load_failed" "MapEvent::LoadFailed" (fun (map,url,reason,()) => .loadFailed map url reason)
    fun | .loadFailed map url reason => some (map,url,reason,()) | _ => none

def recomputeFailedVariant : Variant MapEvent :=
  (Fields.cons mapField <| .cons reasonField .nil).variant
    "recompute_failed" "MapEvent::RecomputeFailed" (fun (map,reason,()) => .recomputeFailed map reason)
    fun | .recomputeFailed map reason => some (map,reason,()) | _ => none

def disposedVariant : Variant MapEvent :=
  (Fields.cons mapField .nil).variant "disposed" "MapEvent::Disposed" (fun (map,()) => .disposed map)
    fun | .disposed map => some (map,()) | _ => none

def json : Codec MapEvent :=
  Tagged.codec ⟨"MapEvent","event",
    [attachedVariant,repositionedVariant,loadFailedVariant,recomputeFailedVariant,disposedVariant]⟩

/-- The event as one line of text, without the line break. -/
def line (event : MapEvent) : String := String.ofList (json.write event)

end MapEvent

def MapPlan.gatesText (plan : MapPlan) : String := String.ofList (Gate.json.list.write plan.gates)

def MapPlan.ofJson (text : String) : Except Fault MapPlan := do
  let root ← (Value.ofChars text.toList).mapError .json
  let .object members := root | throw (.plan .root)
  let some (.text image) := members.lookup "mapImage" | throw (.plan .image)
  let some (.array gates) := members.lookup "gates" | throw (.plan .gates)
  let gates ← (Gate.json.list.read .value (Value.array gates).toNode).mapError .json
  return ⟨image,gates⟩

/-- The plan that a file holds. There is none if the file cannot be read as a text. -/
def MapPlan.openFile (files : Files) (path : String) : Except Fault (Option MapPlan) :=
  match files.text? path with
  | none => .ok none
  | some text => (MapPlan.ofJson text).map some

end PinnedMap
