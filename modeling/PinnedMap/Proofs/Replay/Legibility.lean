import PinnedMap.Proofs.ImageMap.Framing
import PinnedMap.Proofs.Json.Legible
import PinnedMap.Proofs.Picture.Lengths
import PinnedMap.Proofs.Replay.Run

/-! Which lines of a replay can be read as events again. The sizes of the viewport and the cap may be any doubles, but
they reach the lines only through the scale, and that is finite whatever they are. What is left are the places of the
pins, each of them a coordinate of a gate that is scaled. -/
namespace PinnedMap

open Decimal Decimal.Binary Json

/-- A gate that has a place at every scale that the mode gives. The ratio of the heights may be rounded up beyond one,
so there a coordinate close to the largest double has none. -/
def Gate.FitsIn (mode : ScaleMode) (gate : Gate) : Prop :=
  Decimal.IsFinite gate.x ∧ ∃ magnitude : Binary, kind gate.y = .finite magnitude ∧
    (mode = .perAxis → 2 * magnitude.number ≤ largest.number)

private theorem isFinite_scaled {coordinate factor : Float} (finite : Decimal.IsFinite coordinate)
    (within : IsWithin 1 factor) : Decimal.IsFinite (coordinate * factor) := by
  obtain ⟨magnitude,sort⟩ := finite
  exact isFinite_mul sort within (eq_signed sort).1 (mul_one _).le

theorem Gate.FitsIn.isFinite_scaled {mode : ScaleMode} {gate : Gate} {ratio : Ratio} (fits : gate.FitsIn mode)
    (x : IsWithin 1 ratio.x) (y : IsWithin mode.most ratio.y) :
    Decimal.IsFinite (ratio.left gate) ∧ Decimal.IsFinite (ratio.top gate) := by
  obtain ⟨finite,magnitude,sort,room⟩ := fits
  refine ⟨PinnedMap.isFinite_scaled finite x,?_⟩
  cases mode with
  | uniform => exact PinnedMap.isFinite_scaled ⟨magnitude,sort⟩ y
  | perAxis => exact isFinite_mul sort y isCanonical_largest ((mul_comm _ _).trans_le (room rfl))

def MapEvent.placements : MapEvent → List Placement
  | .repositioned _ update _ => update.placements
  | .attached .. | .loadFailed .. | .recomputeFailed .. | .disposed _ => []

namespace Replay

variable {page : Page} {map : ImageMap} {id : Uuid} {settings : Settings}

private theorem isForest_createAll (forest : page.IsForest) (tag : String) (count : Nat) :
    (createAll tag count page).2.IsForest := by
  induction count generalizing page with
  | zero => exact forest
  | succ count ih => exact ih (forest.create tag)

private theorem elements_createAll (tag : String) (count : Nat) (page : Page) :
    (createAll tag count page).1 = (List.range' page.elements.size count).map ElementId.mk := by
  induction count generalizing page with
  | zero => rfl
  | succ count ih =>
    have later := ih (page.create tag).2
    rw [Page.size_create] at later
    exact congrArg (ElementId.mk page.elements.size :: ·) later

/-- The page on which the map of a replay is created: the body and the container come before the pins. -/
theorem exists_grown (staged : stage id settings = .ok (map,page)) : ∃ grown container,
    let pins := (List.range' 2 settings.plan.gates.length).map ElementId.mk
    ImageMap.create grown id settings.plan pins container settings.layout = .ok (map,page) ∧ grown.IsForest ∧
      grown.HasTag Page.body "body" ∧ ∀ id ∈ container :: pins, (grown.element? id).isSome := by
  obtain ⟨contained,appended,bodyKnown,_,above,_⟩ := exists_contained settings.viewport.initial
  obtain ⟨_,each,kept⟩ := createAll_spec "button" settings.plan.gates.length contained
  have forest : contained.IsForest := ((Page.isForest_ofViewport _).create "div").append appended
  have size : contained.elements.size = 2 := by
    obtain ⟨_,_,_,rfl⟩ := Page.append_eq_ok.mp appended
    rw [Page.size_hang]
    rfl
  have body : contained.HasTag Page.body "body" := by
    have tagged : (Page.ofViewport settings.viewport.initial).HasTag Page.body "body" := ⟨Element.ofTag "body",rfl,rfl⟩
    obtain ⟨_,_,_,rfl⟩ := Page.append_eq_ok.mp appended
    have kept := Page.isKept_hasTag Page.body "body"
    exact kept.hang _ _ _ (kept.create _ "div" tagged)
  have known : (contained.element? ((Page.ofViewport settings.viewport.initial).create "div").1).isSome := by
    obtain ⟨element,found,_⟩ := Page.parent_eq_some.mp above
    exact Option.isSome_iff_exists.mpr ⟨element,found⟩
  have pins := elements_createAll "button" settings.plan.gates.length contained
  have created : ImageMap.create (createAll "button" settings.plan.gates.length contained).2 id settings.plan
      (createAll "button" settings.plan.gates.length contained).1
      ((Page.ofViewport settings.viewport.initial).create "div").1 settings.layout = .ok (map,page) := by
    unfold stage at staged
    dsimp only at staged
    rw [appended] at staged
    exact staged
  rw [size] at pins
  rw [pins] at created each
  refine ⟨_,_,created,isForest_createAll forest "button" settings.plan.gates.length,?_,?_⟩
  · obtain ⟨element,found,own⟩ := body
    exact ⟨element,(kept _ bodyKnown).trans found,own⟩
  · refine List.forall_mem_cons.mpr ⟨?_,fun pin member => (each pin member).2.1⟩
    rw [kept _ known]
    exact known

/-- The places of the pins at a scale, one for each gate and in the order of the gates. -/
def places (gates : List Gate) (ratio : Ratio) : List Placement :=
  gates.zipIdx.map fun (gate,index) => ⟨index,⟨index + 2⟩,ratio.left gate,ratio.top gate⟩

private theorem getElem?_places (gates : List Gate) (ratio : Ratio) (index : Nat) :
    (places gates ratio)[index]? = gates[index]?.map fun gate => ⟨index,⟨index + 2⟩,ratio.left gate,ratio.top gate⟩ := by
  unfold places
  rw [List.getElem?_map,List.getElem?_zipIdx,Option.map_map,Nat.zero_add]
  rfl

private theorem placements_of_pins {map : ImageMap}
    (pins : map.pins = (List.range' 2 map.plan.gates.length).map ElementId.mk)
    (ratio : Ratio) : map.placements ratio = places map.plan.gates ratio := by
  apply List.ext_getElem?
  intro index
  rw [ImageMap.getElem?_placements,getElem?_places,pins]
  rcases Nat.lt_or_ge index map.plan.gates.length with less | beyond
  · have isGate := List.getElem?_eq_getElem less
    have isPair : (((List.range' 2 map.plan.gates.length).map ElementId.mk).zip map.plan.gates)[index]? =
        some (⟨index + 2⟩,map.plan.gates[index]) :=
      List.getElem?_zip_eq_some.mpr ⟨by simp [less,Nat.add_comm],isGate⟩
    rw [isPair,isGate]
    rfl
  · rw [List.getElem?_eq_none beyond,List.getElem?_eq_none (by simp [beyond])]
    rfl

private theorem mem_places_iff {gates : List Gate} {ratio : Ratio} {place : Placement} : place ∈ places gates ratio ↔
    ∃ index gate, gates[index]? = some gate ∧
      (⟨index,⟨index + 2⟩,ratio.left gate,ratio.top gate⟩ : Placement) = place := by
  simp only [List.mem_iff_getElem?,getElem?_places,Option.map_eq_some_iff]

/-- What a pass of a replay tells: a scale that is finite, and the places of the pins at that scale. -/
structure IsLaidOut (settings : Settings) (update : Reposition) : Prop where
  x : IsWithin 1 update.ratio.x
  y : IsWithin settings.layout.scaleMode.most update.ratio.y
  placements : update.placements = places settings.plan.gates update.ratio

private theorem isLaidOut_of_laidOutAt {natural viewport : Size} {update : Reposition} (pictured : natural.IsPictured)
    (usable : isUsable natural.width = true) (laid : laidOutAt id settings natural viewport = .ok update) :
    IsLaidOut settings update := by
  obtain ⟨⟨map,page⟩,staged,laid⟩ := Attempt.bind_eq_ok.mp laid
  obtain ⟨resolved,resolves,attached⟩ := Attempt.bind_eq_ok.mp laid
  obtain ⟨grown,container,created,forest,body,known⟩ := exists_grown staged
  obtain ⟨_,rfl⟩ := ImageMap.create_eq_ok created
  have fresh := ImageMap.isFresh_of_created forest body known created (Attempt.mapError_eq_ok.mp resolves) usable
  obtain ⟨told,rendered,between,shown⟩ := (fresh.setViewport viewport).first_pass attached
  obtain ⟨x,y⟩ := Ratio.isWithin_of_between pictured between (shown.imp_right fun ⟨available,same⟩ => ⟨available,_,same⟩)
  exact ⟨x,y,told.trans (placements_of_pins rfl _)⟩

variable {files : Files} {root : String} {clock : Nat → Timestamp}

private theorem exists_of_forall₂ {α β : Type} {related : α → β → Prop} {values : List α} {results : List β}
    (each : List.Forall₂ related values results) {result : β} (member : result ∈ results) :
    ∃ value ∈ values, related value result := by
  induction each with
  | nil => cases member
  | cons first _ ih =>
    rcases List.mem_cons.mp member with rfl | later
    · exact ⟨_,List.mem_cons_self ..,first⟩
    · obtain ⟨value,listed,pair⟩ := ih later
      exact ⟨value,List.mem_cons_of_mem _ listed,pair⟩

private theorem event_cases {event : MapEvent} (told : event ∈ (run files root id clock settings).events) :
    (∃ natural, natural.IsPictured ∧ event = .attached id natural) ∨
      (∃ update step, IsLaidOut settings update ∧ event = .repositioned id update (clock step)) ∨
      ∃ reason, event = .loadFailed id settings.plan.image reason := by
  rcases loaded_or_unloaded files root settings with ⟨natural,loaded,usable⟩ | unusable
  · have pictured := ImageSource.isPictured_of_load loaded
    obtain ⟨updates,ran,passes⟩ := run_of_loaded files root id clock settings loaded usable
    rw [ran] at told
    rcases List.mem_cons.mp told with rfl | told
    · exact .inl ⟨natural,pictured,rfl⟩
    · obtain ⟨⟨update,step⟩,listed,rfl⟩ := List.mem_map.mp told
      obtain ⟨_,_,laid⟩ := exists_of_forall₂ passes (List.fst_mem_of_mem_zipIdx listed)
      unfold isUsableFor at usable
      refine .inr (.inl ⟨update,step,?_,rfl⟩)
      exact isLaidOut_of_laidOutAt pictured (Bool.and_eq_true_iff.mp usable).1 laid
  · obtain ⟨reason,ran⟩ := run_of_unloaded files root id clock settings unusable
    rw [ran] at told
    exact .inr (.inr ⟨reason,List.mem_singleton.mp told⟩)

section Told

variable {event : MapEvent}

private theorem isCounted_of_told (moments : ∀ step, (clock step).IsMoment) (few : settings.plan.gates.length < 2 ^ 63)
    (told : event ∈ (run files root id clock settings).events) : event.IsCounted := by
  rcases event_cases told with ⟨_,_,rfl⟩ | ⟨update,step,laid,rfl⟩ | ⟨_,rfl⟩
  · trivial
  · refine ⟨fun place listed => ?_,moments step⟩
    rw [laid.placements] at listed
    obtain ⟨index,gate,isGate,rfl⟩ := mem_places_iff.mp listed
    obtain ⟨less,_⟩ := List.getElem?_eq_some_iff.mp isGate
    constructor <;> dsimp only [IsIndex] <;> omega
  · trivial

private theorem isFinite_iff_of_told (told : event ∈ (run files root id clock settings).events) :
    event.IsFinite ↔ ∀ place ∈ event.placements, place.IsFinite := by
  rcases event_cases told with ⟨natural,pictured,rfl⟩ | ⟨update,step,laid,rfl⟩ | ⟨_,rfl⟩
  · exact iff_of_true pictured.isFinite nofun
  · exact and_iff_right ⟨laid.x.isFinite,laid.y.isFinite⟩
  · exact iff_of_true trivial nofun

private theorem isLaidOut_of_told {map : Uuid} {update : Reposition} {time : Timestamp}
    (told : .repositioned map update time ∈ (run files root id clock settings).events) : IsLaidOut settings update := by
  rcases event_cases told with ⟨_,_,same⟩ | ⟨_,_,laid,same⟩ | ⟨_,same⟩
  · cases same
  · cases same
    exact laid
  · cases same

private theorem isFinite_placements (fit : ∀ gate ∈ settings.plan.gates, gate.FitsIn settings.layout.scaleMode)
    (told : event ∈ (run files root id clock settings).events) : ∀ place ∈ event.placements, place.IsFinite := by
  intro place placed
  cases event with
  | repositioned map update time =>
    have laid := isLaidOut_of_told told
    rw [MapEvent.placements,laid.placements] at placed
    obtain ⟨index,gate,isGate,rfl⟩ := mem_places_iff.mp placed
    exact (fit gate (List.mem_of_getElem? isGate)).isFinite_scaled laid.x laid.y
  | attached | loadFailed | recomputeFailed | disposed => cases placed

private theorem not_isFinite_placements {map : Uuid} {update : Reposition} {time : Timestamp} {gate : Gate}
    (member : gate ∈ settings.plan.gates) (infinite : ¬ (Decimal.IsFinite gate.x ∧ Decimal.IsFinite gate.y))
    (told : .repositioned map update time ∈ (run files root id clock settings).events) :
    ¬ ∀ place ∈ update.placements, place.IsFinite := by
  intro finite
  obtain ⟨index,isGate⟩ := List.mem_iff_getElem?.mp member
  rw [(isLaidOut_of_told told).placements] at finite
  obtain ⟨x,y⟩ := finite _ (mem_places_iff.mpr ⟨index,gate,isGate,rfl⟩)
  exact infinite ⟨by_contra fun other => not_isFinite_mul other _ x,by_contra fun other => not_isFinite_mul other _ y⟩

end Told

/-- Every line of a replay is a JSON text, and an event is read from it if all places in it are finite, and not else.
Sizes and scales always are, so a line is unreadable for its gates alone: one that is not finite itself does so to
every line with places, and where all gates fit in, every line is read. -/
theorem lines_legible (moments : ∀ step, (clock step).IsMoment) (few : settings.plan.gates.length < 2 ^ 63) :
    let report := run files root id clock settings
    (∀ event ∈ report.events, (∃ meaning, Value.ofChars event.line.toList = .ok meaning) ∧
      ((∃ reread, MapEvent.json.ofChars event.line.toList = .ok reread) ↔ ∀ place ∈ event.placements, place.IsFinite) ∧
      ∀ map update time, event = .repositioned map update time → IsLaidOut settings update) ∧
    ((∀ gate ∈ settings.plan.gates, gate.FitsIn settings.layout.scaleMode) →
      ∀ line ∈ report.lines, ∃ reread, MapEvent.json.ofChars line.toList = .ok reread) ∧
    ((∃ gate ∈ settings.plan.gates, ¬ (Decimal.IsFinite gate.x ∧ Decimal.IsFinite gate.y)) →
      ∀ event ∈ report.events, (∃ reread, MapEvent.json.ofChars event.line.toList = .ok reread) ↔
        ∀ map update time, event ≠ .repositioned map update time) := by
  intro report
  have legible {event : MapEvent} (told : event ∈ report.events) :=
    (MapEvent.line_legible (isCounted_of_told moments few told)).imp_right (·.trans (isFinite_iff_of_told told))
  refine ⟨fun event told => ?_,fun fit line listed => ?_,?_⟩
  · obtain ⟨means,read⟩ := legible told
    refine ⟨means,read,?_⟩
    rintro map update time rfl
    exact isLaidOut_of_told told
  · obtain ⟨event,told,rfl⟩ := List.mem_map.mp listed
    exact (legible told).2.mpr (isFinite_placements fit told)
  · rintro ⟨gate,member,infinite⟩ event told
    rw [(legible told).2]
    constructor
    · rintro finite map update time rfl
      exact not_isFinite_placements member infinite told finite
    · intro other
      cases event with
      | repositioned map update time => exact absurd rfl (other map update time)
      | attached | loadFailed | recomputeFailed | disposed => exact nofun

/-- The cap and the first width are no numbers, the next width is infinite, and all lines are read. -/
theorem lines_legible_odd_sizes :
    let clock : Nat → Timestamp := fun _ => ⟨⟨2024,1,2⟩,3,4,5,6⟩
    let plan : MapPlan := ⟨"data:image/png;base64,ZmFyYmZlbGQAAAAMAAAABwAAAAAAAAAAAAAAAAAAAAA=",[⟨3,0,.none⟩]⟩
    let settings : Settings := ⟨plan,⟨0 / 0,"",.perAxis⟩,⟨0 / 0,1,[⟨infinity,-1⟩]⟩⟩
    let report := run (fun _ => none) "/maps" ⟨7⟩ clock settings
    (∀ step, (clock step).IsMoment) ∧ settings.plan.gates.length < 2 ^ 63 ∧
      (∀ gate ∈ settings.plan.gates, gate.FitsIn settings.layout.scaleMode) ∧ report.lines.length = 3 ∧
      ∀ line ∈ report.lines, ∃ reread, MapEvent.json.ofChars line.toList = .ok reread := by
  intro clock plan settings report
  have moments (step : Nat) : (clock step).IsMoment := by constructor <;> decide
  have few : settings.plan.gates.length < 2 ^ 63 := by decide
  have fit : ∀ gate ∈ settings.plan.gates, gate.FitsIn settings.layout.scaleMode := by
    intro gate member
    obtain rfl := List.mem_singleton.mp member
    refine ⟨by decide +kernel,none,by decide +kernel,fun _ => ?_⟩
    rw [number_none,mul_zero]
    exact largest.number_nonneg
  exact ⟨moments,few,fit,by decide +kernel,(lines_legible moments few).2.1 fit⟩

/-- Settings that load, with an image that loads, and a line that is not read. The first have an infinite gate. In the
second all numbers are finite, but an image of this shape is shown a little higher than it is. -/
theorem exists_illegible_line :
    let infinite := "[map]\nmap_image = \"data:;base64,ZmFyYmZlbGQAAAAMAAAABw==\"\n[[map.gates]]\nx = inf\ny = 1.0\n"
    let farOut := "[map]\nmap_image = \"data:;base64,ZmFyYmZlbGQFgFl2aorEuw==\"\n" ++
      "[[map.gates]]\nx = 0.0\ny = 1.7976931348623157e308\n" ++
      "[layout]\nmax_width = 1e9\nscale_mode = \"per_axis\"\n[viewport]\nwidth = 1e9\n"
    let clock : Nat → Timestamp := fun _ => ⟨⟨2024,1,2⟩,3,4,5,6⟩
    let files : String → Files := fun text path => if path = "/maps/gatemap.toml" then some (.ofText text) else .none
    (∀ step, (clock step).IsMoment) ∧ ∀ text ∈ [infinite,farOut], ∃ settings natural,
      Settings.load (files text) "/maps/gatemap.toml" = .ok settings ∧
      ImageSource.load (files text) "/maps" settings.plan.image = .ok natural ∧
      ∃ line ∈ (run (files text) "/maps" ⟨7⟩ clock settings).lines, ∀ reread,
        MapEvent.json.ofChars line.toList ≠ .ok reread := by
  intro infinite farOut clock files
  have moments (step : Nat) : (clock step).IsMoment := by constructor <;> decide
  have unread {ratio : Ratio} {place : Placement} (counted : place.IsCounted) (infinite : ¬ place.IsFinite)
      (reread : MapEvent) :
      MapEvent.json.ofChars (MapEvent.repositioned ⟨7⟩ ⟨ratio,[place]⟩ (clock 1)).line.toList ≠ .ok reread := by
    intro read
    have isCounted : (MapEvent.repositioned ⟨7⟩ ⟨ratio,[place]⟩ (clock 1)).IsCounted :=
      ⟨by simpa using counted,moments 1⟩
    obtain ⟨_,finite⟩ := (MapEvent.line_legible isCounted).2.mp ⟨reread,read⟩
    exact infinite (finite place (List.mem_singleton_self place))
  refine ⟨moments,List.forall_mem_cons.mpr ⟨?_,List.forall_mem_singleton.mpr ?_⟩⟩
  · let settings : Settings := ⟨⟨"data:;base64,ZmFyYmZlbGQAAAAMAAAABw==",[⟨infinity,1,.none⟩]⟩,{},{}⟩
    have told : .repositioned ⟨7⟩ ⟨⟨1,1⟩,[⟨0,⟨2⟩,infinity,1⟩]⟩ (clock 1) ∈
        (run (files infinite) "/maps" ⟨7⟩ clock settings).events := by decide +kernel
    refine ⟨settings,⟨12,7⟩,by decide +kernel,by decide +kernel,_,List.mem_map_of_mem told,unread ?_ ?_⟩
    · exact ⟨by decide,by decide⟩
    · exact fun finite => absurd finite.1 (by decide +kernel)
  · let plan : MapPlan := ⟨"data:;base64,ZmFyYmZlbGQFgFl2aorEuw==",[⟨0,1.7976931348623157e308,.none⟩]⟩
    let settings : Settings := ⟨plan,⟨1e9,"image-map",.perAxis⟩,⟨1e9,800,[]⟩⟩
    have told : .repositioned ⟨7⟩ ⟨⟨1,1.0000000000000002⟩,[⟨0,⟨2⟩,0,infinity⟩]⟩ (clock 1) ∈
        (run (files farOut) "/maps" ⟨7⟩ clock settings).events := by decide +kernel
    refine ⟨settings,⟨92297590,1787479227⟩,by decide +kernel,by decide +kernel,_,List.mem_map_of_mem told,unread ?_ ?_⟩
    · exact ⟨by decide,by decide⟩
    · exact fun finite => absurd finite.2 (by decide +kernel)

end Replay
end PinnedMap
