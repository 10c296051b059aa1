import PinnedMap.Json.Forms
import PinnedMap.Proofs.Json.Tagged
import PinnedMap.Proofs.Timestamp
import PinnedMap.Proofs.Uuid

/-! What is written for a type with a JSON form is read as the value that was written, provided that its numbers are
read as they were; for the sums also where their members have been put in another order. -/
namespace PinnedMap

open Json Json.Codec

/-- A double that JSON gives back. Every such double is finite. -/
def Json.IsExact (value : Float) : Prop := Rereads value value

instance (value : Float) : Decidable (Json.IsExact value) :=
  inferInstanceAs (Decidable (Codec.number.ofChars (Codec.number.write value) = .ok value))

abbrev Json.IsIndex (n : Nat) : Prop := n < 2 ^ 64

theorem Json.Codec.Restores.list_self {α : Type} {codec : Codec α} {depth : Nat} {values : List α}
    (each : ∀ value ∈ values, codec.Restores depth value value) : codec.list.Restores (depth + 1) values values :=
  Restores.list (List.forall₂_same.mpr each)

def Size.IsExact (size : Size) : Prop := Json.IsExact size.width ∧ Json.IsExact size.height

theorem Size.restores_json {size : Size} (exact : size.IsExact) : Size.json.Restores 1 size size := by
  refine Restores.imap (Fields.Restores.codec rfl ?_ _) fun _ => rfl
  exact Fields.restores_given rfl (restores_number exact.1) (Fields.restores_given rfl (restores_number exact.2) trivial)

theorem Gate.restores_json {gate : Gate} {x y : Float} (rereads : Rereads gate.x x) (rereads' : Rereads gate.y y) :
    Gate.json.Restores 1 gate ⟨x,y,gate.label⟩ := by
  refine Restores.imap (Fields.Restores.codec rfl ?_ _) fun _ => rfl
  refine Fields.restores_given rfl (restores_number rereads) (Fields.restores_given rfl (restores_number rereads') ?_)
  cases gate.label with
  | none => exact Fields.restores_omitted rfl rfl trivial
  | some label =>
    have refuses : ∀ origin text, Codec.string.read origin .null ≠ .ok text := fun _ _ read => by cases read
    exact Fields.restores_given rfl (Restores.some refuses (restores_string label)) trivial

def Gate.IsExact (gate : Gate) : Prop := Json.IsExact gate.x ∧ Json.IsExact gate.y

def MapPlan.IsExact (plan : MapPlan) : Prop := ∀ gate ∈ plan.gates, gate.IsExact

theorem MapPlan.restores_json {plan : MapPlan} (exact : plan.IsExact) : MapPlan.json.Restores 3 plan plan := by
  have gates := Restores.list_self fun gate listed => Gate.restores_json (exact gate listed).1 (exact gate listed).2
  refine Restores.imap (Fields.Restores.codec rfl ?_ _) fun _ => rfl
  exact Fields.restores_given rfl ((restores_string plan.image).mono (by simp))
    (Fields.restores_given rfl gates trivial)

theorem ScaleMode.restores_json (mode : ScaleMode) : ScaleMode.json.Restores 0 mode mode :=
  restores_choice (by cases mode <;> rfl)

theorem MapPhase.restores_json (phase : MapPhase) : MapPhase.json.Restores 0 phase phase :=
  restores_choice (by cases phase <;> rfl)

def LayoutOptions.IsExact (options : LayoutOptions) : Prop := Json.IsExact options.maxWidth

theorem LayoutOptions.restores_json {options : LayoutOptions} (exact : options.IsExact) :
    LayoutOptions.json.Restores 1 options options := by
  refine Restores.imap (Fields.Restores.codec rfl ?_ _) fun _ => rfl
  exact Fields.restores_given rfl (restores_number exact) (Fields.restores_given rfl (restores_string options.className)
    (Fields.restores_given rfl (ScaleMode.restores_json options.scaleMode) trivial))

def ViewportPlan.IsExact (plan : ViewportPlan) : Prop :=
  Json.IsExact plan.width ∧ Json.IsExact plan.height ∧
    ∀ step ∈ plan.resizeSteps, Json.IsExact step.1 ∧ Json.IsExact step.2

theorem ViewportPlan.restores_json {plan : ViewportPlan} (exact : plan.IsExact) :
    ViewportPlan.json.Restores 3 plan plan := by
  obtain ⟨width,height,each⟩ := exact
  have steps := Restores.list_self fun step listed =>
    Restores.pair (restores_number (each step listed).1) (restores_number (each step listed).2)
  refine Restores.imap (Fields.Restores.codec rfl ?_ _) fun _ => rfl
  exact Fields.restores_given rfl ((restores_number width).mono (by simp))
    (Fields.restores_given rfl ((restores_number height).mono (by simp)) (Fields.restores_given rfl steps trivial))

structure Settings.IsExact (settings : Settings) : Prop where
  plan : settings.plan.IsExact
  layout : settings.layout.IsExact
  viewport : settings.viewport.IsExact

theorem Settings.restores_json {settings : Settings} (exact : settings.IsExact) :
    Settings.json.Restores 4 settings settings := by
  refine Restores.imap (Fields.Restores.codec rfl ?_ _) fun _ => rfl
  exact Fields.restores_given rfl (MapPlan.restores_json exact.plan)
    (Fields.restores_given rfl ((LayoutOptions.restores_json exact.layout).mono (by simp))
      (Fields.restores_given rfl (ViewportPlan.restores_json exact.viewport) trivial))

def Ratio.IsExact (ratio : Ratio) : Prop := Json.IsExact ratio.x ∧ Json.IsExact ratio.y

theorem Ratio.restores_json {ratio : Ratio} (exact : ratio.IsExact) : Ratio.json.Restores 1 ratio ratio := by
  refine Restores.imap (Fields.Restores.codec rfl ?_ _) fun _ => rfl
  exact Fields.restores_given rfl (restores_number exact.1) (Fields.restores_given rfl (restores_number exact.2) trivial)

structure Placement.IsExact (place : Placement) : Prop where
  index : IsIndex place.index
  element : IsIndex place.element.index
  left : Json.IsExact place.left
  top : Json.IsExact place.top

theorem Placement.restores_json {place : Placement} (exact : place.IsExact) :
    Placement.json.Restores 1 place place := by
  have element : ElementId.json.Restores 0 place.element place.element :=
    (restores_count exact.element).imap fun _ => rfl
  refine Restores.imap (Fields.Restores.codec rfl ?_ _) fun _ => rfl
  exact Fields.restores_given rfl (restores_count exact.index) (Fields.restores_given rfl element
    (Fields.restores_given rfl (restores_number exact.left)
      (Fields.restores_given rfl (restores_number exact.top) trivial)))

structure Reposition.IsExact (update : Reposition) : Prop where
  ratio : update.ratio.IsExact
  placements : ∀ place ∈ update.placements, place.IsExact

theorem Reposition.restores_placements {update : Reposition} (exact : update.IsExact) :
    Placement.json.list.Restores 2 update.placements update.placements :=
  Restores.list_self fun place listed => Placement.restores_json (exact.placements place listed)

theorem Reposition.restores_json {update : Reposition} (exact : update.IsExact) :
    Reposition.json.Restores 3 update update := by
  refine Restores.imap (Fields.Restores.codec rfl ?_ _) fun _ => rfl
  exact Fields.restores_given rfl ((Ratio.restores_json exact.ratio).mono (by simp))
    (Fields.restores_given rfl (restores_placements exact) trivial)

theorem Uuid.restores_json (id : Uuid) : Uuid.json.Restores 0 id id := by
  apply restores_written
  rw [Uuid.text,String.toList_ofList,Uuid.ofChars_chars]
  rfl

theorem Timestamp.restores_json {time : Timestamp} (isMoment : time.IsMoment) :
    Timestamp.json.Restores 0 time time := by
  apply restores_written
  rw [Timestamp.text,String.toList_ofList,Timestamp.ofChars_chars isMoment]
  rfl

structure Resize.IsExact (resize : Resize) : Prop where
  size : resize.size.IsExact
  time : resize.time.IsMoment

def Resize.variant : Variant Resize :=
  (Fields.cons { name := "width", codec := Codec.number } <|
    .cons { name := "height", codec := Codec.number } <|
    .cons { name := "timestamp", codec := Timestamp.json } .nil).variant "resized" "ViewportEvent::Resized"
    (fun (width,height,time,()) => ⟨⟨width,height⟩,time⟩)
    fun resize => some (resize.size.width,resize.size.height,resize.time,())

def Resize.sum : Tagged Resize := ⟨"ViewportEvent","type",[variant]⟩

theorem Resize.ofChars_brace {resize : Resize} (exact : resize.IsExact) {texts : List (List Char)}
    (perm : texts.Perm (Resize.sum.parts resize)) : Resize.json.ofChars (brace texts) = .ok resize := by
  have restores : Resize.variant.Restores 0 "type" resize := by
    refine Fields.Restores.variant rfl (by decide) rfl rfl ?_
    exact Fields.restores_given rfl (restores_number exact.size.1) (Fields.restores_given rfl
      (restores_number exact.size.2) (Fields.restores_given rfl (Timestamp.restores_json exact.time) trivial))
  exact Tagged.ofChars_brace rfl (by decide) restores rfl perm

def MapEvent.sum : Tagged MapEvent :=
  ⟨"MapEvent","event",[attachedVariant,repositionedVariant,loadFailedVariant,recomputeFailedVariant,disposedVariant]⟩

def MapEvent.IsExact : MapEvent → Prop
  | .attached _ natural => natural.IsExact
  | .repositioned _ update time => update.IsExact ∧ time.IsMoment
  | .loadFailed .. | .recomputeFailed .. | .disposed _ => True

theorem MapEvent.restores_variant {event : MapEvent} (exact : event.IsExact) :
    ∃ variant, MapEvent.sum.variants.find? (·.name == variant.name) = some variant ∧
      variant.Restores 2 "event" event ∧
      MapEvent.sum.parts event = member "event" (quote variant.name) :: (variant.members? event).getD [] := by
  cases event with
  | attached map natural =>
    refine ⟨attachedVariant,rfl,Fields.Restores.variant rfl (by decide) rfl rfl ?_,rfl⟩
    exact Fields.restores_given rfl ((Uuid.restores_json map).mono (by simp))
      (Fields.restores_given rfl ((Size.restores_json exact).mono (by simp)) trivial)
  | repositioned map update time =>
    refine ⟨repositionedVariant,rfl,Fields.Restores.variant rfl (by decide) rfl rfl ?_,rfl⟩
    exact Fields.restores_given rfl ((Uuid.restores_json map).mono (by simp))
      (Fields.restores_given rfl ((Ratio.restores_json exact.1.ratio).mono (by simp))
        (Fields.restores_given rfl (Reposition.restores_placements exact.1)
          (Fields.restores_given rfl ((Timestamp.restores_json exact.2).mono (by simp)) trivial)))
  | loadFailed map url reason =>
    refine ⟨loadFailedVariant,rfl,Fields.Restores.variant rfl (by decide) rfl rfl ?_,rfl⟩
    exact Fields.restores_given rfl ((Uuid.restores_json map).mono (by simp))
      (Fields.restores_given rfl ((restores_string url).mono (by simp))
        (Fields.restores_given rfl ((restores_string reason).mono (by simp)) trivial))
  | recomputeFailed map reason =>
    refine ⟨recomputeFailedVariant,rfl,Fields.Restores.variant rfl (by decide) rfl rfl ?_,rfl⟩
    exact Fields.restores_given rfl ((Uuid.restores_json map).mono (by simp))
      (Fields.restores_given rfl ((restores_string reason).mono (by simp)) trivial)
  | disposed map =>
    refine ⟨disposedVariant,rfl,Fields.Restores.variant rfl (by decide) rfl rfl ?_,rfl⟩
    exact Fields.restores_given rfl ((Uuid.restores_json map).mono (by simp)) trivial

theorem MapEvent.ofChars_brace {event : MapEvent} (exact : event.IsExact) {texts : List (List Char)}
    (perm : texts.Perm (MapEvent.sum.parts event)) : MapEvent.json.ofChars (brace texts) = .ok event := by
  obtain ⟨variant,listed,restores,chosen⟩ := restores_variant exact
  exact Tagged.ofChars_brace listed (by decide) restores chosen perm

theorem MapEvent.write_eq (event : MapEvent) : MapEvent.json.write event = brace (MapEvent.sum.parts event) := by
  cases event <;> rfl

theorem Resize.write_eq (resize : Resize) : Resize.json.write resize = brace (Resize.sum.parts resize) := rfl

/-- Reading undoes writing. A sum is read from its members in any order. -/
theorem ofChars_write :
    (∀ event : MapEvent, event.IsExact → MapEvent.json.ofChars (MapEvent.json.write event) = .ok event ∧
      MapEvent.json.write event = brace (MapEvent.sum.parts event) ∧
      ∀ texts, texts.Perm (MapEvent.sum.parts event) → MapEvent.json.ofChars (brace texts) = .ok event) ∧
    (∀ resize : Resize, resize.IsExact → Resize.json.ofChars (Resize.json.write resize) = .ok resize ∧
      Resize.json.write resize = brace (Resize.sum.parts resize) ∧
      ∀ texts, texts.Perm (Resize.sum.parts resize) → Resize.json.ofChars (brace texts) = .ok resize) ∧
    (∀ update : Reposition, update.IsExact → Reposition.json.ofChars (Reposition.json.write update) = .ok update) ∧
    (∀ place : Placement, place.IsExact → Placement.json.ofChars (Placement.json.write place) = .ok place) ∧
    (∀ ratio : Ratio, ratio.IsExact → Ratio.json.ofChars (Ratio.json.write ratio) = .ok ratio) ∧
    (∀ size : Size, size.IsExact → Size.json.ofChars (Size.json.write size) = .ok size) ∧
    (∀ options : LayoutOptions, options.IsExact →
      LayoutOptions.json.ofChars (LayoutOptions.json.write options) = .ok options) ∧
    (∀ mode, ScaleMode.json.ofChars (ScaleMode.json.write mode) = .ok mode) ∧
    (∀ phase, MapPhase.json.ofChars (MapPhase.json.write phase) = .ok phase) ∧
    (∀ plan : ViewportPlan, plan.IsExact → ViewportPlan.json.ofChars (ViewportPlan.json.write plan) = .ok plan) ∧
    ∀ settings : Settings, settings.IsExact → Settings.json.ofChars (Settings.json.write settings) = .ok settings := by
  refine ⟨fun event exact => ?_,fun resize exact => ?_,fun update exact => (Reposition.restores_json exact).ofChars,
    fun place exact => (Placement.restores_json exact).ofChars,fun ratio exact => (Ratio.restores_json exact).ofChars,
    fun size exact => (Size.restores_json exact).ofChars,fun options exact => (LayoutOptions.restores_json exact).ofChars,
    fun mode => (ScaleMode.restores_json mode).ofChars,fun phase => (MapPhase.restores_json phase).ofChars,
    fun plan exact => (ViewportPlan.restores_json exact).ofChars,
    fun settings exact => (Settings.restores_json exact).ofChars⟩
  · refine ⟨?_,MapEvent.write_eq event,fun _ perm => MapEvent.ofChars_brace exact perm⟩
    rw [MapEvent.write_eq]
    exact MapEvent.ofChars_brace exact (.refl _)
  · refine ⟨?_,Resize.write_eq resize,fun _ perm => Resize.ofChars_brace exact perm⟩
    rw [Resize.write_eq]
    exact Resize.ofChars_brace exact (.refl _)

/-- With a leap second in the message, its members from the last to the first, and settings with every kind of text. -/
theorem ofChars_write_reversed :
    (let size : Size := ⟨0.5,1e21⟩
    let time : Timestamp := ⟨⟨2016,12,31⟩,23,59,60,5⟩
    let update : Reposition := ⟨⟨0.25,-0.0⟩,[⟨3,⟨7⟩,-1.5,5e-7⟩]⟩
    let event : MapEvent := .repositioned ⟨11⟩ update time
    let options : LayoutOptions := ⟨640.5,"a b",.perAxis⟩
    let viewport : ViewportPlan := ⟨1280,800,[(320,0.5)]⟩
    let settings : Settings := ⟨⟨"\"\n",[⟨1,2,none⟩,⟨3,4.5,some "\u00e9"⟩]⟩,options,viewport⟩
    MapEvent.json.ofChars (brace (MapEvent.sum.parts event).reverse) = .ok event ∧
    Resize.json.ofChars (brace (Resize.sum.parts ⟨size,time⟩).reverse) = .ok ⟨size,time⟩ ∧
    Reposition.json.ofChars (Reposition.json.write update) = .ok update ∧
    Placement.json.ofChars (Placement.json.write ⟨3,⟨7⟩,-1.5,5e-7⟩) = .ok ⟨3,⟨7⟩,-1.5,5e-7⟩ ∧
    Ratio.json.ofChars (Ratio.json.write ⟨0.25,-0.0⟩) = .ok ⟨0.25,-0.0⟩ ∧
    Size.json.ofChars (Size.json.write size) = .ok size ∧
    LayoutOptions.json.ofChars (LayoutOptions.json.write options) = .ok options ∧
    ViewportPlan.json.ofChars (ViewportPlan.json.write viewport) = .ok viewport ∧
    Settings.json.ofChars (Settings.json.write settings) = .ok settings) := by
  intro size time update event options viewport settings
  have sizeExact : size.IsExact := ⟨by decide +kernel,by decide +kernel⟩
  have isMoment : time.IsMoment := by constructor <;> decide
  have ratioExact : Ratio.IsExact ⟨0.25,-0.0⟩ := ⟨by decide +kernel,by decide +kernel⟩
  have placeExact : Placement.IsExact ⟨3,⟨7⟩,-1.5,5e-7⟩ := ⟨by decide,by decide,by decide +kernel,by decide +kernel⟩
  have updateExact : update.IsExact := ⟨ratioExact,List.forall_mem_singleton.mpr placeExact⟩
  have optionsExact : options.IsExact := show Json.IsExact 640.5 by decide +kernel
  have viewportExact : viewport.IsExact := ⟨by decide +kernel,by decide +kernel,
    List.forall_mem_singleton.mpr ⟨by decide +kernel,by decide +kernel⟩⟩
  have gatesExact : settings.plan.IsExact := List.forall_mem_cons.mpr ⟨⟨by decide +kernel,by decide +kernel⟩,
    List.forall_mem_singleton.mpr ⟨by decide +kernel,by decide +kernel⟩⟩
  obtain ⟨events,resizes,updates,places,ratios,sizes,layouts,_,_,viewports,all⟩ := ofChars_write
  exact ⟨(events event ⟨updateExact,isMoment⟩).2.2 _ (List.reverse_perm _),
    (resizes ⟨size,time⟩ ⟨sizeExact,isMoment⟩).2.2 _ (List.reverse_perm _),updates update updateExact,
    places _ placeExact,ratios _ ratioExact,sizes size sizeExact,layouts options optionsExact,
    viewports viewport viewportExact,all settings ⟨gatesExact,optionsExact,viewportExact⟩⟩

end PinnedMap
