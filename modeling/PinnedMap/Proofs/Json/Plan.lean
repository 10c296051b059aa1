import PinnedMap.Proofs.Json.Accuracy
import PinnedMap.Proofs.Json.Forms

/-! A plan through JSON: the image, the labels and the order of the gates come back as they are, and the coordinates
as exactly as the reader of numbers has it. -/
namespace PinnedMap

open Json Json.Codec

def Gate.IsFinite (gate : Gate) : Prop :=
  (∃ magnitude, Decimal.kind gate.x = .finite magnitude) ∧ ∃ magnitude, Decimal.kind gate.y = .finite magnitude

structure Gate.ComesBack (gate reread : Gate) : Prop where
  x : ∃ magnitude, Decimal.kind gate.x = .finite magnitude ∧ Number.ComesBack magnitude gate.x reread.x
  y : ∃ magnitude, Decimal.kind gate.y = .finite magnitude ∧ Number.ComesBack magnitude gate.y reread.y
  label : reread.label = gate.label

theorem Gate.exists_restores {gate : Gate} (finite : gate.IsFinite) :
    ∃ reread, Gate.json.Restores 1 gate reread ∧ gate.ComesBack reread := by
  obtain ⟨⟨magnitude,isX⟩,other,isY⟩ := finite
  obtain ⟨x,rereads,back⟩ := exists_rereads isX
  obtain ⟨y,rereads',back'⟩ := exists_rereads isY
  exact ⟨⟨x,y,gate.label⟩,Gate.restores_json rereads rereads',⟨magnitude,isX,back⟩,⟨other,isY,back'⟩,rfl⟩

private theorem exists_restores_gates {gates : List Gate} (finite : ∀ gate ∈ gates, gate.IsFinite) : ∃ rereads,
    List.Forall₂ (Gate.json.Restores 1) gates rereads ∧ List.Forall₂ Gate.ComesBack gates rereads := by
  induction gates with
  | nil => exact ⟨[],.nil,.nil⟩
  | cons gate gates ih =>
    obtain ⟨reread,restores,back⟩ := Gate.exists_restores (finite gate (by simp))
    obtain ⟨rereads,all,each⟩ := ih fun other listed => finite other (by simp [listed])
    exact ⟨reread :: rereads,.cons restores all,.cons back each⟩

theorem Json.Value.ofChars_eq_ok_iff {text : List Char} {meaning : Value} : Value.ofChars text = .ok meaning ↔
    Value.ofNode depthLimit (Document.ofChars text).root = some meaning ∧ (Document.ofChars text).ends = true := by
  unfold Value.ofChars
  dsimp only
  cases Value.ofNode depthLimit (Document.ofChars text).root with
  | none => exact iff_of_false nofun nofun
  | some value => cases (Document.ofChars text).ends <;> simp

theorem Json.Value.ofChars_of_reads {text : List Char} {node : Node} {meaning : Value} (reads : Reads text node)
    (means : Value.ofNode depthLimit node = some meaning) : Value.ofChars text = .ok meaning := by
  rw [Value.ofChars_eq_ok_iff,reads.document]
  exact ⟨means,rfl⟩

private theorem exists_array {α : Type} {codec : Codec α} {origin : Origin} {meaning : Value} {values : List α}
    (read : codec.list.read origin meaning.toNode = .ok values) : ∃ items, meaning = .array items := by
  cases meaning with
  | array items => exact ⟨items,rfl⟩
  | _ => cases read

namespace MapPlan

private theorem write_eq (plan : MapPlan) : MapPlan.json.write plan =
    brace [member "mapImage" (quote plan.image),member "gates" plan.gatesText.toList] := by
  have gates : plan.gatesText.toList = Gate.json.list.write plan.gates := String.toList_ofList
  rw [gates]
  rfl

private theorem ofJson_of_reads {plan : MapPlan} {rereads : List Gate}
    (restores : List.Forall₂ (Gate.json.Restores 1) plan.gates rereads) :
    MapPlan.ofJson (String.ofList (MapPlan.json.write plan)) = .ok ⟨plan.image,rereads⟩ := by
  obtain ⟨node,meaning,reads,holds⟩ := Restores.list restores
  obtain ⟨items,rfl⟩ := exists_array (holds.meant .value)
  have written : List.Forall₂ IsMember [member "mapImage" (quote plan.image),member "gates" plan.gatesText.toList]
      (named [("mapImage",.text (Literal.ofString plan.image)),("gates",node)]) := by
    have gates : plan.gatesText.toList = Gate.json.list.write plan.gates := String.toList_ofList
    rw [gates]
    exact .cons ⟨"mapImage",_,rfl,rfl,reads_quote plan.image⟩ (.cons ⟨"gates",_,rfl,rfl,reads⟩ .nil)
  have means : List.Forall₂ (Value.Means 2) [("mapImage",.text (Literal.ofString plan.image)),("gates",node)]
      [("mapImage",.text plan.image),("gates",.array items)] :=
    .cons ⟨rfl,fun _ _ => congrArg (some ∘ Value.text) (string_ofString plan.image)⟩ (.cons ⟨rfl,holds.means⟩ .nil)
  have root : Value.ofChars (String.ofList (MapPlan.json.write plan)).toList =
      .ok (.object [("gates",.array items),("mapImage",.text plan.image)]) := by
    rw [String.toList_ofList,write_eq]
    refine Value.ofChars_of_reads (reads_brace written) ?_
    rw [Value.ofNode,Value.ofMembers_named (by decide : 2 ≤ depthLimit - 1) means []]
    rfl
  have each : Gate.json.list.read .value (Value.array items).toNode = .ok rereads := holds.meant .value
  unfold MapPlan.ofJson
  rw [root]
  change ((Gate.json.list.read .value (Value.array items).toNode).mapError Fault.json >>= fun gates =>
    Except.ok (⟨plan.image,gates⟩ : MapPlan)) = _
  rw [each]
  rfl

/-- A plan with finite coordinates is read from its own JSON: with its image, its gates in their order and with their
labels, and every coordinate as it comes back. -/
theorem ofJson_write (plan : MapPlan) (finite : ∀ gate ∈ plan.gates, gate.IsFinite) : ∃ gates,
    MapPlan.ofJson (String.ofList (MapPlan.json.write plan)) = .ok ⟨plan.image,gates⟩ ∧
      List.Forall₂ Gate.ComesBack plan.gates gates ∧ MapPlan.json.write plan =
        brace [member "mapImage" (quote plan.image),member "gates" plan.gatesText.toList] := by
  obtain ⟨gates,restores,back⟩ := exists_restores_gates finite
  exact ⟨gates,ofJson_of_reads restores,back,write_eq plan⟩

/-- With the least double, a negative zero and a number of seventeen digits. -/
theorem ofJson_write_two_gates :
    let plan : MapPlan := ⟨"\"a\\.png",[⟨5e-324,-0.0,none⟩,⟨-12345678901234567e-20,1e21,some "\u00e9\n"⟩]⟩
    (∀ gate ∈ plan.gates, gate.IsFinite) ∧ ∃ gates,
      MapPlan.ofJson (String.ofList (MapPlan.json.write plan)) = .ok ⟨plan.image,gates⟩ ∧
      List.Forall₂ Gate.ComesBack plan.gates gates ∧ MapPlan.json.write plan =
        brace [member "mapImage" (quote plan.image),member "gates" plan.gatesText.toList] := by
  intro plan
  have finite : ∀ gate ∈ plan.gates, gate.IsFinite := List.forall_mem_cons.mpr
    ⟨⟨⟨⟨1,-1074,false⟩,by decide +kernel⟩,⟨0,-1074,false⟩,by decide +kernel⟩,List.forall_mem_singleton.mpr
      ⟨⟨⟨4554751582145396,-65,false⟩,by decide +kernel⟩,⟨7629394531250000,17,false⟩,by decide +kernel⟩⟩
  exact ⟨finite,ofJson_write plan finite⟩

/-- A coordinate whose digits, with the zero after the point, are too many for a double can come back as its
neighbour. -/
theorem ofJson_write_ne :
    let plan : MapPlan := ⟨"a.png",[⟨9007199254740991,0,none⟩]⟩
    (∀ gate ∈ plan.gates, gate.IsFinite) ∧
      MapPlan.ofJson (String.ofList (MapPlan.json.write plan)) = .ok ⟨"a.png",[⟨9007199254740990,0,none⟩]⟩ ∧
      MapPlan.ofJson (String.ofList (MapPlan.json.write plan)) ≠ .ok plan := by
  intro plan
  have finite : ∀ gate ∈ plan.gates, gate.IsFinite := List.forall_mem_singleton.mpr
    ⟨⟨⟨2 ^ 53 - 1,0,false⟩,by decide +kernel⟩,⟨0,-1074,false⟩,by decide +kernel⟩
  have read : MapPlan.ofJson (String.ofList (MapPlan.json.write plan)) = .ok ⟨"a.png",[⟨9007199254740990,0,none⟩]⟩ := by
    decide +kernel
  refine ⟨finite,read,?_⟩
  rw [read]
  decide +kernel

end MapPlan
end PinnedMap
