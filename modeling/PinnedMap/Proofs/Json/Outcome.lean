import PinnedMap.Proofs.Json.Gate
import PinnedMap.Proofs.Json.Grammar
import PinnedMap.Proofs.Json.Plan

/-! What a JSON text says about a plan. It depends on what the text means: not on blanks, not on the order of members,
not on members that later ones replace, and not on those that neither a plan nor a gate has. -/
namespace PinnedMap.MapPlan

open Attempt Json Json.Codec

def withGates (image : String) : Option Node → Except Fault MapPlan
  | some (.array gates _) => do
    let gates ← (gates.mapM Gate.ofTree).mapError .json
    return ⟨image,gates⟩
  | _ => throw (.plan .gates)

def ofTree : Node → Except Fault MapPlan
  | .object members _ =>
    match lastOf "mapImage" members with
    | some (.text image) => withGates image.string (lastOf "gates" members)
    | _ => throw (.plan .image)
  | _ => throw (.plan .root)

def withGateValues (image : String) : Option Value → Except Fault MapPlan
  | some (.array gates) => do
    let gates ← (Gate.json.list.read .value (Value.array gates).toNode).mapError .json
    return ⟨image,gates⟩
  | _ => throw (.plan .gates)

def ofValue : Value → Except Fault MapPlan
  | .object members =>
    match members.lookup "mapImage" with
    | some (.text image) => withGateValues image (members.lookup "gates")
    | _ => throw (.plan .image)
  | _ => throw (.plan .root)

private theorem fits_iff {depth : Nat} {items : List Node} (each : ∀ item ∈ items, item.IsWellFormed depth)
    {gates : List Gate} :
    List.Forall₂ (fun item gate => Gate.ofTree item = .ok gate) items gates ↔ List.Forall₂ Gate.Fits items gates := by
  constructor
  · intro reads
    have listed := (List.forall₂_and_left items gates).mpr ⟨each,reads⟩
    exact listed.imp fun item gate both => (Gate.ofTree_eq_ok_iff both.1).mp both.2
  · intro fit
    have listed := (List.forall₂_and_left items gates).mpr ⟨each,fit⟩
    exact listed.imp fun item gate both => (Gate.ofTree_eq_ok_iff both.1).mpr both.2

end PinnedMap.MapPlan
