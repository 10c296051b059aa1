import PinnedMap.Json.Forms
import PinnedMap.Proofs.Text.Digits
import PinnedMap.Proofs.Text.Parts

/-! What is written as JSON stands on one line: texts are escaped, and nothing else can hold a control
character. -/
namespace PinnedMap

/-- No control character, and so no line break, is in the text. -/
def Text.IsOneLine (text : List Char) : Prop := ∀ c ∈ text, 0x20 ≤ c.toNat

open Text

namespace Text

-- Not by the finitely many characters that there are, but by those of the text.
instance (text : List Char) : Decidable (IsOneLine text) := List.decidableBAll _ text

private theorem isOneLine_append {front back : List Char} (first : IsOneLine front) (second : IsOneLine back) :
    IsOneLine (front ++ back) := by
  intro c member
  exact (List.mem_append.mp member).elim (first c) (second c)

private theorem isOneLine_cons {c : Char} {text : List Char} (visible : 0x20 ≤ c.toNat) (rest : IsOneLine text) :
    IsOneLine (c :: text) := by
  intro d member
  rcases List.mem_cons.mp member with rfl | later
  · exact visible
  · exact rest d later

private theorem isOneLine_join {separator : List Char} {parts : List (List Char)} (between : IsOneLine separator)
    (each : ∀ part ∈ parts, IsOneLine part) : IsOneLine (join separator parts) := by
  intro c member
  rcases mem_join member with separates | ⟨part,listed,inside⟩
  · exact between c separates
  · exact each part listed c inside

private theorem isOneLine_hex (width n : Nat) : IsOneLine (hex width n) := by
  have all : ∀ digit < 16, 0x20 ≤ (Nat.digitChar digit).toNat := by decide
  exact forall_mem_hex all width n

end Text

namespace Decimal

end Decimal

namespace Json

private theorem isOneLine_escape (c : Char) : IsOneLine (escape c) := by
  unfold escape
  split
  iterate 7 decide
  split_ifs with control
  · exact isOneLine_cons (by simp) (isOneLine_cons (by simp) (isOneLine_hex 4 c.toNat))
  · intro d member
    rw [List.mem_singleton.mp member]
    omega

private theorem isOneLine_quote (text : String) : IsOneLine (quote text) := by
  have inside : IsOneLine (text.toList.flatMap escape) := by
    intro c member
    obtain ⟨d,_,escaped⟩ := List.mem_flatMap.mp member
    exact isOneLine_escape d c escaped
  exact isOneLine_cons (by decide) (isOneLine_append inside (by decide))

private theorem isOneLine_member (name : String) {value : List Char} (plain : IsOneLine value) :
    IsOneLine (member name value) :=
  isOneLine_append (isOneLine_quote name) (isOneLine_cons (by simp) plain)

private theorem isOneLine_brace {members : List (List Char)} (each : ∀ member ∈ members, IsOneLine member) :
    IsOneLine (brace members) :=
  isOneLine_cons (by decide) (isOneLine_append (isOneLine_join (by decide) each) (by decide))

private theorem isOneLine_bracket {items : List (List Char)} (each : ∀ item ∈ items, IsOneLine item) :
    IsOneLine (bracket items) :=
  isOneLine_cons (by decide) (isOneLine_append (isOneLine_join (by decide) each) (by decide))

variable {α β : Type}

def Codec.WritesLines (codec : Codec α) : Prop := ∀ value, IsOneLine (codec.write value)

namespace Codec

theorem WritesLines.list {codec : Codec α} (lines : codec.WritesLines) : codec.list.WritesLines := by
  intro values
  apply isOneLine_bracket
  intro item member
  obtain ⟨value,_,rfl⟩ := List.mem_map.mp member
  exact lines value

theorem WritesLines.imap {codec : Codec α} (lines : codec.WritesLines) (toValue : α → β) (ofValue : β → α) :
    (codec.imap toValue ofValue).WritesLines :=
  fun value => lines (ofValue value)

end Codec

def Fields.WriteLines : {α : Type} → Fields α → Prop
  | _, .nil => True
  | _, .cons field rest => field.codec.WritesLines ∧ rest.WriteLines

private theorem isOneLine_writeMembers {fields : Fields α} (lines : fields.WriteLines) (value : α) :
    ∀ member ∈ fields.writeMembers value, IsOneLine member := by
  induction fields with
  | nil => simp [Fields.writeMembers]
  | cons field rest ih =>
    obtain ⟨value,values⟩ := value
    intro member listed
    unfold Fields.writeMembers at listed
    dsimp only at listed
    split_ifs at listed
    · exact ih lines.2 values member listed
    · rcases List.mem_cons.mp listed with rfl | later
      · exact isOneLine_member field.name (lines.1 value)
      · exact ih lines.2 values member later

theorem Fields.WriteLines.codec {fields : Fields α} (lines : fields.WriteLines) (name : String) :
    (fields.codec name).WritesLines :=
  fun value => isOneLine_brace (isOneLine_writeMembers lines value)

def Variant.WritesLines (variant : Variant α) : Prop :=
  ∀ value members, variant.members? value = some members → ∀ member ∈ members, IsOneLine member

theorem Fields.WriteLines.variant {fields : Fields β} (lines : fields.WriteLines) (name title : String)
    (build : β → α) (parts? : α → Option β) : (fields.variant name title build parts?).WritesLines := by
  intro value members written
  obtain ⟨parts,_,rfl⟩ := Option.map_eq_some_iff.mp written
  exact isOneLine_writeMembers lines parts

end Json

open Json

namespace MapEvent

end MapEvent
end PinnedMap
