import Mathlib.Data.List.Perm.Basic
import PinnedMap.Json.Value
import PinnedMap.Proofs.Json.Number

/-! What a codec restores from what it wrote. The law speaks of the tree of the text and of the value that the tree
means: either one is read, the tree where a text is read at once, the value where it is kept or looked at first. -/
namespace PinnedMap.Json

open Decimal

variable {α β : Type}

namespace Codec

def Accepts (codec : Codec α) (node : Node) (value : α) : Prop := ∀ origin, codec.read origin node = .ok value

/-- A tree, and what it means at `depth` or deeper, read as the same value. -/
structure Holds (codec : Codec α) (depth : Nat) (node : Node) (meaning : Value) (value : α) : Prop where
  means : ∀ deep, depth ≤ deep → Value.ofNode deep node = some meaning
  tree : codec.Accepts node value
  meant : codec.Accepts meaning.toNode value

def Restores (codec : Codec α) (depth : Nat) (value restored : α) : Prop :=
  ∃ node meaning, Reads (codec.write value) node ∧ codec.Holds depth node meaning restored

theorem ofChars_of_ends (codec : Codec α) {text : List Char} (ends : (Document.ofChars text).ends = true) :
    codec.ofChars text = codec.read .text (Document.ofChars text).root := by
  unfold Codec.ofChars
  dsimp only
  rw [ends]
  cases codec.read .text (Document.ofChars text).root <;> rfl

theorem ofChars_of_reads (codec : Codec α) {text : List Char} {node : Node} (reads : Reads text node) :
    codec.ofChars text = codec.read .text node := by
  rw [ofChars_of_ends codec (by rw [reads.document]),reads.document]

theorem Restores.ofChars {codec : Codec α} {depth : Nat} {value restored : α}
    (restores : codec.Restores depth value restored) : codec.ofChars (codec.write value) = .ok restored := by
  obtain ⟨node,_,reads,holds⟩ := restores
  exact (ofChars_of_reads codec reads).trans (holds.tree .text)

theorem Restores.mono {codec : Codec α} {depth deeper : Nat} {value restored : α}
    (restores : codec.Restores depth value restored) (more : depth ≤ deeper) :
    codec.Restores deeper value restored := by
  obtain ⟨node,meaning,reads,holds⟩ := restores
  exact ⟨node,meaning,reads,fun deep enough => holds.means deep (by omega),holds.tree,holds.meant⟩

end Codec

theorem reads_null : Reads "null".toList .null := by
  refine ⟨⟨'n',['u','l','l'],by simp,by decide,by decide⟩,fun rest limit _ enough => ?_⟩
  obtain ⟨limit,rfl⟩ : ∃ fewer, limit = fewer + 1 := ⟨limit - 1,by simp at enough; omega⟩
  have shape : "null".toList ++ rest = 'n' :: 'u' :: 'l' :: 'l' :: rest := by simp
  rw [shape,Node.read,skipSpace_cons (by decide)]
  rfl

private theorem exists_reads (value : Float) : ∃ node, Reads (Form.json.chars value) node := by
  rcases chars_json value with ⟨_,shape⟩ | ⟨_,whole,fraction,power,_,isNumeral,_,shape⟩
  · rw [shape]
    exact ⟨_,reads_null⟩
  · rw [shape]
    exact ⟨_,reads_numeral isNumeral _⟩

namespace Codec

def Rereads (value reread : Float) : Prop := number.ofChars (number.write value) = .ok reread

theorem restores_number {value reread : Float} (rereads : Rereads value reread) :
    number.Restores 0 value reread := by
  obtain ⟨node,reads⟩ : ∃ node, Reads (number.write value) node := exists_reads value
  have read : number.read .text node = .ok reread := (ofChars_of_reads number reads).symm.trans rereads
  cases node with
  | number n =>
    refine ⟨_,.number n,reads,fun deep _ => ?_,fun _ => read,fun _ => read⟩
    cases n with
    | tooLarge => cases read
    | _ => rfl
  | _ => cases read

theorem restores_count {n : Nat} (fits : n < 2 ^ 64) : count.Restores 0 n n :=
  ⟨_,.number (.natural n),reads_toDigits fits,fun _ _ => rfl,fun _ => rfl,fun _ => rfl⟩

theorem string_ofString (text : String) : (Literal.ofString text).string = text := String.ofList_toList

theorem text?_ofString (text : String) : (Literal.ofString text).text? = .ok text :=
  congrArg Except.ok (string_ofString text)

theorem restores_string (text : String) : string.Restores 0 text text := by
  have read : string.Accepts (.text (Literal.ofString text)) text := fun _ => text?_ofString text
  exact ⟨_,.text text,reads_quote text,fun _ _ => congrArg (some ∘ Value.text) (string_ofString text),read,read⟩

theorem restores_written {expected : String} {ofText : String → Except String α} {text : α → String}
    {value restored : α} (rereads : ofText (text value) = .ok restored) :
    (written expected ofText text).Restores 0 value restored := by
  have read : (written expected ofText text).Accepts (.text (Literal.ofString (text value))) restored := by
    intro origin
    dsimp only [written]
    rw [text?_ofString]
    simp only [bind,Except.bind,rereads]
    rfl
  exact ⟨_,.text (text value),reads_quote _,fun _ _ => congrArg (some ∘ Value.text) (string_ofString _),read,read⟩

theorem restores_choice [DecidableEq α] {choices : List (String × α)} {value : α}
    (known : choices.lookup (((choices.find? (·.2 = value)).map (·.1)).getD "") = some value) :
    (choice choices).Restores 0 value value := by
  obtain ⟨name,isName⟩ : ∃ name, name = ((choices.find? (·.2 = value)).map (·.1)).getD "" := ⟨_,rfl⟩
  have write : (choice choices).write value = quote name := congrArg quote isName.symm
  rw [← isName] at known
  have read : (choice choices).Accepts (.text (Literal.ofString name)) value := by
    intro origin
    dsimp only [choice]
    rw [text?_ofString]
    simp only [bind,Except.bind,known]
  exact ⟨.text (Literal.ofString name),.text name,write ▸ reads_quote name,
    fun _ _ => congrArg (some ∘ Value.text) (string_ofString _),read,read⟩

theorem Restores.imap {codec : Codec α} {toValue : α → β} {ofValue : β → α} {depth : Nat} {value restored : β}
    (restores : codec.Restores depth (ofValue value) (ofValue restored)) (inverse : ∀ value, toValue (ofValue value) = value) :
    (codec.imap toValue ofValue).Restores depth value restored := by
  obtain ⟨node,meaning,reads,holds⟩ := restores
  have read {node : Node} (accepts : codec.Accepts node (ofValue restored)) :
      (codec.imap toValue ofValue).Accepts node restored := by
    intro origin
    exact (congrArg (Except.map toValue) (accepts origin)).trans (congrArg Except.ok (inverse restored))
  exact ⟨node,meaning,reads,holds.means,read holds.tree,read holds.meant⟩

private theorem read_optional {codec : Codec α} (refuses : ∀ origin value, codec.read origin .null ≠ .ok value)
    {node : Node} {value : α} (accepts : codec.Accepts node value) : codec.optional.Accepts node (some value) := by
  intro origin
  cases node with
  | null => exact absurd (accepts origin) (refuses origin value)
  | _ => exact congrArg (Except.map some) (accepts origin)

theorem Restores.some {codec : Codec α} (refuses : ∀ origin value, codec.read origin .null ≠ .ok value) {depth : Nat}
    {value restored : α} (restores : codec.Restores depth value restored) :
    codec.optional.Restores depth (some value) (some restored) := by
  obtain ⟨node,meaning,reads,holds⟩ := restores
  exact ⟨node,meaning,reads,holds.means,read_optional refuses holds.tree,read_optional refuses holds.meant⟩

private theorem items_of_restores {codec : Codec α} {depth : Nat} {values restored : List α}
    (each : List.Forall₂ (codec.Restores depth) values restored) : ∃ nodes meanings,
      List.Forall₂ Reads (values.map codec.write) nodes ∧
      (∀ deep, depth ≤ deep → Value.ofItems deep nodes = .some meanings) ∧
      (∀ origin, nodes.mapM (codec.read origin) = .ok restored) ∧
      ∀ origin, (Value.toItems meanings).mapM (codec.read origin) = .ok restored := by
  induction each with
  | nil => exact ⟨[],[],.nil,fun _ _ => rfl,fun _ => rfl,fun _ => rfl⟩
  | cons restores _ ih =>
    obtain ⟨node,meaning,reads,holds⟩ := restores
    obtain ⟨nodes,meanings,others,means,trees,meants⟩ := ih
    refine ⟨node :: nodes,meaning :: meanings,.cons reads others,fun deep enough => ?_,fun origin => ?_,fun origin => ?_⟩
    · rw [Value.ofItems,holds.means deep enough,means deep enough]
      rfl
    · rw [List.mapM_cons,holds.tree origin,trees origin]
      rfl
    · rw [Value.toItems,List.mapM_cons,holds.meant origin,meants origin]
      rfl

theorem Restores.list {codec : Codec α} {depth : Nat} {values restored : List α}
    (each : List.Forall₂ (codec.Restores depth) values restored) :
    codec.list.Restores (depth + 1) values restored := by
  obtain ⟨nodes,meanings,reads,means,trees,meants⟩ := items_of_restores each
  have read {items : List Node} (all : ∀ origin, items.mapM (codec.read origin) = .ok restored) :
      codec.list.Accepts (.array items true) restored := by
    intro origin
    change (items.mapM (codec.read origin) >>= fun values => Except.ok values) = _
    rw [all origin]
    rfl
  refine ⟨.array nodes true,.array meanings,reads_bracket reads,fun deep enough => ?_,read trees,?_⟩
  · have positive : 0 < deep := by omega
    rw [Value.ofNode,means (deep - 1) (by omega)]
    simp [positive]
  · rw [Value.toNode]
    exact read meants

theorem Restores.pair {codec : Codec α} {depth : Nat} {first second first' second' : α}
    (front : codec.Restores depth first first') (back : codec.Restores depth second second') :
    codec.pair.Restores (depth + 1) (first,second) (first',second') := by
  obtain ⟨node,meaning,reads,holds⟩ := front
  obtain ⟨node',meaning',reads',holds'⟩ := back
  have read {one other : Node} (accepts : codec.Accepts one first') (accepts' : codec.Accepts other second') :
      codec.pair.Accepts (.array [one,other] true) (first',second') := by
    intro origin
    change (do
      let first ← codec.read origin one
      let second ← codec.read origin other
      endOfArray origin 2 [] true
      return (first,second)) = _
    rw [accepts origin,accepts' origin]
    rfl
  refine ⟨.array [node,node'] true,.array [meaning,meaning'],reads_bracket (.cons reads (.cons reads' .nil)),
    fun deep enough => ?_,read holds.tree holds'.tree,?_⟩
  · have positive : 0 < deep := by omega
    rw [Value.ofNode,Value.ofItems,Value.ofItems,Value.ofItems,holds.means (deep - 1) (by omega),
      holds'.means (deep - 1) (by omega)]
    simp [positive]
  · rw [Value.toNode,Value.toItems,Value.toItems,Value.toItems]
    exact read holds.meant holds'.meant

end Codec
end PinnedMap.Json
