import PinnedMap.Picture.Source
import PinnedMap.Proofs.Files.Tree
import PinnedMap.Proofs.Picture.Base64
import PinnedMap.Proofs.Text.Blank
import PinnedMap.Proofs.Text.Parts

/-! Images by URL. A `data:` URL holds the bytes that its payload encodes, and the image in a file has the size that it
has when its bytes stand in the URL. -/
namespace PinnedMap

open Attempt Picture

theorem Picture.ascii_ofList (text : List Char) : ascii (String.ofList text) = text.flatMap String.utf8EncodeChar := by
  rw [ascii,String.toUTF8,toList_bytes,String.toByteArray_ofList,List.utf8Encode,List.toList_data_toByteArray]

theorem Picture.ascii_injective {text other : String} (same : ascii text = ascii other) : text = other := by
  rw [ascii,ascii,toList_bytes,toList_bytes,Array.toList_inj] at same
  exact String.toByteArray_inj.mp (ByteArray.ext same)

namespace Base64

def text (data : Bytes) : List Char := (encode data).map fun byte => Char.ofNat byte.toNat

private theorem forall_mem_encode {holds : UInt8 → Prop} (symbols : ∀ value < 64, holds (symbol value))
    (fills : holds pad) (data : Bytes) : ∀ byte ∈ encode data, holds byte := by
  intro byte member
  rw [encode_eq,List.mem_append,List.mem_map] at member
  rcases member with ⟨value,listed,rfl⟩ | filling
  · exact symbols value ((isTidy_split data).small value listed)
  · rwa [List.eq_of_mem_replicate filling]

private theorem ascii_text (data : Bytes) : ascii (String.ofList (text data)) = encode data := by
  have single : ∀ byte ∈ encode data, String.utf8EncodeChar (Char.ofNat byte.toNat) = [byte] :=
    forall_mem_encode (by decide +kernel) (by decide +kernel) data
  rw [ascii_ofList,text,List.flatMap_map]
  generalize encode data = bytes at single
  induction bytes with
  | nil => rfl
  | cons byte bytes ih =>
    obtain ⟨first,others⟩ := List.forall_mem_cons.mp single
    rw [List.flatMap_cons,first,ih others,List.singleton_append]

private theorem visible_text (data : Bytes) : ∀ c ∈ text data, Text.isBlank c = false := by
  have visible : ∀ byte ∈ encode data, Text.isBlank (Char.ofNat byte.toNat) = false :=
    forall_mem_encode (by decide +kernel) (by decide +kernel) data
  intro c member
  obtain ⟨byte,listed,rfl⟩ := List.mem_map.mp member
  exact visible byte listed

private theorem trim_text (data : Bytes) : Text.trim (text data) = text data := Text.trim_eq_self (visible_text data)

private theorem decode_ascii_iff {shown : List Char} {data : Bytes} :
    decode (ascii (String.ofList shown)) = .ok data ↔ shown = text data := by
  rw [decode_eq_ok_iff,← ascii_text]
  constructor
  · exact fun same => String.ofList_inj.mp (ascii_injective same)
  · rintro rfl
    rfl

end Base64

namespace ImageSource

/-- Parameters with semicolons between them, none of them with a comma and one of them `base64` in any case. -/
def IsMarked (parameters : List Char) : Prop :=
  ',' ∉ parameters ∧ ∃ parts, parameters = Text.join [';'] parts ∧ (∀ part ∈ parts, ';' ∉ part) ∧
    ∃ part ∈ parts, Text.Spells "base64".toList part

private theorem any_splitOn_iff (parameters : List Char) :
    ((Text.splitOn ';' parameters).any (Text.lower · = "base64".toList)) = true ↔
      ∃ parts, parameters = Text.join [';'] parts ∧ (∀ part ∈ parts, ';' ∉ part) ∧
        ∃ part ∈ parts, Text.Spells "base64".toList part := by
  have spelt (part : List Char) : Text.lower part = "base64".toList ↔ Text.Spells "base64".toList part :=
    Text.lower_eq_iff (by decide)
  simp only [List.any_eq_true,decide_eq_true_eq,spelt]
  constructor
  · intro marked
    obtain ⟨joined,absent⟩ := Text.splitOn_spec ';' parameters
    exact ⟨_,joined.symm,absent,marked⟩
  · rintro ⟨parts,rfl,absent,part,listed,marked⟩
    rw [Text.splitOn_join (List.ne_nil_of_mem listed) absent]
    exact ⟨part,listed,marked⟩

private theorem cut_iff {rest parameters data : List Char} :
    rest = parameters ++ ',' :: data ∧ ',' ∉ parameters ↔
      rest.takeWhile (· ≠ ',') = parameters ∧ rest.dropWhile (· ≠ ',') = ',' :: data := by
  constructor
  · rintro ⟨rfl,none⟩
    have others : ∀ c ∈ parameters, decide (c ≠ ',') = true := by
      intro c member
      refine decide_eq_true fun same => none (same ▸ member)
    rw [List.takeWhile_append_of_pos others,List.dropWhile_append_of_pos others]
    simp
  · rintro ⟨rfl,rest'⟩
    refine ⟨?_,fun member => ?_⟩
    · rw [← rest',List.takeWhile_append_dropWhile]
    · simpa using List.all_eq_true.mp List.all_takeWhile _ member

private theorem payload_eq_ok_iff {rest : List Char} {bytes : Bytes} :
    payload rest = .ok bytes ↔ ∃ parameters data, rest = parameters ++ ',' :: data ∧ IsMarked parameters ∧
      Text.trim data = Base64.text bytes := by
  unfold payload
  dsimp only
  split
  next data cut =>
    simp only [unless_eq_ok,mapError_eq_ok,Base64.decode_ascii_iff,Bool.not_eq_true',Bool.not_eq_false,any_splitOn_iff]
    constructor
    · rintro ⟨marked,shown⟩
      obtain ⟨front,none⟩ := cut_iff.mpr ⟨rfl,cut⟩
      exact ⟨_,data,front,⟨none,marked⟩,shown⟩
    · rintro ⟨parameters,data',front,⟨none,marked⟩,shown⟩
      obtain ⟨first,last⟩ := cut_iff.mp ⟨front,none⟩
      obtain ⟨_,rfl⟩ := List.cons.inj (cut.symm.trans last)
      exact ⟨first.symm ▸ marked,shown⟩
  next other =>
    refine iff_of_false nofun ?_
    rintro ⟨parameters,data,front,⟨none,_⟩,_⟩
    exact other _ (cut_iff.mp ⟨front,none⟩).2

/-- What follows `data:` holds bytes just if, after marked parameters and a comma, it is the text of their encoding,
blanks aside. So behind the same parameters all bytes have one payload, no two payloads hold the same, and all else is
refused. -/
theorem payload_decodes :
    (∀ rest bytes, payload rest = .ok bytes ↔ ∃ parameters data, rest = parameters ++ ',' :: data ∧
      IsMarked parameters ∧ Text.trim data = Base64.text bytes) ∧
    (∀ parameters, IsMarked parameters → ∀ bytes, ∃! shown, Text.trim shown = shown ∧
      payload (parameters ++ ',' :: shown) = .ok bytes) ∧
    ∀ parameters data, IsMarked parameters → (∀ bytes, Text.trim data ≠ Base64.text bytes) →
      ∃ fault, payload (parameters ++ ',' :: data) = .error fault := by
  have behind {parameters data : List Char} (marked : IsMarked parameters) {bytes : Bytes} :
      payload (parameters ++ ',' :: data) = .ok bytes ↔ Text.trim data = Base64.text bytes := by
    rw [payload_eq_ok_iff]
    constructor
    · rintro ⟨parameters',data',same,marked',shown⟩
      have cut := cut_iff.mp ⟨same,marked'.1⟩
      rw [(cut_iff.mp ⟨rfl,marked.1⟩).2] at cut
      rwa [(List.cons.inj cut.2).2]
    · exact fun shown => ⟨parameters,data,rfl,marked,shown⟩
  refine ⟨fun _ _ => payload_eq_ok_iff,fun parameters marked bytes => ?_,fun parameters data marked refused => ?_⟩
  · refine ⟨Base64.text bytes,⟨Base64.trim_text bytes,(behind marked).mpr (Base64.trim_text bytes)⟩,?_⟩
    rintro shown ⟨trimmed,decoded⟩
    rw [← trimmed,(behind marked).mp decoded]
  · cases decoded : payload (parameters ++ ',' :: data) with
    | error fault => exact ⟨fault,rfl⟩
    | ok bytes => exact absurd ((behind marked).mp decoded) (refused bytes)

/-- A payload with blanks around it, behind parameters in mixed case, and one that lacks its padding. -/
theorem payload_decodes_two_bytes :
    let parameters := "image/png;BaSe64".toList
    IsMarked parameters ∧ payload (parameters ++ ',' :: " aGk=\n".toList) = .ok [104,105] ∧
      (∃! shown, Text.trim shown = shown ∧ payload (parameters ++ ',' :: shown) = .ok [104,105]) ∧
      (∀ bytes, Text.trim "aGk".toList ≠ Base64.text bytes) ∧
      ∃ fault, payload (parameters ++ ',' :: "aGk".toList) = .error fault := by
  intro parameters
  have marked : IsMarked parameters := ⟨by decide,(any_splitOn_iff parameters).mp (by decide)⟩
  have unpadded : ∀ bytes, Text.trim "aGk".toList ≠ Base64.text bytes := by
    intro bytes same
    have decoded := Base64.decode_ascii_iff.mpr same
    have refused : (Base64.decode (ascii (String.ofList (Text.trim "aGk".toList)))).toOption = none := by decide +kernel
    rw [decoded] at refused
    cases refused
  obtain ⟨holds,single,refuses⟩ := payload_decodes
  exact ⟨marked,(holds _ _).mpr ⟨parameters,_,rfl,marked,by decide +kernel⟩,single parameters marked [104,105],unpadded,
    refuses parameters _ marked unpadded⟩

/-- Neither bits that fill no byte, nor a blank within, nor symbols of another alphabet, nor a second comma. -/
example : ["aGl=","aG k=","aG-_","aGk=,aGk="].map (fun shown =>
    (payload ("base64,".toList ++ shown.toList)).toOption) = [none,none,none,none] := by
  decide +kernel

/-- A name that no scheme opens, in whatever case, without blanks at its ends. -/
structure IsBare (name : List Char) : Prop where
  plain : ∀ scheme ∈ ["data:","file://","http://","https://"], ¬ scheme.toList <+: Text.lower name
  first : ∀ c ∈ name.head?, Text.isBlank c = false
  last : ∀ c ∈ name.getLast?, Text.isBlank c = false

/-- A name as a URL: as it is or after `file://`, and blanks around it. -/
def Calls (name url : List Char) : Prop :=
  ∃ before opening after, (∀ c ∈ before, Text.isBlank c) ∧ (∀ c ∈ after, Text.isBlank c) ∧
    (opening = [] ∨ opening = "file://".toList) ∧ url = before ++ (opening ++ name) ++ after

/-- The same size, or no picture on either side. -/
def LoadsAlike (one other : Except Fault Size) : Prop :=
  (∃ size, one = .ok size ∧ other = .ok size) ∨ one = .error .picture ∧ other = .error .picture

private theorem not_opens_of_bare {name : List Char} (bare : IsBare name) {scheme : String}
    (known : scheme ∈ ["data:","file://","http://","https://"]) (rest : List Char) : name ≠ scheme.toList ++ rest := by
  rintro rfl
  refine bare.plain scheme known ⟨Text.lower rest,?_⟩
  have small : Text.lower scheme.toList = scheme.toList := by
    simp only [List.mem_cons,List.not_mem_nil,or_false] at known
    rcases known with rfl | rfl | rfl | rfl <;> rfl
  rw [Text.lower,Text.lower,List.map_append]
  exact congrArg (· ++ rest.map Char.toLower) small.symm

private theorem isRemote_eq_false {url : List Char}
    (plain : ∀ scheme ∈ ["http://","https://"], ¬ scheme.toList <+: Text.lower url) : isRemote url = false := by
  rw [isRemote,Bool.or_eq_false_iff]
  constructor <;> refine Bool.eq_false_iff.mpr fun opens => ?_
  · exact plain _ (by simp) (List.isPrefixOf_iff_prefix.mp opens)
  · exact plain _ (by simp) (List.isPrefixOf_iff_prefix.mp opens)

private theorem locate_of_calls {name url : String} (bare : IsBare name.toList) (some : name.toList ≠ [])
    (calls : Calls name.toList url.toList) (root : String) :
    locate root url = .ok (.file (Path.within root name)) := by
  obtain ⟨before,opening,after,blank,blank',isOpening,shape⟩ := calls
  have last : ∀ c ∈ (opening ++ name.toList).getLast?, Text.isBlank c = false := by
    intro c last
    rw [List.getLast?_append_of_ne_nil _ some] at last
    exact bare.last c last
  have visible : Text.trim url.toList = opening ++ name.toList := by
    rw [shape,Text.trim_of_blank blank blank']
    refine Text.trim_of_ends ?_ last
    rcases isOpening with rfl | rfl
    · exact bare.first
    · simp
      decide
  have notInline : Text.without? "data:".toList (opening ++ name.toList) = none := by
    refine Option.eq_none_iff_forall_ne_some.mpr fun rest found => ?_
    have shape := Text.without?_eq_some_iff.mp found
    rcases isOpening with rfl | rfl
    · exact not_opens_of_bare bare (by simp) rest shape
    · simp at shape
  have notRemote : isRemote (opening ++ name.toList) = false := by
    refine isRemote_eq_false fun scheme known => ?_
    rcases isOpening with rfl | rfl
    · exact bare.plain scheme (by simp at known ⊢; tauto)
    · simp at known
      rcases known with rfl | rfl <;> simp [Text.lower]
  have path : (Text.without? "file://".toList (opening ++ name.toList)).getD (opening ++ name.toList) = name.toList := by
    rcases isOpening with rfl | rfl
    · have none : Text.without? "file://".toList name.toList = none := by
        refine Option.eq_none_iff_forall_ne_some.mpr fun rest found => ?_
        exact not_opens_of_bare bare (by simp) rest (Text.without?_eq_some_iff.mp found)
      rw [List.nil_append,none,Option.getD_none]
    · rw [Text.without?_eq_some_iff.mpr rfl,Option.getD_some]
  unfold locate
  dsimp only
  rw [visible,if_neg (by simp [some]),notInline]
  dsimp only
  rw [notRemote,path,String.ofList_toList]
  rfl

private theorem locate_inline {rest : List Char} (some : rest ≠ []) (last : ∀ c ∈ rest.getLast?, Text.isBlank c = false)
    (root : String) : locate root (String.ofList ("data:".toList ++ rest)) = .ok (.inline rest) := by
  have visible : Text.trim ("data:".toList ++ rest) = "data:".toList ++ rest := by
    refine Text.trim_of_ends ?_ ?_
    · simp
      decide
    · rwa [List.getLast?_append_of_ne_nil _ some]
  unfold locate
  dsimp only
  rw [String.toList_ofList,visible,if_neg (by simp),Text.without?_eq_some_iff.mpr rfl]

def inlineUrl (parameters : List Char) (bytes : Bytes) : String :=
  String.ofList ("data:".toList ++ (parameters ++ ',' :: Base64.text bytes))

private theorem load_inlineUrl {parameters : List Char} (marked : IsMarked parameters) (bytes : Bytes) (files : Files)
    (root : String) : load files root (inlineUrl parameters bytes) = inlineSize bytes := by
  have visible : ∀ c ∈ ',' :: Base64.text bytes, Text.isBlank c = false :=
    List.forall_mem_cons.mpr ⟨by decide,Base64.visible_text bytes⟩
  have last : ∀ c ∈ (parameters ++ ',' :: Base64.text bytes).getLast?, Text.isBlank c = false := by
    intro c last
    rw [List.getLast?_append_of_ne_nil _ (by simp)] at last
    exact visible c (List.mem_of_mem_getLast? last)
  have decoded : payload (parameters ++ ',' :: Base64.text bytes) = .ok bytes :=
    payload_eq_ok_iff.mpr ⟨parameters,_,rfl,marked,Base64.trim_text bytes⟩
  unfold load inlineUrl
  rw [locate_inline (by simp) last]
  change (payload (parameters ++ ',' :: Base64.text bytes) >>= fun bytes => inlineSize bytes) = _
  rw [decoded]
  rfl

private theorem load_of_calls {name url : String} (bare : IsBare name.toList) (some : name.toList ≠ [])
    (calls : Calls name.toList url.toList) (files : Files) (root : String) :
    load files root url = fileSize files (Path.within root name) := by
  unfold load
  rw [locate_of_calls bare some calls]
  rfl

private theorem fileName_append (directory name : String) :
    Path.fileName (directory ++ "/" ++ name) = Path.fileName name := by
  have some := Text.splitOn_ne_nil '/' name.toList
  unfold Path.fileName
  rw [String.append_assoc,String.toList_append,String.toList_append]
  change (Text.splitOn '/' (directory.toList ++ '/' :: name.toList)).getLastD [] = _
  rw [Text.splitOn_both,List.getLastD_eq_getLast?,List.getLastD_eq_getLast?,List.getLast?_append_of_ne_nil _ some]

private theorem fileName_within (directory name : String) :
    Path.fileName (Path.within directory name) = Path.fileName name := by
  unfold Path.within
  split_ifs with whole slash
  · rfl
  · obtain ⟨front,shape⟩ := List.getLast?_eq_some_iff.mp slash
    have ends : directory = String.ofList front ++ "/" := by
      rw [← String.toList_inj,String.toList_append,String.toList_ofList,shape]
      rfl
    rw [ends,fileName_append]
  · exact fileName_append directory name

private theorem extension?_within (directory name : String) :
    Path.extension? (Path.within directory name) = Path.extension? name := by
  rw [Path.extension?,fileName_within,Path.extension?]

/-- Where bytes are of a format, and their file is named so, the file loads as the bytes do in a URL. -/
theorem load_file_alike {files : Files} {root name url : String} {parameters : List Char} {bytes : Bytes}
    {format : Format} (recognised : Format.ofBytes bytes = some format)
    (readable : files.bytes? (Path.within root name) = some bytes)
    (ending : (Path.extension? name).bind Format.ofExtension = some format)
    (bare : IsBare name.toList) (calls : Calls name.toList url.toList) (marked : IsMarked parameters) :
    LoadsAlike (load files root url) (load files root (inlineUrl parameters bytes)) := by
  have some : name.toList ≠ [] := by
    intro none
    obtain rfl : name = "" := String.toList_inj.mp none
    cases ending
  rw [load_of_calls bare some calls,load_inlineUrl marked,fileSize,inlineSize,extension?_within,readable,ending,recognised]
  unfold headerSize
  cases (Option.some format).bind fun format => (Option.some bytes).bind format.dimensions with
  | none => exact .inr ⟨rfl,rfl⟩
  | some dimensions => exact .inl ⟨_,rfl,rfl⟩

/-- A file below the root, with its ending in capitals, after `file://` and between blanks. -/
theorem load_file_alike_farbfeld :
    let bytes := ascii "farbfeld" ++ [0,0,0,2,0,0,0,1]
    let files : Files := fun path => if path = "/maps/old/a.FF" then some (.file bytes) else none
    let url := " \tfile://old/a.FF\n"
    let parameters := "image/png;Base64".toList
    Format.ofBytes bytes = some .farbfeld ∧ files.bytes? (Path.within "/maps" "old/a.FF") = some bytes ∧
      (Path.extension? "old/a.FF").bind Format.ofExtension = some .farbfeld ∧ IsBare "old/a.FF".toList ∧
      Calls "old/a.FF".toList url.toList ∧ IsMarked parameters ∧ load files "/maps" url = .ok ⟨2,1⟩ ∧
      LoadsAlike (load files "/maps" url) (load files "/maps" (inlineUrl parameters bytes)) := by
  intro bytes files url parameters
  have recognised : Format.ofBytes bytes = some .farbfeld := by decide +kernel
  have readable : files.bytes? (Path.within "/maps" "old/a.FF") = some bytes := by decide +kernel
  have ending : (Path.extension? "old/a.FF").bind Format.ofExtension = some .farbfeld := by decide +kernel
  have bare : IsBare "old/a.FF".toList := ⟨by decide +kernel,by simp; decide,by simp; decide⟩
  have calls : Calls "old/a.FF".toList url.toList :=
    ⟨" \t".toList,"file://".toList,"\n".toList,by simp; decide,by simp; decide,.inr rfl,by decide⟩
  have marked : IsMarked parameters := ⟨by decide,(any_splitOn_iff parameters).mp (by decide)⟩
  exact ⟨recognised,readable,ending,bare,calls,marked,by decide +kernel,
    load_file_alike recognised readable ending bare calls marked⟩

end ImageSource
end PinnedMap
