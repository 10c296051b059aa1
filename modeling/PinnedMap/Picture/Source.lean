import PinnedMap.Fault
import PinnedMap.Files.Tree
import PinnedMap.Picture.Format

/-! Images by URL: inline in a `data:` URL, or in a file, whose path may stand after `file://`. Remote
images are refused. -/
namespace PinnedMap.ImageSource

open Picture

/-- The bytes that a `data:` URL holds after the scheme: Base64 after the first comma, with a parameter
before the comma that says so. -/
def payload (rest : List Char) : Except Fault Bytes := do
  let parameters := rest.takeWhile (· ≠ ',')
  let ',' :: data := rest.dropWhile (· ≠ ',') | throw (.source .noPayload)
  if !(Text.splitOn ';' parameters).any (Text.lower · = "base64".toList) then throw (.source .notBase64)
  (Base64.decode (ascii (String.ofList (Text.trim data)))).mapError .base64

def size (dimensions : Dimensions) : Size := ⟨Decimal.nearest dimensions.1 1,Decimal.nearest dimensions.2 1⟩

def headerSize (format : Option Format) (bytes : Option Bytes) : Except Fault Size :=
  match format.bind fun format => bytes.bind format.dimensions with
  | some dimensions => .ok (size dimensions)
  | none => .error .picture

def inlineSize (bytes : Bytes) : Except Fault Size := headerSize (Format.ofBytes bytes) (some bytes)

def fileSize (files : Files) (path : String) : Except Fault Size :=
  headerSize ((Path.extension? path).bind Format.ofExtension) (files.bytes? path)

def isRemote (url : List Char) : Bool :=
  let url := Text.lower url
  "http://".toList.isPrefixOf url || "https://".toList.isPrefixOf url

inductive Location where
  | inline (rest : List Char)
  | file (path : String)
deriving Repr, DecidableEq

def locate (root url : String) : Except SourceFault Location :=
  let url := Text.trim url.toList
  if url.isEmpty then .error .emptyUrl
  else match Text.without? "data:".toList url with
    | some rest => .ok (.inline rest)
    | none =>
      if isRemote url then .error (.remote (String.ofList url))
      else
        let path := (Text.without? "file://".toList url).getD url
        .ok (.file (Path.within root (String.ofList path)))

def load (files : Files) (root url : String) : Except Fault Size := do
  match ← (locate root url).mapError .source with
  | .inline rest => inlineSize (← payload rest)
  | .file path => fileSize files path

end PinnedMap.ImageSource
