import PinnedMap.Picture.Bmp
import PinnedMap.Picture.Gif
import PinnedMap.Picture.Jpeg
import PinnedMap.Picture.Png
import PinnedMap.Picture.Pnm
import PinnedMap.Picture.Webp
import PinnedMap.Text.Blank

/-! Image formats: told from the first bytes, or from the end of a file's name. Two of them, QOI and farbfeld, have
plain headers of fixed size. -/
namespace PinnedMap.Picture

def Qoi.pixelLimit : Nat := 400000000

def Qoi.dimensions (bytes : Bytes) : Option Dimensions := do
  let rest ← expect (ascii "qoif") bytes
  let (width,rest) ← big 4 rest
  let (height,rest) ← big 4 rest
  let (channels,rest) ← big 1 rest
  let (colourSpace,_) ← big 1 rest
  guard (0 < width * height && width * height ≤ Qoi.pixelLimit)
  guard ((channels = 3 || channels = 4) && colourSpace ≤ 1)
  return (width,height)

/-- The size must leave room to count the bytes of all pixels, eight each, in 64 bits. -/
def Farbfeld.dimensions (bytes : Bytes) : Option Dimensions := do
  let rest ← expect (ascii "farbfeld") bytes
  let (width,rest) ← big 4 rest
  let (height,_) ← big 4 rest
  guard (width * height ≤ 0xFFFFFFFFFFFFFFFF / 8)
  return (width,height)

inductive Format where
  | png
  | jpeg
  | gif
  | webp
  | bmp
  | qoi
  | pnm
  | farbfeld
deriving Repr, DecidableEq

namespace Format

def startsWith (text : String) (bytes : Bytes) : Bool := (ascii text).isPrefixOf bytes

def ofBytes (bytes : Bytes) : Option Format :=
  if Png.signature.isPrefixOf bytes then some .png
  else if ([0xFF, 0xD8, 0xFF] : Bytes).isPrefixOf bytes then some .jpeg
  else if startsWith "GIF89a" bytes || startsWith "GIF87a" bytes then some .gif
  else if startsWith "RIFF" bytes && startsWith "WEBP" (bytes.drop 8) then some .webp
  else if startsWith "BM" bytes then some .bmp
  else if startsWith "qoif" bytes then some .qoi
  else if startsWith "farbfeld" bytes then some .farbfeld
  else match bytes with
    | 80 :: kind :: _ => if 49 ≤ kind && kind ≤ 55 then some .pnm else none
    | _ => none

def ofExtension (extension : List Char) : Option Format :=
  match String.ofList (Text.lower extension) with
  | "png" | "apng" => some .png
  | "jpg" | "jpeg" | "jfif" => some .jpeg
  | "gif" => some .gif
  | "webp" => some .webp
  | "bmp" => some .bmp
  | "pbm" | "pam" | "ppm" | "pgm" | "pnm" => some .pnm
  | "ff" => some .farbfeld
  | "qoi" => some .qoi
  | _ => none

def dimensions (format : Format) (bytes : Bytes) : Option Dimensions :=
  match format with
  | .png => Png.dimensions bytes
  | .jpeg => Jpeg.dimensions bytes
  | .gif => Gif.dimensions bytes
  | .webp => Webp.dimensions bytes
  | .bmp => Bmp.dimensions bytes
  | .qoi => Qoi.dimensions bytes
  | .pnm => Pnm.dimensions bytes
  | .farbfeld => Farbfeld.dimensions bytes

end Format
end PinnedMap.Picture
