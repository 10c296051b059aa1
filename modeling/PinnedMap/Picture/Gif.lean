import PinnedMap.Picture.Bytes

/-! GIF: the size is that of the logical screen. The header ends where the first image or the trailer
begins, after the colour table and any extensions. A block begins only if something follows its first
byte, except a trailer after an extension. -/
namespace PinnedMap.Picture.Gif

def skipBlocks : (limit : Nat) → Bytes → Option Bytes
  | 0, _ | _, [] => none
  | limit + 1, size :: rest => if size = 0 then some rest else (skipBytes size.toNat rest).bind (skipBlocks limit)

/-- What follows an extension of which the label is given: text, a comment, data of an application, or the
control of an image, which has four bytes. The first block may be empty without being the last. -/
def skipExtension (label : UInt8) (bytes : Bytes) : Option Bytes := do
  let (size,rest) ← little 1 bytes
  guard (([0x01, 0xFE, 0xFF] : Bytes).contains label || (label = 0xF9 && size = 4))
  skipBlocks rest.length (← skipBytes size rest)

def reachesContents : (limit : Nat) → Bytes → Bool
  | 0, _ | _, [] | _, [_] => false
  | limit + 1, kind :: label :: rest =>
    if kind ≠ 0x21 then true
    else match skipExtension label rest with
      | some rest => rest.head? = some 0x3B || reachesContents limit rest
      | none => false

def dimensions (bytes : Bytes) : Option Dimensions := do
  let rest ← (expect (ascii "GIF89a") bytes).or (expect (ascii "GIF87a") bytes)
  let (width,rest) ← little 2 rest
  let (height,rest) ← little 2 rest
  let (flags,rest) ← little 1 rest
  let rest ← skipBytes 2 rest
  let table := if 128 ≤ flags then 3 <<< (flags % 8 + 1) else 0
  let rest ← skipBytes table rest
  guard (reachesContents rest.length rest)
  return (width,height)

end PinnedMap.Picture.Gif
