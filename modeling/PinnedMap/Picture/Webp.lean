import PinnedMap.Picture.Bytes

/-! WebP: chunks in a file of their own. The first is an image, lossy or lossless, or a description of a
canvas; then an image or the frames of an animation follow among other chunks. -/
namespace PinnedMap.Picture.Webp

structure Chunk where
  name : Bytes
  size : Nat
  room : Nat
  rest : Bytes

def chunk (bytes : Bytes) : Option Chunk := do
  let (name,rest) ← takeBytes 4 bytes
  let (size,rest) ← little 4 rest
  return ⟨name,size,min (size + size % 2) 0xFFFFFFFF,rest⟩

/-- A lossy image: a key frame, its mark, and lengths of 14 bits below two for scaling. -/
def lossy (bytes : Bytes) : Option Dimensions := do
  let (tag,rest) ← little 3 bytes
  guard (tag % 2 = 0)
  let rest ← expect [0x9D, 0x01, 0x2A] rest
  let (width,rest) ← little 2 rest
  let (height,_) ← little 2 rest
  guard (0 < width % 0x4000 && 0 < height % 0x4000)
  return (width % 0x4000,height % 0x4000)

def lossless (bytes : Bytes) : Option Dimensions := do
  let rest ← expect [0x2F] bytes
  let (header,_) ← little 4 rest
  guard (header < 0x20000000)
  return ((header + 1) % 0x4000,(header / 0x4000 + 1) % 0x4000)

structure Canvas where
  width : Nat
  height : Nat
  hasCameraData : Bool
  hasMetadata : Bool
  isAnimated : Bool

/-- Lengths are stored less one, in 24 bits; the number of pixels must fit in 32. -/
def canvas (bytes : Bytes) : Option Canvas := do
  let (flags,rest) ← little 1 bytes
  let rest ← skipBytes 3 rest
  let (width,rest) ← little 3 rest
  let (height,_) ← little 3 rest
  guard ((width + 1) * (height + 1) ≤ 0xFFFFFFFF)
  return ⟨width + 1,height + 1,flags / 8 % 2 = 1,flags / 4 % 2 = 1,flags / 2 % 2 = 1⟩

def isFrame (frame : Chunk) (metLossy : Bool) : Bool :=
  24 ≤ frame.size && (if metLossy then 16 else 24) ≤ frame.rest.length

def isLossyFrame (frame : Chunk) : Bool :=
  match chunk (frame.rest.drop 16) with
  | some inner => inner.name = ascii "VP8 " || inner.name = ascii "ALPH"
  | none => false

/-- Chunks up to a place, or to the end of the file; `none` if a frame among them is at fault. -/
def chunks : (limit left : Nat) → (metLossy : Bool) → Bytes → Option (List Chunk)
  | 0, _, _, _ | _, 0, _, _ => some []
  | limit + 1, left, metLossy, bytes =>
    match chunk bytes with
    | none => some []
    | some next => do
      let isAnimation := next.name = ascii "ANMF"
      if isAnimation then guard (isFrame next metLossy)
      let metLossy := metLossy || (isAnimation && isLossyFrame next)
      let others ← chunks limit (left - (8 + next.room)) metLossy (next.rest.drop next.room)
      return next :: others

def find? (name : String) (chunks : List Chunk) : Option Chunk := chunks.find? (·.name = ascii name)

def isComplete (canvas : Canvas) (chunks : List Chunk) : Bool :=
  let has := fun name => (find? name chunks).isSome
  (!canvas.hasCameraData || has "EXIF") && (!canvas.hasMetadata || has "XMP ") &&
    if canvas.isAnimated then
      has "ANMF" && (find? "ANIM" chunks).any fun control => control.size = 6 && 6 ≤ control.rest.length
    else has "VP8 " != has "VP8L"

def opensFrame (frame : Chunk) : Bool :=
  match chunk (frame.rest.drop 16) with
  | none => false
  | some first => frame.size < 32 + first.room || 32 ≤ frame.rest.length

def extended (total : Nat) (description : Chunk) : Option Dimensions := do
  let canvas ← canvas description.rest
  let body := description.rest.drop description.room
  let chunks ← chunks body.length (total - 12) false body
  guard (isComplete canvas chunks)
  guard ((find? "ANMF" chunks).all opensFrame)
  return (canvas.width,canvas.height)

def dimensions (bytes : Bytes) : Option Dimensions := do
  let file ← chunk bytes
  guard (file.name = ascii "RIFF")
  let first ← chunk (← expect (ascii "WEBP") file.rest)
  if first.name = ascii "VP8 " then lossy first.rest
  else if first.name = ascii "VP8L" then lossless first.rest
  else if first.name = ascii "VP8X" then extended file.size first
  else none

end PinnedMap.Picture.Webp
