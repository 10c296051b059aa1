import PinnedMap.Picture.Bytes

/-! PNG: the size stands in the header chunk. The file is taken for an image once its data begins, after
chunks that may stand there. -/
namespace PinnedMap.Picture.Png

def signature : Bytes := [0x89, 0x50, 0x4E, 0x47, 0x0D, 0x0A, 0x1A, 0x0A]

structure Header where
  width : Nat
  height : Nat
  depth : Nat
  colour : Nat

def depths : (colour : Nat) → List Nat
  | 0 => [1,2,4,8,16]
  | 3 => [1,2,4,8]
  | 2 | 4 | 6 => [8,16]
  | _ => []

/-- The bytes of a pixel once samples are widened to whole bytes and palettes to colours. -/
def pixelBytes (header : Header) : Nat :=
  let samples := match header.colour with
    | 2 | 3 => 3
    | 4 => 2
    | 6 => 4
    | _ => 1
  if header.depth = 16 then 2 * samples else samples

/-- No line of pixels may take more memory than this. -/
def lineLimit : Nat := 0x20000000

def Header.isValid (header : Header) : Bool :=
  0 < header.width && 0 < header.height && (depths header.colour).contains header.depth &&
    header.width * pixelBytes header ≤ lineLimit

def chunk (bytes : Bytes) : Option (Bytes × Option Bytes × Bytes) := do
  let (length,rest) ← big 4 bytes
  let (named,rest) ← takeBytes (4 + length) rest
  let (sum,rest) ← big 4 rest
  let contents := if (crc32 named).toNat = sum then some (named.drop 4) else none
  return (named.take 4,contents,rest)

def header (bytes : Bytes) : Option (Header × Bytes) := do
  let (name,contents,rest) ← chunk bytes
  guard (name = ascii "IHDR")
  let contents ← contents
  guard (contents.length = 13)
  let (width,more) ← big 4 contents
  let (height,more) ← big 4 more
  match more with
  | [depth,colour,0,0,interlace] =>
    let header : Header := ⟨width,height,depth.toNat,colour.toNat⟩
    guard (header.isValid && interlace ≤ 1)
    return (header,rest)
  | _ => none

def isCritical (name : Bytes) : Bool := (name.headD 0).toNat / 32 % 2 = 0

structure Preface where
  hasPalette : Bool := false
  frames : Nat := 0

/-- Whether the first frame of an animation is the whole image, and stands at its place in the sequence. -/
def isWholeFrame (header : Header) (place : Nat) (contents : Bytes) : Bool :=
  let numbers := do
    let (sequence,rest) ← big 4 contents
    let (width,rest) ← big 4 rest
    let (height,rest) ← big 4 rest
    let (offset,rest) ← big 8 rest
    let (_,rest) ← big 4 rest
    let (disposal,rest) ← big 1 rest
    let (blending,_) ← big 1 rest
    some (sequence = place && width = header.width && height = header.height && offset = 0 &&
      disposal ≤ 2 && blending ≤ 1)
  numbers.getD false

/-- Takes in a chunk. Of those that may be passed over, only a background colour without the palette that
it is from and a description of a frame can be at fault. -/
def Preface.take (header : Header) (preface : Preface) (name contents : Bytes) : Option Preface :=
  if name = ascii "PLTE" then
    if preface.hasPalette || contents.isEmpty then none else some { preface with hasPalette := true }
  else if name = ascii "bKGD" then
    if header.colour = 3 && !preface.hasPalette then none else some preface
  else if name = ascii "fcTL" then
    if isWholeFrame header preface.frames contents then some { preface with frames := preface.frames + 1 }
    else none
  else if isCritical name then none
  else some preface

/-- Whether image data begins after chunks of other kinds. Data of later frames must not come first, and a
chunk that may be passed over is so if it fails its checksum. -/
def reachesData (header : Header) : (limit : Nat) → Preface → Bytes → Bool
  | 0, _, _ => false
  | limit + 1, preface, bytes =>
    let coming := (bytes.drop 4).take 4
    if coming = ascii "IDAT" then true
    else if coming = ascii "fdAT" then false
    else match chunk bytes with
      | none => false
      | some (name,none,rest) => !isCritical name && reachesData header limit preface rest
      | some (name,some contents,rest) =>
        match preface.take header name contents with
        | some preface => reachesData header limit preface rest
        | none => false

def dimensions (bytes : Bytes) : Option Dimensions := do
  let rest ← expect signature bytes
  let (header,rest) ← header rest
  guard (reachesData header rest.length {} rest)
  return (header.width,header.height)

end PinnedMap.Picture.Png
