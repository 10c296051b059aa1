import PinnedMap.Picture.Bytes

/-! BMP: a header of one of several sizes, with colour masks or a palette after it. A negative height
only means that the lines run downwards. -/
namespace PinnedMap.Picture.Bmp

structure Header where
  width : Nat
  height : Nat
  bits : Nat
  compression : Nat
  /-- How many colours the palette has; zero for as many as the bits allow. -/
  colours : Nat
  colourBytes : Nat

def coreHeader (bytes : Bytes) : Option Header := do
  let (width,rest) ← little 2 bytes
  let (height,rest) ← little 2 rest
  let (planes,rest) ← little 2 rest
  let (bits,_) ← little 2 rest
  guard (planes = 1 && [1,4,8,24].contains bits)
  return ⟨width,height,bits,0,0,3⟩

def bitCounts : (compression : Nat) → List Nat
  | 0 => [1,2,4,8,16,24,32]
  | 1 => [8]
  | 2 => [4]
  | 3 => [16,32]
  | _ => []

def infoHeader (bytes : Bytes) : Option Header := do
  let (width,rest) ← little 4 bytes
  let (height,rest) ← little 4 rest
  let (planes,rest) ← little 2 rest
  let (bits,rest) ← little 2 rest
  let (compression,rest) ← little 4 rest
  let rest ← skipBytes 12 rest
  let (colours,rest) ← little 4 rest
  let _ ← skipBytes 4 rest
  guard (signed32 width ≤ 0xFFFF && 0 ≤ signed32 width && signed32 height ≤ 0xFFFF && height ≠ 0x80000000)
  guard (planes = 1 && (bitCounts compression).contains bits)
  guard (0 ≤ signed32 height || compression = 0 || compression = 3)
  return ⟨width,(signed32 height).natAbs,bits,compression,colours,4⟩

def isMask (bits mask : Nat) : Bool :=
  let below := ((List.range 32).takeWhile fun i => (mask >>> i) % 2 = 0).length
  let run := mask >>> below
  mask >>> bits = 0 && (run + 1) &&& run = 0

/-- The masks for red, green and blue, and in headers that have room for it one for opacity, which alone
may be empty. -/
def masksAreValid (size bits : Nat) (bytes : Bytes) : Bool :=
  let masks := do
    let (red,rest) ← little 4 bytes
    let (green,rest) ← little 4 rest
    let (blue,rest) ← little 4 rest
    let (opacity,_) ← if 56 ≤ size then little 4 rest else some (0,rest)
    some ([red,green,blue],opacity)
  match masks with
  | some (colours,opacity) => colours.all (fun mask => mask ≠ 0 && isMask bits mask) && isMask bits opacity
  | none => false

def hasPalette (header : Header) (bytes : Bytes) : Bool :=
  let limit := 1 <<< header.bits
  let colours := if header.colours = 0 then limit else header.colours
  colours ≤ limit && (skipBytes (min colours 256 * header.colourBytes) bytes).isSome

def dimensions (bytes : Bytes) : Option Dimensions := do
  let rest ← expect (ascii "BM") bytes
  let rest ← skipBytes 12 rest
  let (size,body) ← little 4 rest
  let header ← match size with
    | 12 => coreHeader body
    | 40 | 52 | 56 | 108 | 124 => infoHeader body
    | _ => none
  guard (0 < header.width && 0 < header.height)
  if header.compression = 3 then guard (masksAreValid size header.bits (body.drop 36))
  if header.bits ≤ 8 then guard (hasPalette header (rest.drop size))
  return (header.width,header.height)

end PinnedMap.Picture.Bmp
