import PinnedMap.Picture.Bytes

/-! JPEG: a row of marked segments, one of which describes the frame. The header ends where the scan
begins, so the file is read up to there. -/
namespace PinnedMap.Picture.Jpeg

structure Component where
  id : Nat
  horizontal : Nat
  vertical : Nat
  table : Nat

structure Frame where
  width : Nat
  height : Nat
  components : List Component

def isSampling (factor : Nat) : Bool := 1 ≤ factor && factor ≤ 4

def Component.isValid (component : Component) : Bool :=
  isSampling component.horizontal && isSampling component.vertical && component.table < 4

def readComponents : (count : Nat) → Bytes → Option (List Component × Bytes)
  | 0, bytes => some ([],bytes)
  | count + 1, id :: sampling :: table :: rest => do
    let component : Component := ⟨id.toNat,sampling.toNat / 16,sampling.toNat % 16,table.toNat⟩
    guard component.isValid
    let (components,rest) ← readComponents count rest
    return (component :: components,rest)
  | _ + 1, _ => none

def frame (bytes : Bytes) : Option (Frame × Bytes) := do
  let (length,rest) ← big 2 bytes
  let (precision,rest) ← big 1 rest
  let (height,rest) ← big 2 rest
  let (width,rest) ← big 2 rest
  let (count,rest) ← big 1 rest
  guard (precision = 8 && 0 < width && 0 < height && 0 < count && count ≤ 4 && length = 8 + 3 * count)
  let (components,rest) ← readComponents count rest
  return (⟨width,height,components⟩,rest)

def skipSegment (bytes : Bytes) : Option Bytes := do
  let (length,rest) ← big 2 bytes
  guard (2 ≤ length)
  return rest.drop (length - 2)

def quantization : (limit left : Nat) → Bytes → Option Bytes
  | _, 0, bytes => some bytes
  | 0, _, _ => none
  | limit + 1, left, bytes => do
    let (info,rest) ← big 1 bytes
    let size := 64 * (info / 16 + 1)
    guard (info / 16 ≤ 1 && info % 16 < 4 && size + 1 ≤ left)
    quantization limit (left - (size + 1)) (← skipBytes size rest)

/-- Whether codes of each length, counted up from the shortest, leave the code of ones alone free. -/
def leaveRoom : (length code : Nat) → (counts : List Nat) → Bool
  | _, _, [] => true
  | length, code, count :: counts =>
    let next := 2 * code + count
    next < 1 <<< length && leaveRoom (length + 1) next counts

/-- The code tables of one segment: how many codes there are of each length, and their symbols. Those of
the first class count bits, and there are no more than fifteen. -/
def codes : (limit left : Nat) → Bytes → Option Bytes
  | 0, _, _ => none
  | limit + 1, left, bytes =>
    if left ≤ 16 then if left = 0 then some bytes else none
    else do
      let (info,rest) ← big 1 bytes
      guard (info / 16 ≤ 1 && info % 16 < 4)
      let (counts,rest) ← takeBytes 16 rest
      let total := (counts.map (·.toNat)).sum
      guard (total ≤ 256 && total + 17 ≤ left && leaveRoom 1 0 (counts.map (·.toNat)))
      let (symbols,rest) ← takeBytes total rest
      guard (info / 16 = 1 || symbols.all (· ≤ 15))
      codes limit (left - (total + 17)) rest

def lengthOfRest (bytes : Bytes) : Option (Nat × Bytes) := do
  let (length,rest) ← big 2 bytes
  guard (2 ≤ length)
  return (length - 2,rest)

def skipNamed (bytes : Bytes) : Option Bytes := do
  let (length,rest) ← big 2 bytes
  if (ascii "Adobe").isPrefixOf rest then
    let (transform,_) ← big 1 (rest.drop 11)
    guard (transform ≤ 2 && 14 ≤ length)
  skipSegment bytes

def scan (frame : Frame) (bytes : Bytes) : Option Unit := do
  let (length,rest) ← big 2 bytes
  let (count,rest) ← big 1 rest
  guard (length = 6 + 2 * count && 1 ≤ count && count ≤ 4)
  let (named,rest) ← takeBytes (2 * count) rest
  let ids := (List.range count).map fun i => (named.getD (2 * i) 0).toNat
  guard (ids.eraseDups.length = count && ids.all fun id => frame.components.any (·.id = id))
  let (first,rest) ← big 1 rest
  let (last,rest) ← big 1 rest
  let (approximation,_) ← big 1 rest
  guard (first ≤ 63 && last ≤ 63 && approximation / 16 ≤ 13 && approximation % 16 ≤ 13)

/-- Markers up to that of the scan. Bytes between segments are passed over, as are fill bytes and segments
of kinds that say nothing of the size. -/
def walk : (limit : Nat) → (frame : Option Frame) → (afterMark : Bool) → Bytes → Option Frame
  | 0, _, _, _ | _, _, _, [] => none
  | limit + 1, found, afterMark, byte :: rest =>
    if !afterMark then walk limit found (byte = 0xFF) rest
    else match byte.toNat with
      | 0xFF => walk limit found true rest
      | 0x00 => walk limit found false rest
      | 0xC0 | 0xC1 | 0xC2 =>
        if found.isSome then none
        else do
          let (frame,rest) ← frame rest
          walk limit (some frame) false rest
      | 0xCC | 0xDC | 0xD9 => none
      | 0xDB => do
        let (left,rest) ← lengthOfRest rest
        walk limit found false (← quantization rest.length left rest)
      | 0xC4 => do
        let (left,rest) ← lengthOfRest rest
        walk limit found false (← codes (rest.length + 1) left rest)
      | 0xDD => do
        let (length,rest) ← big 2 rest
        guard (length = 4)
        walk limit found false (← skipBytes 2 rest)
      | 0xDA => do
        let frame ← found
        scan frame rest
        return frame
      | 0xEE => do walk limit found false (← skipNamed rest)
      | _ => do walk limit found false (← skipSegment rest)

def dimensions (bytes : Bytes) : Option Dimensions := do
  let rest ← expect [0xFF, 0xD8] bytes
  let frame ← walk rest.length none false rest
  return (frame.width,frame.height)

end PinnedMap.Picture.Jpeg
