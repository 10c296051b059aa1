import PinnedMap.Picture.Bytes
import PinnedMap.Text.Blank

/-! The portable bitmaps, graymaps, pixmaps and arbitrary maps: headers of words and numbers. -/
namespace PinnedMap.Picture.Pnm

def dropComments (inComment : Bool) : Bytes → Bytes
  | [] => []
  | byte :: rest =>
    if inComment then dropComments (byte ≠ 10 && byte ≠ 13) rest
    else if byte = 35 then dropComments true rest
    else byte :: dropComments false rest

def isSpace (byte : UInt8) : Bool := (9 ≤ byte && byte ≤ 13) || byte = 32

def number? (digits : List Char) : Option Nat :=
  if digits.isEmpty || !digits.all Char.isDigit then none
  else
    let value := digits.foldl (fun n c => n * 10 + (c.toNat - 48)) 0
    if value < 0x100000000 then some value else none

def chars (bytes : Bytes) : List Char := bytes.map fun byte => Char.ofNat byte.toNat

def nextNumber (bytes : Bytes) : Option (Nat × Bytes) := do
  let start := bytes.dropWhile isSpace
  let word := start.takeWhile (!isSpace ·)
  let value ← number? (chars word)
  return (value,start.drop (word.length + 1))

def plain (hasMaximum : Bool) (sampleCount : Nat) (bytes : Bytes) : Option Dimensions := do
  let text := dropComments false bytes
  let (width,text) ← nextNumber text
  let (height,text) ← nextNumber text
  let maximum ← if hasMaximum then (nextNumber text).map (·.1) else some 1
  guard (0 < maximum && maximum ≤ 0xFFFF)
  let pixel := if maximum ≤ 0xFF then sampleCount else 2 * sampleCount
  guard (width * height ≤ 0xFFFFFFFFFFFFFFFF / pixel)
  return (width,height)

structure Lines where
  width : Option Nat := none
  height : Option Nat := none
  depth : Option Nat := none
  maximum : Option Nat := none
  kind : Option (List Char) := none

def fill (slot : Option Nat) (rest : List Char) : Option (Option Nat) :=
  match slot, Text.trim rest with
  | some _, _ => none
  | none, '+' :: digits => (number? digits).map some
  | none, digits => (number? digits).map some

def isSpaceChar (c : Char) : Bool := (9 ≤ c.toNat && c.toNat ≤ 13) || c = ' '

def takeLine (lines : Lines) (line : List Char) : Option (Lines × Bool) := do
  let cut := (line.takeWhile (!isSpaceChar ·)).length
  let start := Text.trimStart line
  let rest := start.drop cut
  match String.ofList (start.take cut) with
  | "ENDHDR" => return (lines,true)
  | "WIDTH" => return ({ lines with width := ← fill lines.width rest },false)
  | "HEIGHT" => return ({ lines with height := ← fill lines.height rest },false)
  | "DEPTH" => return ({ lines with depth := ← fill lines.depth rest },false)
  | "MAXVAL" => return ({ lines with maximum := ← fill lines.maximum rest },false)
  | "TUPLTYPE" =>
    let word := Text.trim rest
    let kind := match lines.kind with
      | some words => words ++ ' ' :: word
      | none => word
    return ({ lines with kind := some kind },false)
  | _ => none

def readLines : (limit : Nat) → Lines → Bytes → Option Lines
  | 0, _, _ | _, _, [] => none
  | limit + 1, lines, bytes => do
    let line := bytes.takeWhile (· ≠ 10)
    let rest := bytes.drop (line.length + 1)
    if bytes.head? = some 35 then readLines limit lines rest
    else
      guard (line.all (· < 128))
      let (lines,isLast) ← takeLine lines (chars line)
      if isLast then return lines else readLines limit lines rest

def isDecodable (depth maximum : Nat) (kind : Option (List Char)) : Bool :=
  match kind.map String.ofList with
  | none => depth = 1 || depth = 3
  | some "BLACKANDWHITE" => depth = 1 && maximum = 1
  | some "GRAYSCALE" => (depth = 1 || (depth = 0 && 0xFF < maximum)) && maximum ≤ 0xFFFF
  | some "RGB" => depth = 3 && maximum ≤ 0xFFFF
  | some _ => false

def arbitrary (bytes : Bytes) : Option Dimensions := do
  let text ← expect [10] bytes
  let lines ← readLines (text.length + 1) {} text
  let width ← lines.width
  let height ← lines.height
  let depth ← lines.depth
  let maximum ← lines.maximum
  guard (0 < maximum && isDecodable depth maximum lines.kind)
  return (width,height)

def dimensions : Bytes → Option Dimensions
  | 80 :: kind :: rest =>
    match kind.toNat with
    | 49 | 52 => plain false 1 rest
    | 50 | 53 => plain true 1 rest
    | 51 | 54 => plain true 3 rest
    | 55 => arbitrary rest
    | _ => none
  | _ => none

end PinnedMap.Picture.Pnm
