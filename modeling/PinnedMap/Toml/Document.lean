import PinnedMap.Toml.Number
import PinnedMap.Toml.Quoting

/-! The parts of a TOML text in their order: key-value pairs, first on their own and then under the
headers of tables. What the parts make together is not looked at here. At the end is how parts are written. -/
namespace PinnedMap.Toml

structure Key where
  outer : List String
  name : String
deriving Repr, DecidableEq, Inhabited

inductive Value where
  | text (value : String)
  | integer (value : Int)
  | decimal (value : Float)
  | truth (value : Bool)
  | moment
  | array (items : List Value)
  | table (pairs : List (Key × Value))
deriving Repr, Inhabited

abbrev Pair := Key × Value

inductive Header where
  | table (key : Key)
  | element (key : Key)
deriving Repr, DecidableEq

structure Section where
  header : Header
  pairs : List Pair
deriving Repr

structure Document where
  top : List Pair
  sections : List Section
deriving Repr

/-- How many names a key may have, and how deep brackets may stand in brackets. -/
def depthLimit : Nat := 79

def isBare (c : Char) : Bool := c.isAlphanum || c = '-' || c = '_'

def bareName? (text : List Char) : Option (String × List Char) :=
  let name := text.takeWhile isBare
  if name.isEmpty then none else some (String.ofList name,text.dropWhile isBare)

def name? (text : List Char) : Option (String × List Char) :=
  match text with
  | '"' :: _ => Quoting.basic.read text
  | '\'' :: _ => Quoting.literal.read text
  | _ => bareName? text

namespace Key

def readWithin : (limit : Nat) → List Char → Option (Key × List Char)
  | 0, _ => none
  | limit + 1, text => do
    let (name,rest) ← name? (skipSpace text)
    match skipSpace rest with
    | '.' :: rest =>
      let (key,rest) ← readWithin limit rest
      return (⟨name :: key.outer,key.name⟩,rest)
    | rest => return (⟨[],name⟩,rest)

def read (text : List Char) : Option (Key × List Char) := readWithin depthLimit text

def readAssigned (text : List Char) : Option (Key × List Char) := do
  let (key,rest) ← read text
  match rest with
  | '=' :: rest => return (key,skipSpace rest)
  | _ => none

end Key

def skipGap : (inComment : Bool) → List Char → List Char
  | _, '\n' :: rest => skipGap false rest
  | _, '\r' :: '\n' :: rest => skipGap false rest
  | true, c :: rest => if isPlain c then skipGap true rest else c :: rest
  | false, '#' :: rest => skipGap true rest
  | false, c :: rest => if isSpace c then skipGap false rest else c :: rest
  | _, [] => []

def lineEnd? (text : List Char) : Option (List Char) :=
  let rest := match skipSpace text with
    | '#' :: rest => rest.dropWhile isPlain
    | rest => rest
  if rest.isEmpty then some [] else newline? rest

namespace Value

def ofText (read : List Char → Option (String × List Char)) (chars : List Char) : Option (Value × List Char) :=
  (read chars).map fun (value,rest) => (.text value,rest)

def readText (chars : List Char) : Option (Value × List Char) :=
  match chars with
  | '"' :: '"' :: '"' :: _ => ofText Quoting.basicLines.read chars
  | '"' :: _ => ofText Quoting.basic.read chars
  | '\'' :: '\'' :: '\'' :: _ => ofText Quoting.literalLines.read chars
  | _ => ofText Quoting.literal.read chars

def readDecimal (read : List Char → Option (Float × List Char)) (chars : List Char) : Option (Value × List Char) :=
  (read chars).map fun (value,rest) => (.decimal value,rest)

def readNumber (chars : List Char) : Option (Value × List Char) :=
  match Moment.read? chars with
  | some rest => some (.moment,rest)
  | none =>
    match (readDecimal decimal? chars).or (readDecimal special? chars) with
    | some found => some found
    | none => (integer? chars).map fun (value,rest) => (.integer value,rest)

def readTruth (chars : List Char) : Option (Value × List Char) :=
  match Text.without? "true".toList chars with
  | some rest => some (.truth true,rest)
  | none => (Text.without? "false".toList chars).map (.truth false,·)

def readPlain (chars : List Char) : Option (Value × List Char) :=
  match chars with
  | '"' :: _ | '\'' :: _ => readText chars
  | 't' :: _ | 'f' :: _ => readTruth chars
  | _ => readNumber chars

mutual

def readWithin : (limit depth : Nat) → List Char → Option (Value × List Char)
  | 0, _, _ => none
  | limit + 1, depth, '[' :: rest =>
    match depth with
    | 0 => none
    | depth + 1 => (readItems limit depth (skipGap false rest)).map fun (items,rest) => (.array items,rest)
  | limit + 1, depth, '\x7b' :: rest =>
    match depth, skipSpace rest with
    | 0, _ => none
    | _ + 1, '\x7d' :: rest => some (.table [],rest)
    | depth + 1, rest => (readPairs limit depth rest).map fun (pairs,rest) => (.table pairs,rest)
  | _ + 1, _, chars => readPlain chars

def readItems : (limit depth : Nat) → List Char → Option (List Value × List Char)
  | 0, _, _ => none
  | _ + 1, _, ']' :: rest => some ([],rest)
  | limit + 1, depth, chars => do
    let (item,rest) ← readWithin limit depth chars
    match skipGap false rest with
    | ',' :: rest =>
      let (items,rest) ← readItems limit depth (skipGap false rest)
      return (item :: items,rest)
    | ']' :: rest => return ([item],rest)
    | _ => none

def readPairs : (limit depth : Nat) → List Char → Option (List (Key × Value) × List Char)
  | 0, _, _ => none
  | limit + 1, depth, chars => do
    let (key,rest) ← Key.readAssigned chars
    let (value,rest) ← readWithin limit depth rest
    match skipSpace rest with
    | ',' :: rest =>
      let (pairs,rest) ← readPairs limit depth rest
      return ((key,value) :: pairs,rest)
    | '\x7d' :: rest => return ([(key,value)],rest)
    | _ => none

end

def read (chars : List Char) : Option (Value × List Char) := readWithin (2 * chars.length + 1) depthLimit chars

end Value

def readPair (text : List Char) : Option (Pair × List Char) := do
  let (key,rest) ← Key.readAssigned text
  let (value,rest) ← Value.read rest
  return ((key,value),← lineEnd? rest)

def readPairs : (limit : Nat) → List Char → Option (List Pair × List Char)
  | 0, _ => none
  | limit + 1, text =>
    match skipSpace text with
    | [] => some ([],[])
    | '[' :: rest => some ([],'[' :: rest)
    | c :: rest =>
      if c = '#' || c = '\n' || c = '\r' then (lineEnd? (c :: rest)).bind (readPairs limit)
      else do
        let (pair,rest) ← readPair (c :: rest)
        let (pairs,rest) ← readPairs limit rest
        return (pair :: pairs,rest)

namespace Header

def read (text : List Char) : Option (Header × List Char) :=
  match text with
  | '[' :: '[' :: rest => do
    let (key,rest) ← Key.read rest
    let ']' :: ']' :: rest := rest | none
    return (.element key,← lineEnd? rest)
  | '[' :: rest => do
    let (key,rest) ← Key.read rest
    let ']' :: rest := rest | none
    return (.table key,← lineEnd? rest)
  | _ => none

end Header

def readSections : (limit : Nat) → List Char → Option (List Section)
  | 0, _ => none
  | _ + 1, [] => some []
  | limit + 1, text => do
    let (header,rest) ← Header.read text
    let (pairs,rest) ← readPairs (rest.length + 1) rest
    let sections ← readSections limit rest
    return ⟨header,pairs⟩ :: sections

/-- The parts of a text. A byte order mark in front is passed over. -/
def Document.ofChars (text : List Char) : Option Document := do
  let text := match text with | '\uFEFF' :: rest => rest | _ => text
  let (top,rest) ← readPairs (text.length + 1) text
  let sections ← readSections (rest.length + 1) rest
  return ⟨top,sections⟩

/-- Elements that are written already. One stands right between the brackets, more on lines of their own. -/
def array : List (List Char) → List Char
  | [] => ['[',']']
  | [item] => '[' :: item ++ [']']
  | items => '[' :: '\n' :: items.flatMap (fun item => "    ".toList ++ item ++ [',','\n']) ++ [']']

def line (name : String) (value : List Char) : List Char := name.toList ++ " = ".toList ++ value ++ ['\n']

def table (name : String) (lines : List (List Char)) : List Char := '[' :: name.toList ++ [']','\n'] ++ lines.flatten

def element (name : String) (lines : List (List Char)) : List Char :=
  '[' :: '[' :: name.toList ++ [']',']','\n'] ++ lines.flatten

def tables (parts : List (List Char)) : List Char := Text.join ['\n'] parts

end PinnedMap.Toml
