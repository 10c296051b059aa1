import PinnedMap.Text.Blank

/-! The four forms of TOML strings: with escapes or literal, on one line or on several. A text is
written in the first form that shows it without escapes, and with escapes if there is none. -/
namespace PinnedMap.Toml

def isPlain (c : Char) : Bool := c = '\t' || (0x20 ≤ c.toNat && c.toNat ≠ 0x7F)

def newline? : List Char → Option (List Char)
  | '\n' :: rest => some rest
  | '\r' :: '\n' :: rest => some rest
  | _ => none

def isSpace (c : Char) : Bool := c = ' ' || c = '\t'

def skipSpace (text : List Char) : List Char := text.dropWhile isSpace

def skipBlankLines : List Char → List Char
  | '\n' :: rest => skipBlankLines rest
  | '\r' :: '\n' :: rest => skipBlankLines rest
  | c :: rest => if isSpace c then skipBlankLines rest else c :: rest
  | [] => []

structure Quoting where
  quote : Char
  hasEscapes : Bool
  isMultiline : Bool
deriving Repr, DecidableEq

namespace Quoting

def basic : Quoting := ⟨'"',true,false⟩

def literal : Quoting := ⟨'\'',false,false⟩

def basicLines : Quoting := ⟨'"',true,true⟩

def literalLines : Quoting := ⟨'\'',false,true⟩

def delimiter (form : Quoting) : List Char := List.replicate (if form.isMultiline then 3 else 1) form.quote

def codePoint (width : Nat) (text : List Char) : Option (Char × List Char) := do
  let digits := text.take width
  guard (digits.length = width)
  let c ← Text.scalar? (← Text.hexValue? digits)
  return (c,text.drop width)

def escape? : List Char → Option (Char × List Char)
  | '"' :: rest => some ('"',rest)
  | '\\' :: rest => some ('\\',rest)
  | 'b' :: rest => some ('\x08',rest)
  | 'f' :: rest => some ('\x0c',rest)
  | 'n' :: rest => some ('\n',rest)
  | 'r' :: rest => some ('\r',rest)
  | 't' :: rest => some ('\t',rest)
  | 'u' :: rest => codePoint 4 rest
  | 'U' :: rest => codePoint 8 rest
  | _ => none

/-- The text up to the quotes that end it, and what follows them. A backslash at the end of a line
joins the lines. On several lines one or two quotes are text, also right before the end. -/
def body (form : Quoting) : (limit : Nat) → List Char → Option (List Char × List Char)
  | 0, _ | _, [] => none
  | limit + 1, c :: rest =>
    if c = form.quote then
      if !form.isMultiline then some ([],rest)
      else
        let run := (rest.takeWhile (· = c)).length + 1
        if run < 3 then
          (body form limit (rest.drop (run - 1))).map fun (text,after) => (List.replicate run c ++ text,after)
        else some (List.replicate (min (run - 3) 2) c,rest.drop (min run 5 - 1))
    else if form.hasEscapes && c = '\\' then
      match if form.isMultiline then newline? (skipSpace rest) else none with
      | some next => body form limit (skipBlankLines next)
      | none => do
        let (d,rest) ← escape? rest
        let (text,after) ← body form limit rest
        return (d :: text,after)
    else if isPlain c then (body form limit rest).map fun (text,after) => (c :: text,after)
    else if form.isMultiline then do
      let (text,after) ← body form limit (← newline? (c :: rest))
      return ('\n' :: text,after)
    else none

/-- A string of this form at the start of a text. A line break right after three quotes is not part of it. -/
def read (form : Quoting) (text : List Char) : Option (String × List Char) := do
  let rest ← Text.without? form.delimiter text
  let rest := if form.isMultiline then (newline? rest).getD rest else rest
  let (text,after) ← form.body (rest.length + 1) rest
  return (String.ofList text,after)

def isControl (c : Char) : Bool := c.toNat < 0x20 || c.toNat = 0x7F

def isHidden (c : Char) : Bool := isControl c && c ≠ '\t' && c ≠ '\n'

def longestRun (c : Char) : (run : Nat) → List Char → Nat
  | run, [] => run
  | run, d :: text => if d = c then longestRun c (run + 1) text else max run (longestRun c 0 text)

def ofText (text : List Char) : Quoting :=
  let hasHidden := text.any isHidden
  let hasBackslash := text.contains '\\'
  let hasLines := text.contains '\n'
  let doubles := longestRun '"' 0 text
  let singles := longestRun '\'' 0 text
  if !hasHidden && !hasBackslash && doubles = 0 && !hasLines then basic
  else if !hasHidden && singles = 0 && !hasLines then literal
  else if !hasHidden && !hasBackslash && doubles ≤ 2 then basicLines
  else if !hasHidden && singles ≤ 2 then literalLines
  else if hasLines then basicLines
  else basic

def upperHex (width n : Nat) : List Char := (Text.hex width n).map Char.toUpper

def shown (form : Quoting) (c : Char) : List Char :=
  if !form.hasEscapes then [c]
  else match c with
    | '\\' => ['\\','\\']
    | '\x08' => ['\\','b']
    | '\t' => ['\\','t']
    | '\x0c' => ['\\','f']
    | '\r' => ['\\','r']
    | '\n' => if form.isMultiline then ['\n'] else ['\\','n']
    | _ => if isControl c then '\\' :: 'u' :: upperHex 4 c.toNat else [c]

/-- The body of a string, `run` quotes in. On several lines every third quote of a run is escaped. -/
def bodyText (form : Quoting) : (run : Nat) → List Char → List Char
  | _, [] => []
  | run, c :: text =>
    if c = '"' && form.hasEscapes then
      if form.isMultiline && run < 2 then '"' :: bodyText form (run + 1) text
      else '\\' :: '"' :: bodyText form 0 text
    else form.shown c ++ bodyText form 0 text

/-- Text with line breaks begins on a line of its own. -/
def write (form : Quoting) (text : List Char) : List Char :=
  let start := if form.isMultiline && text.contains '\n' then ['\n'] else []
  form.delimiter ++ start ++ form.bodyText 0 text ++ form.delimiter

end Quoting

def quoted (text : String) : List Char := (Quoting.ofText text.toList).write text.toList

end PinnedMap.Toml
