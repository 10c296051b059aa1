import PinnedMap.Files.Tree
import PinnedMap.Text.Alphanumeric

/-! What a program finds where it is started: files, and variables, for which there are texts that assign them. Such
a text has a line `NAME=value` each, perhaps after the word `export`. Values may be quoted, and may name variables that
are known already. -/
namespace PinnedMap

abbrev Variables := List (String × String)

/-- A variable that has a value keeps it. -/
def Variables.define (known : Variables) (name value : String) : Variables :=
  if (known.lookup name).isSome then known else (name,value) :: known

namespace Assignments

inductive Spot where
  | start
  | plain
  | blank
  | escaped
  | quoted (quote : Char)
  | quotedEscaped (quote : Char)
  | comment
deriving Repr, DecidableEq

def Spot.isQuoted : Spot → Bool
  | .quoted _ | .quotedEscaped _ => true
  | _ => false

def Spot.isComplete : Spot → Bool
  | .start | .plain | .comment => true
  | _ => false

def Spot.ofChar (c : Char) : Spot :=
  if c = '\\' then .escaped else if c = '"' || c = '\'' then .quoted c else .plain

def Spot.next : Spot → Char → Spot
  | .start, c => if c = '#' then .comment else if Text.isBlank c then .start else .ofChar c
  | .plain, c => if Text.isBlank c && c ≠ '\r' then .blank else .ofChar c
  | .blank, c => if c = '#' then .comment else .ofChar c
  | .escaped, _ => .plain
  | .quoted quote, c => if c = '\\' then .quotedEscaped quote else if c = quote then .plain else .quoted quote
  | .quotedEscaped quote, _ => .quoted quote
  | .comment, _ => .comment

/-- The lines of a text without their comments. Quoted line breaks end no line, and a last line that
breaks off is none. -/
def lines (spot : Spot) (read : List Char) : List Char → List (List Char)
  | [] => if spot.isComplete then [read.reverse] else []
  | c :: rest =>
    if c = '\n' && !spot.isQuoted then read.reverse :: lines .start [] rest
    else
      let spot := spot.next c
      lines spot (if spot = .comment then read else c :: read) rest

inductive Mark where
  | bare
  | single
  | double
  | escaped (inDouble : Bool)
  | name (read : List Char) (inDouble : Bool)
  | braced (read : List Char) (inDouble : Bool)
  /-- After a blank: nothing but a comment may follow. -/
  | over
deriving Repr, DecidableEq

def Mark.around (inDouble : Bool) : Mark := if inDouble then .double else .bare

def meaning (known : Variables) (read : List Char) : List Char :=
  ((known.lookup (String.ofList read.reverse)).getD "").toList

/-- The value that a text stands for, if it is well formed. A name is ended by the character after it,
which stands for itself, be it a quote. -/
def value (known : Variables) : Mark → List Char → Option (List Char)
  | .bare, [] | .over, [] | .escaped false, [] => some []
  | .name read false, [] => some (meaning known read)
  | _, [] => none
  | .bare, c :: rest =>
    if c = '$' then value known (.name [] false) rest
    else if c = '\'' then value known .single rest
    else if c = '"' then value known .double rest
    else if c = '\\' then value known (.escaped false) rest
    else if c = ' ' || c = '\t' then value known .over rest
    else (value known .bare rest).map (c :: ·)
  | .single, c :: rest =>
    if c = '\'' then value known .bare rest else (value known .single rest).map (c :: ·)
  | .double, c :: rest =>
    if c = '$' then value known (.name [] true) rest
    else if c = '"' then value known .bare rest
    else if c = '\\' then value known (.escaped true) rest
    else (value known .double rest).map (c :: ·)
  | .escaped inDouble, c :: rest =>
    if ['\\','\'','"','$',' '].contains c then (value known (.around inDouble) rest).map (c :: ·)
    else if c = 'n' then (value known (.around inDouble) rest).map ('\n' :: ·)
    else none
  | .name read inDouble, c :: rest =>
    if Text.isAlphanumeric c then value known (.name (c :: read) inDouble) rest
    else if c = '\x7b' && read.isEmpty then value known (.braced [] inDouble) rest
    else if c = '$' then (value known (.name [] inDouble) rest).map (meaning known read ++ ·)
    else (value known (.around inDouble) rest).map (meaning known read ++ c :: ·)
  | .braced read inDouble, c :: rest =>
    if c = '\x7d' then (value known (.around inDouble) rest).map (meaning known read ++ ·)
    else value known (.braced (c :: read) inDouble) rest
  | .over, c :: rest =>
    if c = ' ' || c = '\t' then value known .over rest else if c = '#' then some [] else none

inductive Line where
  | empty
  | assigns (name value : String)
  | malformed
deriving Repr, DecidableEq

def isNameChar (c : Char) : Bool := c.isAlphanum || c = '_' || c = '.'

def name? (text : List Char) : Option (List Char × List Char) :=
  match text with
  | c :: _ =>
    if c.isAlpha || c = '_' then some (text.takeWhile isNameChar,Text.trimStart (text.dropWhile isNameChar))
    else none
  | [] => none

/-- The name that a text assigns and the text of its value. The word `export` is a name of its own where
the equals sign follows it. -/
def target? (text : List Char) : Option (List Char × List Char) := do
  let (name,rest) ← name? text
  match rest with
  | '=' :: rest => return (name,Text.trimStart rest)
  | _ =>
    if name ≠ "export".toList then none
    let (name,'=' :: rest) ← name? rest | none
    return (name,Text.trimStart rest)

def Line.ofChars (known : Variables) (line : List Char) : Line :=
  let text := Text.trimStart (Text.trimEnd line)
  if text.isEmpty || text.head? = some '#' then .empty
  else match target? text with
    | none => .malformed
    | some (name,rest) =>
      let read := if rest.head? = some '#' then some [] else value known .bare rest
      match read with
      | some value => .assigns (String.ofList name) (String.ofList value)
      | none => .malformed

/-- Carries lines out in order, up to the first that is malformed. -/
def apply : List (List Char) → Variables → Variables
  | [], known => known
  | line :: lines, known =>
    match Line.ofChars known line with
    | .empty => apply lines known
    | .assigns name value => apply lines (known.define name value)
    | .malformed => known

/-- The text of a file up to the first line that is not UTF-8, without a mark of its byte order. -/
def readable (bytes : List UInt8) : List Char :=
  let lines := (broken bytes).map fun line => String.fromUTF8? ⟨line.toArray⟩
  let text := (lines.takeWhile Option.isSome).flatMap fun line => (line.getD "").toList
  if text.head? = some '\uFEFF' then text.drop 1 else text
where
  broken : List UInt8 → List (List UInt8)
    | [] => []
    | byte :: bytes =>
      let lines := broken bytes
      if byte = 10 then [byte] :: lines
      else match lines with
        | [] => [[byte]]
        | line :: lines => (byte :: line) :: lines

def mentioned : List Char → List String
  | [] => []
  | c :: rest =>
    let others := mentioned rest
    if c ≠ '$' then others
    else match rest with
      | '\x7b' :: inner => String.ofList (inner.takeWhile (· ≠ '\x7d')) :: others
      | _ => String.ofList (rest.takeWhile Text.isAlphanumeric) :: others

/-- What may be names in a text: those that it assigns and those that it mentions. -/
def words (text : List Char) : List String :=
  let runs := (text.splitBy fun a b => isNameChar a && isNameChar b).filter (·.any isNameChar)
  runs.map String.ofList ++ mentioned text

def load (bytes : List UInt8) (known : Variables) : Variables :=
  apply (lines .start [] (readable bytes)) known

end Assignments

structure Surroundings where
  files : Files
  environment : Variables := []
  directory : String
  programDirectory : Option String := none

namespace Surroundings

/-- Where a file of variables may stand: in the working directory, or else in the nearest one above. -/
def variableFiles (directory : String) : List String :=
  (Path.ancestors directory).map (Path.within · ".env")

def loadVariables (surroundings : Surroundings) : Surroundings :=
  match (variableFiles surroundings.directory).findSome? surroundings.files.bytes? with
  | some bytes => { surroundings with environment := Assignments.load bytes surroundings.environment }
  | none => surroundings

end Surroundings
end PinnedMap
