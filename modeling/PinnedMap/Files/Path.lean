import PinnedMap.Text.Blank

/-! Paths as texts: names with slashes between them. -/
namespace PinnedMap.Path

def isAbsolute (path : String) : Bool := path.toList.head? = some '/'

def within (directory path : String) : String :=
  if isAbsolute path || directory.isEmpty then path
  else if directory.toList.getLast? = some '/' then directory ++ path
  else directory ++ "/" ++ path

def names (path : String) : List String := (Text.splitOn '/' path.toList).map String.ofList

def longest : Nat := 4095

def longestName : Nat := 255

def isUsable (path : String) : Bool :=
  !path.isEmpty && path.utf8ByteSize ≤ longest && !path.toList.contains '\x00'

def ancestors (directory : String) : List String :=
  let above := (names directory).filter (· ≠ "")
  (List.range (above.length + 1)).map fun steps => "/" ++ "/".intercalate (above.take (above.length - steps))

def fileName (path : String) : List Char := (Text.splitOn '/' path.toList).getLastD []

def parent (path : String) : String :=
  let before := path.toList.take (path.toList.length - (fileName path).length)
  String.ofList (if before.length ≤ 1 then before else before.dropLast)

def extension? (path : String) : Option (List Char) :=
  let parts := Text.splitOn '.' (fileName path)
  match parts with
  | [] | [_] | [[],_] => none
  | _ => parts.getLast?

end PinnedMap.Path
