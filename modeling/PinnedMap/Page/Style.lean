import PinnedMap.Geometry
import PinnedMap.Text.Blank

/-! Inline styles and the fixed tables that an image map writes. -/
namespace PinnedMap

open Decimal

inductive StyleValue where
  | text (words : String)
  | number (value : Float)
deriving Repr, DecidableEq

def StyleValue.written : StyleValue → String
  | .text words => words
  | .number value => plainText value

def px (length : Float) : String := plainText length ++ "px"

abbrev StyleTable := List (String × StyleValue)

/-- The image fills its wrapper from the top left corner. -/
def imageStyles : StyleTable :=
  [("width",.text "100%"),("height",.text "100%"),("left",.number 0),("top",.number 0)]

/-- With this transform `left` and `top` place the centre of an element, not its corner. -/
def bindingStyles : StyleTable :=
  [("position",.text "absolute"),("transform",.text "translate(-50%, -50%)")]

/-- The wrapper is the containing block of the elements bound to gates. -/
def wrapperStyles (maxWidth : Float) : StyleTable :=
  [("display",.text "flex"),("position",.text "relative"),("max-width",.text (px maxWidth)),
    ("width",.text "fit-content"),("height",.text "fit-content")]

def placeStyles (left top : Float) : StyleTable := [("left",.text (px left)),("top",.text (px top))]

structure Styles where
  entries : List (String × String) := []
deriving Repr, DecidableEq, Inhabited

def Styles.get? (styles : Styles) (property : String) : Option String := styles.entries.lookup property

def Styles.set (styles : Styles) (property text : String) : Styles :=
  if styles.entries.any (·.1 == property) then
    ⟨styles.entries.map fun entry => if entry.1 == property then (property,text) else entry⟩
  else ⟨styles.entries ++ [(property,text)]⟩

end PinnedMap
