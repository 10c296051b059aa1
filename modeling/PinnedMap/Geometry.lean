import PinnedMap.Decimal.Form

/-! Sizes, gates, and the ratio that takes a gate from the image's natural space to its rendered one. -/
namespace PinnedMap

open Decimal

structure Size where
  width : Float
  height : Float
deriving Repr, DecidableEq, Inhabited

def Size.zero : Size := ⟨0,0⟩

structure Gate where
  x : Float
  y : Float
  label : Option String := none
deriving Repr, DecidableEq, Inhabited

inductive ScaleMode where
  /-- The width's factor serves both axes, which is right where layout keeps the aspect ratio. -/
  | uniform
  | perAxis
deriving Repr, DecidableEq, Inhabited

structure Ratio where
  x : Float
  y : Float
deriving Repr, DecidableEq, Inhabited

inductive ScaleFault where
  | unusableWidth (width : Float)
  | unusableHeight (height : Float)
deriving Repr, DecidableEq

def ScaleFault.message : ScaleFault → String
  | .unusableWidth width => "image has no usable natural width (" ++ plainText width ++ ")"
  | .unusableHeight height => "image has no usable natural height (" ++ plainText height ++ ")"

def isUsable (length : Float) : Bool := !(length.isNaN || length ≤ 0)

def Ratio.between (rendered natural : Size) (mode : ScaleMode) : Except ScaleFault Ratio :=
  if !isUsable natural.width then .error (.unusableWidth natural.width)
  else
    let x := rendered.width / natural.width
    match mode with
    | .uniform => .ok ⟨x,x⟩
    | .perAxis =>
      if !isUsable natural.height then .error (.unusableHeight natural.height)
      else .ok ⟨x,rendered.height / natural.height⟩

def Ratio.isIdentity (ratio : Ratio) : Bool := ratio.x == 1 && ratio.y == 1

def Ratio.left (ratio : Ratio) (gate : Gate) : Float := gate.x * ratio.x

def Ratio.top (ratio : Ratio) (gate : Gate) : Float := gate.y * ratio.y

/-- The lesser number; NaN gives way to a number. -/
def lesser (a b : Float) : Float := if a.isNaN || b < a then b else a

/-- The greater number; NaN gives way to a number, `-0` to `0`. -/
def greater (a b : Float) : Float := if a.isNaN || a < b || (a == b && isNegative a) then b else a

end PinnedMap
