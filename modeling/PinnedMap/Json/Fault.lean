import PinnedMap.Decimal.Form
import PinnedMap.Text.Unprintable

/-! What can be wrong with a JSON text: it is not JSON, or it does not fit the type that is read. -/
namespace PinnedMap.Json

open Decimal

inductive Found where
  | null
  | boolean (value : Bool)
  | integer (value : Int)
  | real (value : Float)
  | text (value : String)
  | sequence
  | map
deriving Repr, DecidableEq

def Found.describe : Found → String
  | .null => "null"
  | .boolean value => "boolean " ++ Text.inTicks (if value then "true" else "false")
  | .integer value => "integer " ++ Text.inTicks (toString value)
  | .real value => "floating point " ++ Text.inTicks (Form.json.text value)
  | .text value => "string " ++ Text.quoted value
  | .sequence => "sequence"
  | .map => "map"

inductive Misfit where
  | invalidType (found : Found) (expected : String)
  | invalidValue (found : Found) (expected : String)
  | invalidLength (length : Nat) (expected : String)
  | unknownVariant (name : String) (known : List String)
  | missingField (name : String)
  | duplicateField (name : String)
  | malformed (reason : String)
deriving Repr, DecidableEq

def Misfit.message : Misfit → String
  | .invalidType found expected => "invalid type: " ++ found.describe ++ ", expected " ++ expected
  | .invalidValue found expected => "invalid value: " ++ found.describe ++ ", expected " ++ expected
  | .invalidLength length expected => "invalid length " ++ toString length ++ ", expected " ++ expected
  | .unknownVariant name known =>
    let expected := match known.map Text.inTicks with
      | [one] => one
      | [one,other] => one ++ " or " ++ other
      | all => "one of " ++ ", ".intercalate all
    "unknown variant " ++ Text.inTicks name ++ ", expected " ++ expected
  | .missingField name => "missing field " ++ Text.inTicks name
  | .duplicateField name => "duplicate field " ++ Text.inTicks name
  | .malformed reason => reason

inductive Fault where
  | syntactic
  | data (misfit : Misfit)
deriving Repr, DecidableEq

def Fault.message : Fault → String
  | .syntactic => "not a JSON text"
  | .data misfit => misfit.message

end PinnedMap.Json
