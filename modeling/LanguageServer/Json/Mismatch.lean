import LanguageServer.Json.Print
import LanguageServer.Text.Quoted

/-! # Values of the wrong shape

What is said when a JSON value is not what a field asks for. -/

namespace LanguageServer.Json

/-- What was found in place of something else. -/
inductive Found
  | null
  | boolean (value : Bool)
  | integer (value : Int)
  | float (value : Float)
  | string (value : String)
  | sequence
  | map

/-- The words for what was found. -/
def Found.words : Found → String
  | null => "null"
  | boolean value => "boolean `" ++ (if value then "true" else "false") ++ "`"
  | integer value => "integer `" ++ toString value ++ "`"
  | float value => "floating point `" ++ floatText value ++ "`"
  | string value => "string " ++ Text.quoted value
  | sequence => "sequence"
  | map => "map"

/-- A value as something found. -/
def found : Json → Found
  | null => .null
  | bool value => .boolean value
  | integer value => .integer value
  | float value => .float value
  | string value => .string value
  | array _ => .sequence
  | object _ => .map

/-- Why a value does not have the shape asked for. -/
inductive Mismatch
  | type (found : Found) (expected : String)
  | value (found : Found) (expected : String)
  | length (count : Nat) (expected : String)
  | missing (field : String)
  | duplicate (field : String)
  | variant (name : String)
  | malformed (reason : String)

/-- The wording of a mismatch. -/
def Mismatch.message : Mismatch → String
  | type found expected => "invalid type: " ++ found.words ++ ", expected " ++ expected
  | value found expected => "invalid value: " ++ found.words ++ ", expected " ++ expected
  | length count expected => "invalid length " ++ toString count ++ ", expected " ++ expected
  | missing field => "missing field `" ++ field ++ "`"
  | duplicate field => "duplicate field `" ++ field ++ "`"
  | variant name => "data did not match any variant of untagged enum " ++ name
  | malformed reason => reason

/-- A number of elements in words. -/
def elementCount (n : Nat) : String :=
  toString n ++ if n = 1 then " element" else " elements"

end LanguageServer.Json
