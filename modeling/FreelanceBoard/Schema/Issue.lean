/-! What can be wrong with a value that is read against a schema. An issue has a cause and the place
where it was found, from the outermost key to the innermost. -/
namespace FreelanceBoard

inductive Cause where
  | missing
  | unknownKey
  | notText
  | notUnicode
  | notBool
  | unreadableBool
  | notInt
  | unreadableInt
  | intTooLong
  | fractionalInt
  | infiniteInt
  | notNumber
  | unreadableNumber
  | notList
  | notTuple
  | notSet
  | notOneOf (choices : List String)
  | notLiteral (expected : String)
  | notObject (schema : String)
  | notTagged
  | unknownTag (key found : String) (expected : List String)
  | noTag (key : String)
  | refused (reason : String)
  deriving DecidableEq

structure Issue where
  cause : Cause
  place : List String
  deriving DecidableEq

namespace Cause

def code : Cause → String
  | .missing => "missing"
  | .unknownKey => "extra_forbidden"
  | .notText => "string_type"
  | .notUnicode => "string_unicode"
  | .notBool => "bool_type"
  | .unreadableBool => "bool_parsing"
  | .notInt => "int_type"
  | .unreadableInt => "int_parsing"
  | .intTooLong => "int_parsing_size"
  | .fractionalInt => "int_from_float"
  | .infiniteInt => "finite_number"
  | .notNumber => "float_type"
  | .unreadableNumber => "float_parsing"
  | .notList => "list_type"
  | .notTuple => "tuple_type"
  | .notSet => "frozen_set_type"
  | .notOneOf _ => "enum"
  | .notLiteral _ => "literal_error"
  | .notObject _ => "model_type"
  | .notTagged => "model_attributes_type"
  | .unknownTag _ _ _ => "union_tag_invalid"
  | .noTag _ => "union_tag_not_found"
  | .refused _ => "value_error"

def singleQuoted (s : String) : String := "'" ++ s ++ "'"

def listed (separator : String) (choices : List String) : String :=
  String.intercalate separator (choices.map singleQuoted)

def message : Cause → String
  | .missing => "Field required"
  | .unknownKey => "Extra inputs are not permitted"
  | .notText => "Input should be a valid string"
  | .notUnicode => "Input should be a valid string, unable to parse raw data as a unicode string"
  | .notBool => "Input should be a valid boolean"
  | .unreadableBool => "Input should be a valid boolean, unable to interpret input"
  | .notInt => "Input should be a valid integer"
  | .unreadableInt => "Input should be a valid integer, unable to parse string as an integer"
  | .intTooLong => "Unable to parse input string as an integer, exceeded maximum size"
  | .fractionalInt => "Input should be a valid integer, got a number with a fractional part"
  | .infiniteInt => "Input should be a finite number"
  | .notNumber => "Input should be a valid number"
  | .unreadableNumber => "Input should be a valid number, unable to parse string as a number"
  | .notList => "Input should be a valid list"
  | .notTuple => "Input should be a valid tuple"
  | .notSet => "Input should be a valid frozenset"
  | .notOneOf choices => "Input should be " ++ listed " or " choices
  | .notLiteral expected => "Input should be " ++ singleQuoted expected
  | .notObject schema => "Input should be a valid dictionary or instance of " ++ schema
  | .notTagged => "Input should be a valid dictionary or object to extract fields from"
  | .unknownTag key found expected =>
    "Input tag " ++ singleQuoted found ++ " found using " ++ singleQuoted key ++
      " does not match any of the expected tags: " ++ listed ", " expected
  | .noTag key => "Unable to extract tag using discriminator " ++ singleQuoted key
  | .refused reason => "Value error, " ++ reason

end Cause

namespace Issue

/-- The issue as seen from outside the key. -/
def under (key : String) (i : Issue) : Issue := { i with place := key :: i.place }

@[simp] theorem under_cause (key : String) (i : Issue) : (i.under key).cause = i.cause := rfl

@[simp] theorem under_place (key : String) (i : Issue) :
    (i.under key).place = key :: i.place := rfl

end Issue

end FreelanceBoard
