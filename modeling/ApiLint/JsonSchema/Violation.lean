import ApiLint.Json.Printer

/-!
# Violations

Why a value does not conform to a schema, and the text that says so. The same causes say why a
value cannot be read as a schema.
-/

set_option autoImplicit false

namespace ApiLint

/-- The types of JSON values that schemas tell apart. -/
inductive JsonKind where
  | array
  | boolean
  | integer
  | null
  | number
  | object
  | string
  deriving Repr, DecidableEq

namespace JsonKind

/-- In the order in which messages list them. -/
def all : List JsonKind := [array, boolean, integer, null, number, object, string]

def name : JsonKind → String
  | array => "array"
  | boolean => "boolean"
  | integer => "integer"
  | null => "null"
  | number => "number"
  | object => "object"
  | string => "string"

def ofName? (name : String) : Option JsonKind :=
  all.find? (·.name == name)

end JsonKind

inductive Cause where
  | wrongType (kind : JsonKind)
  | wrongTypes (kinds : List JsonKind)
  /-- A schema names a type that does not exist. -/
  | unknownType
  | missing (property : String)
  | belowMinimum (limit : Json)
  | aboveMaximum (limit : Json)
  | notAbove (limit : Json)
  | notBelow (limit : Json)
  | notMultiple (factor : Json)
  | tooShort (least : Nat)
  | tooLong (most : Nat)
  | tooFewItems (least : Nat)
  | tooManyItems (most : Nat)
  | tooFewProperties (least : Nat)
  | tooManyProperties (most : Nat)
  | unmatched (pattern : String)
  | malformed (format : String)
  | unlisted (options : List Json)
  | unexpected (constant : Json)
  | repeatedItems
  | extraProperties (names : List String)
  | extraItems (items : List Json)
  | unevaluatedProperties (names : List String)
  | unevaluatedItems (items : List Json)
  | noAnyOf
  | noOneOf
  | manyOneOf
  | notContained
  | forbidden (schema : Json)
  | refused

/-- A part of a value and what is wrong with it. -/
structure Violation where
  value : Json
  cause : Cause

namespace Violation

/-- A count and what is counted. -/
def counted (n : Nat) (one many : String) : String :=
  toString n ++ " " ++ (if n == 1 then one else many)

/-- Says of a list, written out, that it was not expected. -/
def listed (texts : List String) : String :=
  "(" ++ ", ".intercalate texts ++ (if texts.length == 1 then " was" else " were") ++
    " unexpected)"

def inQuotes (text : String) : String := "\x27" ++ text ++ "\x27"

/-- The choices of an enumeration: all up to three, else the first two and how many more. -/
def choices : List Json → String
  | [] => ""
  | [a] => a.compact
  | [a, b] => a.compact ++ " or " ++ b.compact
  | [a, b, c] => a.compact ++ ", " ++ b.compact ++ " or " ++ c.compact
  | a :: b :: rest =>
    a.compact ++ ", " ++ b.compact ++ " or " ++ toString rest.length ++ " other candidates"

def message (v : Violation) : String :=
  let value := v.value.compact
  match v.cause with
  | .wrongType kind => value ++ " is not of type \"" ++ kind.name ++ "\""
  | .wrongTypes kinds =>
    value ++ " is not of types " ++
      ", ".intercalate (kinds.map fun k => "\"" ++ k.name ++ "\"")
  | .unknownType => "Unexpected type"
  | .missing property => Json.quote property ++ " is a required property"
  | .belowMinimum limit => value ++ " is less than the minimum of " ++ limit.compact
  | .aboveMaximum limit => value ++ " is greater than the maximum of " ++ limit.compact
  | .notAbove limit => value ++ " is less than or equal to the minimum of " ++ limit.compact
  | .notBelow limit => value ++ " is greater than or equal to the maximum of " ++ limit.compact
  | .notMultiple factor => value ++ " is not a multiple of " ++ factor.compact
  | .tooShort least =>
    value ++ " is shorter than " ++ counted least "character" "characters"
  | .tooLong most => value ++ " is longer than " ++ counted most "character" "characters"
  | .tooFewItems least => value ++ " has less than " ++ counted least "item" "items"
  | .tooManyItems most => value ++ " has more than " ++ counted most "item" "items"
  | .tooFewProperties least =>
    value ++ " has less than " ++ counted least "property" "properties"
  | .tooManyProperties most =>
    value ++ " has more than " ++ counted most "property" "properties"
  | .unmatched pattern => value ++ " does not match \"" ++ pattern ++ "\""
  | .malformed format => value ++ " is not a \"" ++ format ++ "\""
  | .unlisted options => value ++ " is not one of " ++ choices options
  | .unexpected constant => constant.compact ++ " was expected"
  | .repeatedItems => value ++ " has non-unique elements"
  | .extraProperties names =>
    "Additional properties are not allowed " ++ listed (names.map inQuotes)
  | .extraItems items => "Additional items are not allowed " ++ listed (items.map Json.compact)
  | .unevaluatedProperties names =>
    "Unevaluated properties are not allowed " ++ listed (names.map inQuotes)
  | .unevaluatedItems items =>
    "Unevaluated items are not allowed " ++ listed (items.map fun i => inQuotes i.compact)
  | .noAnyOf =>
    value ++ " is not valid under any of the schemas listed in the \x27anyOf\x27 keyword"
  | .noOneOf =>
    value ++ " is not valid under any of the schemas listed in the \x27oneOf\x27 keyword"
  | .manyOneOf =>
    value ++
      " is valid under more than one of the schemas listed in the \x27oneOf\x27 keyword"
  | .notContained => "None of " ++ value ++ " are valid under the given schema"
  | .forbidden schema => schema.compact ++ " is not allowed for " ++ value
  | .refused => "False schema does not allow " ++ value

end Violation

end ApiLint
