import ApiLint.JsonSchema.Format
import ApiLint.JsonSchema.Read
import ApiLint.Pattern.Match

/-!
# Checking values against schemas

`Compiled.violations` lists what is wrong with a value. Schemas that are composed of others pass
on the violations of their parts; alternatives, negations and the like report themselves alone.
-/

set_option autoImplicit false

namespace ApiLint

open Number (Ratio)

/-- Whether a value has a type. In draft 4 an integer is written as one; later any whole number
is. -/
def JsonKind.admits (draft : SchemaDraft) : JsonKind → Json → Bool
  | array, .arr _ => true
  | boolean, .bool _ => true
  | integer, .int _ => true
  | integer, .float x => draft != .draft4 && (Number.wholeInt64? x).isSome
  | null, .null => true
  | number, .int _ => true
  | number, .float _ => true
  | object, .obj _ => true
  | string, .str _ => true
  | _, _ => false

namespace JsonSchema

/-! ## Numbers -/

/-- The comparison holds of the value and the limit, or one of them is no number. -/
def compares (holds : Ratio → Ratio → Bool) (value limit : Json) : Bool :=
  match value.ratio?, limit.ratio? with
  | some v, some l => holds v l
  | _, _ => true

/-- A number as the nearest double. -/
def double? : Json → Option Float
  | .int i => some (Number.floatOfInt i)
  | .float x => some x
  | _ => none

/-- Whole factors divide the double itself, others the decimal that it is written as. -/
def isMultiple (value factor : Json) : Bool :=
  match double? value, double? factor with
  | some v, some f =>
    let exact := Ratio.ofFloat? f
    let reading := if exact.any Ratio.isWhole then Ratio.ofFloat? else Ratio.ofShortest?
    match reading v, reading f with
    | some a, some b => a.isMultipleOf b
    | _, _ => true
  | _, _ => true

/-! ## Keywords -/

section

-- The violations of a value under a schema one level further down.
variable (check : JsonSchema → Json → List Violation)

def conforms (schema : JsonSchema) (value : Json) : Bool :=
  (check schema value).isEmpty

/-- One violation of a value where a condition fails. -/
def require (holds : Bool) (value : Json) (cause : Cause) : List Violation :=
  if holds then [] else [⟨value, cause⟩]

def checkNumber (keyword : Keyword) (value : Json) : List Violation :=
  match keyword with
  | .minimum limit => require (compares (fun v l => l.le v) value limit) value (.belowMinimum limit)
  | .maximum limit => require (compares Ratio.le value limit) value (.aboveMaximum limit)
  | .exclusiveMinimum limit =>
    require (compares (fun v l => l.lt v) value limit) value (.notAbove limit)
  | .exclusiveMaximum limit => require (compares Ratio.lt value limit) value (.notBelow limit)
  | .multipleOf factor => require (isMultiple value factor) value (.notMultiple factor)
  | _ => []

def checkString (keyword : Keyword) (text : String) : List Violation :=
  match keyword with
  | .minLength least => require (least ≤ text.length) (.str text) (.tooShort least)
  | .maxLength most => require (text.length ≤ most) (.str text) (.tooLong most)
  | .pattern source p => require (p.occursIn text) (.str text) (.unmatched source)
  | .format format => require (format.accepts text) (.str text) (.malformed format.name)
  | _ => []

/-- The number of items that conform lies between the bounds. -/
def checkContains (schema : JsonSchema) (least : Nat) (most : Option Nat) (items : List Json) :
    List Violation :=
  let count := (items.filter (conforms check schema)).length
  require (least ≤ count && most.all (count ≤ ·)) (.arr items) .notContained

def checkArray (keyword : Keyword) (items : List Json) : List Violation :=
  match keyword with
  | .minItems least => require (least ≤ items.length) (.arr items) (.tooFewItems least)
  | .maxItems most => require (items.length ≤ most) (.arr items) (.tooManyItems most)
  | .uniqueItems => require (Json.allDistinct items) (.arr items) .repeatedItems
  | .prefixItems schemas => (schemas.zip items).flatMap fun (s, item) => check s item
  | .items start schema => (items.drop start).flatMap (check schema)
  | .noItems start =>
    require (items.length ≤ start) (.arr items) (.extraItems (items.drop start))
  | .contains schema least most => checkContains check schema least most items
  | _ => []

/-- The members whose names are neither among the given ones nor matched. -/
def otherMembers (named : List String) (matched : List Pattern)
    (members : List (String × Json)) : List (String × Json) :=
  members.filter fun (name, _) => !named.contains name && !matched.any (·.occursIn name)

def checkPropertyNames (schema : JsonSchema) (members : List (String × Json)) : List Violation :=
  match schema with
  | .flag false => require members.isEmpty (.obj members) .refused
  | _ => members.flatMap fun (name, _) => check schema (.str name)

def checkRequired (names : List String) (members : List (String × Json)) : List Violation :=
  names.flatMap fun name =>
    require (Keyed.find? name members).isSome (.obj members) (.missing name)

def checkObject (keyword : Keyword) (members : List (String × Json)) : List Violation :=
  match keyword with
  | .minProperties least =>
    require (least ≤ members.length) (.obj members) (.tooFewProperties least)
  | .maxProperties most =>
    require (members.length ≤ most) (.obj members) (.tooManyProperties most)
  | .required names => checkRequired names members
  | .properties schemas =>
    schemas.flatMap fun (name, s) => ((Keyed.find? name members).map (check s)).getD []
  | .patternProperties schemas =>
    schemas.flatMap fun (p, s) =>
      (members.filter fun (name, _) => p.occursIn name).flatMap fun (_, v) => check s v
  | .additionalProperties named matched (.flag false) =>
    let others := otherMembers named matched members
    require others.isEmpty (.obj members) (.extraProperties (others.map (·.1)))
  | .additionalProperties named matched schema =>
    (otherMembers named matched members).flatMap fun (_, v) => check schema v
  | .noProperties =>
    match members with
    | [] => []
    | (_, first) :: _ => [⟨first, .refused⟩]
  | .record named others names =>
    match members.flatMap fun (name, v) => check ((named.lookup name).getD others) v with
    | [] => checkRequired names members
    | violations => violations
  | .propertyNames schema => checkPropertyNames check schema members
  | .dependent schemas =>
    schemas.flatMap fun (name, s) =>
      if (Keyed.find? name members).isSome then check s (.obj members) else []
  | _ => []

/-- Keywords that apply to values of every type. -/
def checkAny (draft : SchemaDraft) (library : Library) (keyword : Keyword) (value : Json) :
    List Violation :=
  match keyword with
  | .types [kind] => require (kind.admits draft value) value (.wrongType kind)
  | .types kinds => require (kinds.any (·.admits draft value)) value (.wrongTypes kinds)
  | .enumeration options => require (options.any (value.same ·)) value (.unlisted options)
  | .constant constant => require (value.same constant) value (.unexpected constant)
  | .allOf schemas => schemas.flatMap fun s => check s value
  | .anyOf schemas => require (schemas.any fun s => conforms check s value) value .noAnyOf
  | .oneOf schemas =>
    match (schemas.filter fun s => conforms check s value).length with
    | 0 => [⟨value, .noOneOf⟩]
    | 1 => []
    | _ => [⟨value, .manyOneOf⟩]
  | .negation text schema => require (!conforms check schema value) value (.forbidden text)
  | .conditional condition accepted rejected =>
    let branch := if conforms check condition value then accepted else rejected
    (branch.map fun s => check s value).getD []
  | .reference pointer => ((library.lookup pointer).map fun s => check s value).getD []
  | _ => []

/-- All keywords but those about what the others have not taken account of. -/
def checkKeyword (draft : SchemaDraft) (library : Library) (keyword : Keyword) (value : Json) :
    List Violation :=
  checkAny check draft library keyword value ++ checkNumber keyword value ++
    match value with
    | .str text => checkString keyword text
    | .arr items => checkArray check keyword items
    | .obj members => checkObject check keyword members
    | _ => []

/-! ## What is taken account of -/

/-- The schemas applied to a value in place that it conforms to. -/
def applied (library : Library) (value : Json) : Keyword → List JsonSchema
  | .allOf schemas | .anyOf schemas | .oneOf schemas =>
    schemas.filter fun s => conforms check s value
  | .conditional condition accepted rejected =>
    if conforms check condition value then condition :: accepted.toList else rejected.toList
  | .reference pointer => (library.lookup pointer).toList
  | .dependent schemas =>
    (schemas.filter fun (name, _) => (value.get? name).isSome).map (·.2)
  | _ => []

/-- The properties that a keyword looks at itself. -/
def ownProperties (members : List (String × Json)) : Keyword → List String
  | .properties schemas =>
    (schemas.map (·.1)).filter fun name => (Keyed.find? name members).isSome
  | .patternProperties schemas =>
    (members.map (·.1)).filter fun name => schemas.any fun (p, _) => p.occursIn name
  | .additionalProperties named matched _ => (otherMembers named matched members).map (·.1)
  | .noProperties | .record _ _ _ | .unevaluatedProperties _ => members.map (·.1)
  | _ => []

/-- The positions of the items that a keyword looks at itself. -/
def ownItems (items : List Json) : Keyword → List Nat
  | .prefixItems schemas => List.range (min schemas.length items.length)
  | .items start _ => (List.range items.length).drop start
  | .noItems start => (List.range items.length).drop start
  | .contains schema _ _ =>
    (items.zipIdx.filter fun (item, _) => conforms check schema item).map (·.2)
  | .unevaluatedItems _ => List.range items.length
  | _ => []

/-- The properties that a schema has looked at, with the schemas applied in place. The first
argument bounds the depth. -/
def seenProperties (library : Library) (members : List (String × Json)) :
    Nat → JsonSchema → List String
  | 0, _ => []
  | _ + 1, .flag _ => []
  | depth + 1, .object keywords =>
    keywords.flatMap fun k =>
      ownProperties members k ++
        (applied check library (.obj members) k).flatMap
          (seenProperties library members depth)

def seenItems (library : Library) (items : List Json) : Nat → JsonSchema → List Nat
  | 0, _ => []
  | _ + 1, .flag _ => []
  | depth + 1, .object keywords =>
    keywords.flatMap fun k =>
      ownItems check items k ++
        (applied check library (.arr items) k).flatMap (seenItems library items depth)

/-- The keywords about properties and items that the others of the schema have not looked at. -/
def checkUnevaluated (library : Library) (depth : Nat) (keywords : List Keyword)
    (keyword : Keyword) (value : Json) : List Violation :=
  match keyword, value with
  | .unevaluatedProperties schema, .obj members =>
    let others := keywords.filter fun k => match k with
      | .unevaluatedProperties _ => false
      | _ => true
    let seen := seenProperties check library members (depth + 1) (.object others)
    let refused := members.filter fun (name, v) =>
      !seen.contains name && !conforms check schema v
    require refused.isEmpty value (.unevaluatedProperties (refused.map (·.1)))
  | .unevaluatedItems schema, .arr items =>
    let others := keywords.filter fun k => match k with
      | .unevaluatedItems _ => false
      | _ => true
    let seen := seenItems check library items (depth + 1) (.object others)
    let refused := items.zipIdx.filter fun (item, i) =>
      !seen.contains i && !conforms check schema item
    require refused.isEmpty value (.unevaluatedItems (refused.map (·.1)))
  | _, _ => []

end

/-! ## Schemas -/

/-- The violations of a value under a schema, in the order of the keywords. The first number
bounds the depth. -/
def violationsAt (draft : SchemaDraft) (library : Library) :
    Nat → JsonSchema → Json → List Violation
  | 0, _, _ => []
  | _ + 1, .flag allows, value => require allows value .refused
  | depth + 1, .object keywords, value =>
    let check := violationsAt draft library depth
    keywords.flatMap fun k =>
      checkKeyword check draft library k value ++
        checkUnevaluated check library depth keywords k value

namespace Compiled

/-- The violations of a value. Below each part of the value a schema applies others in place,
each at most once on the way down unless references form a loop; so the product bounds the depth
of all that does not loop. -/
def violations (draft : SchemaDraft) (compiled : Compiled) (size : Nat) (value : Json) :
    List Violation :=
  violationsAt draft compiled.library ((size + 1) * (value.size + 1)) compiled.schema value

end Compiled

end JsonSchema

end ApiLint
