import ApiLint.Lint.Context
import ApiLint.Pattern.Syntax

/-!
# Keywords and types

The keywords of a schema have to make sense for each of its types: bounds are not negative and in
order, patterns can be read, and required properties are defined. A property counts as defined if
the schema or one that it is composed of, a bounded number of steps away, declares it.
-/

set_option autoImplicit false

namespace ApiLint

/-- What is known of the properties of a schema while it is followed into its branches. -/
structure PropertySearch where
  visited : List SchemaId := []
  names : List String := []

/-- Adds the properties of a schema and of its branches, so many steps down less one. Each schema
is looked at once. -/
def PropertySearch.collect (d : Document) : Nat → PropertySearch → Schema → PropertySearch
  | 0, search, _ => search
  | steps + 1, search, s =>
    if search.visited.contains s.id then search
    else
      (s.branches.filterMap d.slotSchema?).foldl (collect d steps)
        { visited := s.id :: search.visited
          names := search.names ++ s.properties.map (·.1) }

/-- The names of the properties declared on a schema or in its branches. -/
def Document.definedProperties (d : Document) (s : Schema) : List String :=
  (PropertySearch.collect d (Pointers.maxHops + 1) {} s).names

namespace Check.Keyword

def nonNegative : String := "\x60\x7b\x7d\x60 should be a non-negative number"

def notBelow : String := "\x60\x7b\x7d\x60 should be greater than or equal to \x60\x7b\x7d\x60"

def unknownType : String := "unknown schema type: \x60\x7b\x7d\x60"

def requiredUndefined : String :=
  "\x60required\x60 field \x60\x7b\x7d\x60 is not defined in \x60properties\x60"

def dependentUndefined : String :=
  "property \x60\x7b\x7d\x60 referenced in \x60dependentRequired\x60 does not exist in schema " ++
    "\x60properties\x60"

def dependentCircular : String :=
  "circular dependency detected: property \x60\x7b\x7d\x60 requires itself in " ++
    "\x60dependentRequired\x60"

def invalidPattern : String :=
  "schema \x60pattern\x60 should be a ECMA-262 regular expression dialect"

def multipleOf : String := "\x60multipleOf\x60 should be a number greater than \x600\x60"

def maximum : String :=
  "\x60maximum\x60 should be a number greater than or equal to \x60minimum\x60"

def requiredWithoutProperties : String :=
  "object contains \x60required\x60 fields but no \x60properties\x60"

section

variable (c : RuleContext) (s : Schema)

/-- A finding at a keyword of the schema, or below it. -/
def reportAt (keyword : String) (l : Location) (template : String) (arguments : List String) :
    Finding :=
  let mark := s.keywordMark keyword
  c.findingAt (c.message template arguments) l mark mark (.schema s.id)

def report (keyword : String) (template : String) (arguments : List String) : Finding :=
  reportAt c s keyword (s.origin.location.field keyword) template arguments

/-- A finding if a condition holds. -/
def reportIf (wrong : Bool) (keyword : String) (template : String) (arguments : List String) :
    List Finding :=
  if wrong then [report c s keyword template arguments] else []

/-- Both bounds of a pair are not negative, and in order. -/
def bounds (low : String) (least : Option Int) (high : String) (most : Option Int) :
    List Finding × List Finding :=
  let outOfOrder := match least, most with
    | some l, some m => decide (m < l)
    | _, _ => false
  (reportIf c s (least.any (· < 0)) low nonNegative [low] ++
    reportIf c s (most.any (· < 0)) high nonNegative [high],
   reportIf c s outOfOrder high notBelow [high, low])

def ofString : List Finding :=
  let (signs, order) := bounds c s "minLength" s.minLength "maxLength" s.maxLength
  signs ++ order ++
    reportIf c s (s.pattern.any fun p => (Pattern.read? p).isNone) "pattern" invalidPattern []

/-- A value below another one, where both are present. -/
def isBelow (high low : Option Float) : Bool :=
  match high, low with
  | some h, some l => h < l
  | _, _ => false

def exclusiveValue? : Option ExclusiveBound → Option Float
  | some (.value x) => some x
  | _ => none

def ofNumber : List Finding :=
  reportIf c s (s.multipleOf.any (· ≤ 0.0)) "multipleOf" multipleOf [] ++
  reportIf c s (isBelow s.maximum s.minimum) "maximum" maximum [] ++
  reportIf c s (isBelow (exclusiveValue? s.exclusiveMaximum) (exclusiveValue? s.exclusiveMinimum))
    "exclusiveMaximum" notBelow ["exclusiveMaximum", "exclusiveMinimum"]

def ofArray : List Finding :=
  let (itemSigns, itemOrder) := bounds c s "minItems" s.minItems "maxItems" s.maxItems
  let (containsSigns, containsOrder) :=
    bounds c s "minContains" s.minContains "maxContains" s.maxContains
  itemSigns ++ containsSigns ++ itemOrder ++ containsOrder

/-- Every required property is defined. -/
def ofRequired (defined : List String) : List Finding :=
  if s.required.isEmpty then []
  else if defined.isEmpty then [report c s "required" requiredWithoutProperties []]
  else
    let base := s.origin.location.field "required"
    s.required.zipIdx.filterMap fun (name, i) =>
      if defined.contains name then none
      else some (reportAt c s "required" (base.index i) requiredUndefined [name])

/-- Every property of `dependentRequired` is defined, and none requires itself. -/
def ofDependentRequired (defined : List String) : List Finding :=
  let base := s.origin.location.field "dependentRequired"
  s.dependentRequired.flatMap fun (key, names) =>
    let at_ (template : String) (name : String) : Finding :=
      reportAt c s "dependentRequired" (base.key key) template [name]
    (if defined.contains key then [] else [at_ dependentUndefined key]) ++
      names.filterMap fun name =>
        if name == key then some (at_ dependentCircular key)
        else if defined.contains name then none
        else some (at_ dependentUndefined name)

def ofObject (d : Document) : List Finding :=
  let (signs, order) :=
    bounds c s "minProperties" s.minProperties "maxProperties" s.maxProperties
  let defined := d.definedProperties s
  signs ++ order ++ ofRequired c s defined ++ ofDependentRequired c s defined

/-- The findings about one of the types. -/
def ofType (d : Document) (type : String) : List Finding :=
  match type with
  | "string" => ofString c s
  | "integer" | "number" => ofNumber c s
  | "array" => ofArray c s
  | "object" => ofObject c s d
  | "boolean" | "null" => []
  | _ =>
    if type == "file" && d.specVersion == .swagger2 then []
    else [report c s "type" unknownType [type]]

end

def evaluate (c : RuleContext) : List Finding :=
  match c.document with
  | none => []
  | some d => (c.schemas d).flatMap fun s => s.types.flatMap (ofType c s d)

def check : Check where
  name := "schemaTypeCheck"
  errorMessage := "schemaTypeCheck takes no options"
  evaluate := evaluate

end Check.Keyword

end ApiLint
