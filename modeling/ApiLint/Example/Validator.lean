import ApiLint.Example.Cycle
import ApiLint.Example.Fragment
import ApiLint.JsonSchema.Meta
import ApiLint.Text.Search

/-!
# Validating examples

Checks a value against a schema of the document: the schema is made self-contained, compiled for
the draft that its version follows and applied to the value. Schemas composed of others that loop
are not compiled. Version 3.0 has no type for null; there `nullable` takes violations by null
back.
-/

set_option autoImplicit false

namespace ApiLint

open Yaml (Node)

inductive Verdict where
  | valid
  /-- One reason for each violation. -/
  | invalid (reasons : List String)
  /-- The schema loops through what it is composed of. -/
  | cyclic
  /-- The schema cannot be compiled. -/
  | unconvertible (message : String)
  deriving Repr, DecidableEq

def Verdict.reasons : Verdict → List String
  | .invalid reasons => reasons
  | _ => []

/-- Versions up to 3.0 follow draft 4. -/
def SpecVersion.draft : SpecVersion → SchemaDraft
  | swagger2 | openApi30 => .draft4
  | openApi31 => .draft202012

/-- A schema made ready for use, or why it is not. -/
inductive Prepared where
  | ready (compiled : JsonSchema.Compiled) (size : Nat)
  | cyclic
  | unconvertible (message : String)

namespace Prepared

/-- Prepares a schema of a document. -/
def ofSchema (d : Document) (source : FragmentSource) (s : Schema) : Prepared :=
  if !s.branches.isEmpty && d.isLooping s then .cyclic
  else
    let fragment := source.fragment s.node.toJson
    match JsonSchema.compileChecked source.version.draft fragment with
    | .ok compiled => .ready compiled fragment.size
    | .error violation => .unconvertible violation.message

end Prepared

/-! ## Reasons that are left out -/

/-- Texts of violations that only sum up others. -/
def summaries : List String :=
  ["if-then failed", "if-else failed", "allOf failed", "oneOf failed"]

def mentions (reason text : String) : Bool :=
  Text.occursIn text.toList reason.toList

def isSummary (reason : String) : Bool :=
  summaries.any (mentions reason)

/-- Null was given where another type was asked for. -/
def isAboutNull (reason : String) : Bool :=
  mentions reason "got null" || mentions reason "null is not of type"

namespace Document

/-- The schema of a property, of the schema itself or of what it is composed of, so many levels
down. -/
def propertySchema? (d : Document) (name : String) : Nat → Schema → Option Schema
  | 0, _ => none
  | levels + 1, s =>
    match s.property? name with
    | some slot => d.slotSchema? slot
    | none => (s.branches.filterMap d.slotSchema?).findSome? (d.propertySchema? name levels)

def nullableProperty (d : Document) (s : Schema) (name : String) : Bool :=
  (d.propertySchema? name (Pointers.maxHops + 1) s).any (·.nullable == some true)

/-- A null is accepted in the value: the schema is nullable, or the value is a mapping with some
null and all properties that are null in it are nullable. -/
def acceptsNull (d : Document) (s : Schema) (value : Node) : Bool :=
  s.nullable == some true ||
    match value.entries? with
    | some entries =>
      let nulls := entries.filter fun (_, v) => v.isNull
      !nulls.isEmpty && nulls.all fun (key, _) => d.nullableProperty s key.keyText
    | none => false

/-- In version 3.0 violations by null are taken back where null is accepted. -/
def toleratesNull (d : Document) (s : Schema) (value : Node) (reason : String) : Bool :=
  d.specVersion == .openApi30 && isAboutNull reason && d.acceptsNull s value

end Document

namespace Prepared

/-- The verdict on a value under a prepared schema. -/
def judge (d : Document) (s : Schema) (value : Node) : Prepared → Verdict
  | .cyclic => .cyclic
  | .unconvertible message => .unconvertible message
  | .ready compiled size =>
    let violations := compiled.violations d.specVersion.draft size value.toJson
    let reasons := (violations.map Violation.message).filter fun reason =>
      !isSummary reason && !d.toleratesNull s value reason
    if reasons.isEmpty then .valid else .invalid reasons

end Prepared

/-! ## The validator -/

/-- Validates values against schemas of one document. Each schema is prepared once. -/
structure ExampleValidator where
  source : FragmentSource
  prepared : List (SchemaId × Prepared) := []

namespace ExampleValidator

def ofDocument (d : Document) : ExampleValidator := ⟨.ofDocument d, []⟩

/-- The prepared form of a schema, and the validator that knows it. -/
def prepare (v : ExampleValidator) (d : Document) (s : Schema) : Prepared × ExampleValidator :=
  match v.prepared.lookup s.id with
  | some p => (p, v)
  | none =>
    let p := Prepared.ofSchema d v.source s
    (p, { v with prepared := (s.id, p) :: v.prepared })

def validate (v : ExampleValidator) (d : Document) (s : Schema) (value : Node) :
    Verdict × ExampleValidator :=
  let (p, v) := v.prepare d s
  (p.judge d s value, v)

end ExampleValidator

end ApiLint
