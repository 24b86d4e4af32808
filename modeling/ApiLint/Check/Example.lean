import ApiLint.Example.Validator
import ApiLint.Lint.Context

/-!
# Holders of examples

Parameters, headers and media types carry examples beside a schema. `Container` names one of
them and `Holder` is what they have in common. Jobs that validate examples share one validator,
which each hands on to the next.
-/

set_option autoImplicit false

namespace ApiLint

open Yaml (Mark Node)

inductive Container where
  | parameter (id : ParameterId)
  | header (id : HeaderId)
  | mediaType (id : MediaTypeId)
  deriving Repr, DecidableEq

structure Holder where
  name : String
  origin : Origin
  schema : Option SchemaSlot
  exampleValue : Option Node
  namedExamples : List (String × NamedExampleId)
  target : Target
  /-- Values in XML are texts that no schema describes. -/
  isXml : Bool

namespace Container

def isXmlName (name : String) : Bool :=
  Text.occursIn ['x', 'm', 'l'] (name.toList.map Char.toLower)

def holder? (d : Document) : Container → Option Holder
  | parameter id => (d.parameter? id).map fun p =>
    ⟨p.name, p.origin, p.schema, p.exampleValue, p.namedExamples, .parameter id, false⟩
  | header id => (d.header? id).map fun h =>
    ⟨h.name, h.origin, h.schema, h.exampleValue, h.namedExamples, .header id, false⟩
  | mediaType id => (d.mediaType? id).map fun m =>
    ⟨m.name, m.origin, m.schema, m.exampleValue, m.namedExamples, .mediaType id,
      isXmlName m.name⟩

/-- All containers of a document. -/
def all (d : Document) : List Container :=
  d.parameters.toList.map (.parameter ·.id) ++ d.headers.toList.map (.header ·.id) ++
    d.mediaTypes.toList.map (.mediaType ·.id)

end Container

/-- A piece of work that may validate examples. -/
abbrev ExampleJob := StateM ExampleValidator (List Finding)

namespace ExampleJob

/-- Runs jobs in order with one validator. -/
def runAll (jobs : List ExampleJob) : ExampleJob := do
  return (← jobs.mapM id).flatten

/-- The findings of jobs about a document, run in a pool of the rule. -/
def findings (c : RuleContext) (d : Document) (pool : String) (jobs : List ExampleJob) :
    List Finding :=
  if c.cancelled then []
  else ((runAll ((c.orders pool).arrange (c.taken pool jobs))).run (.ofDocument d)).1

def template : String := "Example for \x60\x7b\x7d\x60 is not valid: \x7b\x7d"

/-- One finding for each reason of a verdict. Schemas that loop give none. -/
def ofVerdict (c : RuleContext) (verdict : Verdict) (name : String) (l : Location)
    (start stop : Mark) (target : Target) : List Finding :=
  let reasons := match verdict with
    | .valid | .cyclic => []
    | .invalid reasons => reasons
    | .unconvertible message => ["schema cannot be compiled: " ++ message]
  reasons.map fun reason => c.findingAt (c.message template [name, reason]) l start stop target

/-- Validates a value and reports the verdict. -/
def validate (c : RuleContext) (d : Document) (s : Schema) (value : Node) (name : String)
    (l : Location) (start stop : Mark) (target : Target) : ExampleJob := do
  let (verdict, v) := (← get).validate d s value
  set v
  return ofVerdict c verdict name l start stop target

end ExampleJob

end ApiLint
