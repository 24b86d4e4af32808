import ApiLint.Check.Example

/-!
# Examples conform to their schemas

Every example of a schema, a parameter, a header or a media type has to validate against the
schema that it illustrates. There is one job for each schema of the walk and for each container.
-/

set_option autoImplicit false

namespace ApiLint.Check.ExampleConformance

/-- The examples written in a schema. -/
def ofSchema (c : RuleContext) (d : Document) (s : Schema) : ExampleJob := do
  let name := s.name.getD "schema"
  let first ← match s.exampleValue with
    | some value =>
      ExampleJob.validate c d s value name (s.origin.location.field "example")
        (s.keywordMark "example") value.stop (.schema s.id)
    | none => pure []
  let base := s.origin.location.field "examples"
  let others ← (s.exampleValues.getD []).zipIdx.mapM fun (value, i) =>
    ExampleJob.validate c d s value name (base.index i) value.mark value.stop (.schema s.id)
  return first ++ others.flatten

/-- A named example; those without a value are left out. -/
def ofNamed (c : RuleContext) (d : Document) (s : Schema) (base : Location) (key : String)
    (e : NamedExample) : ExampleJob :=
  match e.value with
  | some value =>
    ExampleJob.validate c d s value key (base.key key) e.origin.keyMark e.origin.stop
      (.namedExample e.id)
  | none => pure []

/-- The named examples of a container, or the one that it has instead. -/
def ofHolder (c : RuleContext) (d : Document) (h : Holder) : ExampleJob := do
  if h.isXml then return []
  match h.schema.bind d.slotSchema? with
  | none => return []
  | some s =>
    if h.namedExamples.isEmpty then
      match h.exampleValue with
      | some value =>
        ExampleJob.validate c d s value h.name (h.origin.location.field "example") value.mark
          value.stop h.target
      | none => return []
    else
      let base := h.origin.location.field "examples"
      let found ← h.namedExamples.mapM fun (key, id) =>
        match d.namedExample? id with
        | some e => ofNamed c d s base key e
        | none => pure []
      return found.flatten

def jobs (c : RuleContext) (d : Document) : List ExampleJob :=
  (c.schemas d).map (ofSchema c d) ++
    ((Container.all d).filterMap (·.holder? d)).map (ofHolder c d)

def evaluate (c : RuleContext) : List Finding :=
  match c.document with
  | none => []
  | some d => ExampleJob.findings c d "examples" (jobs c d)

def check : Check where
  name := "oasExampleSchema"
  errorMessage := "oasExampleSchema takes no options"
  evaluate := evaluate

end ApiLint.Check.ExampleConformance
