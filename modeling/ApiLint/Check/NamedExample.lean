import ApiLint.Check.Example

/-!
# Named examples

The named examples of operations and of components have to be valid, to have a summary and to
have either a value or a link to one. A second check asks all named examples for the last alone.
-/

set_option autoImplicit false

namespace ApiLint.Check

namespace NamedExample

def bothValues : String :=
  "example \x60\x7b\x7d\x60 contains both \x60externalValue\x60 and \x60value\x60"

def missingSummary : String :=
  "example \x60\x7b\x7d\x60 is missing a \x60summary\x60, examples need explaining"

def noValue : String := "example \x60\x7b\x7d\x60 has no \x60value\x60 or \x60externalValue\x60"

/-! ## Which containers -/

def ofParameter (d : Document) (id : ParameterId) : List Container :=
  .parameter id ::
    (((d.parameter? id).map (·.content)).getD []).map fun (_, m) => .mediaType m

def ofRequestBody (d : Document) (id : RequestBodyId) : List Container :=
  (((d.requestBody? id).map (·.content)).getD []).map fun (_, m) => .mediaType m

def ofHeader (d : Document) (id : HeaderId) : List Container :=
  .header id :: (((d.header? id).map (·.content)).getD []).map fun (_, m) => .mediaType m

def ofResponse (d : Document) (id : ResponseId) : List Container :=
  match d.response? id with
  | none => []
  | some r =>
    r.headers.flatMap (fun (_, h) => ofHeader d h) ++ r.content.map fun (_, m) => .mediaType m

def ofOperation (d : Document) (op : Operation) : List Container :=
  op.parameters.flatMap (ofParameter d) ++
    (op.requestBody.map (ofRequestBody d)).getD [] ++
    op.responses.flatMap fun (_, r) => ofResponse d r

/-- Headers among the components stand for themselves, without their content. -/
def ofComponent (d : Document) (component : Component) : List Container :=
  match component.kind, component.content with
  | .parameters, .parameter id => ofParameter d id
  | .headers, .header id => [.header id]
  | .requestBodies, .requestBody id => ofRequestBody d id
  | .responses, .response id => ofResponse d id
  | _, _ => []

/-- Keeps of each group the containers that no group before it has. -/
def distinct (seen : List Container) : List (List Container) → List (List Container)
  | [] => []
  | group :: rest =>
    let fresh := group.eraseDups.filter fun x => !seen.contains x
    if fresh.isEmpty then distinct seen rest else fresh :: distinct (seen ++ fresh) rest

/-- The containers of each operation and each component, every container once. -/
def groups (d : Document) : List (List Container) :=
  distinct [] (d.operations.map (fun (_, op) => ofOperation d op) ++
    d.components.toList.map (ofComponent d))

/-! ## What is looked at -/

/-- Exactly one of a value and a link to one. -/
def valueFindings (c : RuleContext) (name : String) (e : ApiLint.NamedExample) : List Finding :=
  match e.value, e.externalValue with
  | some _, some _ => [c.finding (c.message bothValues [name]) e.origin (.namedExample e.id)]
  | none, none => [c.finding (c.message noValue [name]) e.origin (.namedExample e.id)]
  | _, _ => []

def summaryFindings (c : RuleContext) (name : String) (e : ApiLint.NamedExample) : List Finding :=
  if (Text.trim (e.summary.getD "")).isEmpty then
    [c.finding (c.message missingSummary [name]) e.origin (.namedExample e.id)]
  else []

def ofNamed (c : RuleContext) (d : Document) (schema : Option Schema) (name : String)
    (e : ApiLint.NamedExample) : ExampleJob := do
  let invalid ← match e.value, schema with
    | some value, some s =>
      ExampleJob.validate c d s value name (e.origin.location.field "value") value.mark value.stop
        (.namedExample e.id)
    | _, _ => pure []
  return valueFindings c name e ++ invalid ++ summaryFindings c name e

def ofHolder (c : RuleContext) (d : Document) (h : Holder) : ExampleJob := do
  let schema := if h.isXml then none else h.schema.bind d.slotSchema?
  let found ← h.namedExamples.mapM fun (name, id) =>
    match d.namedExample? id with
    | some e => ofNamed c d schema name e
    | none => pure []
  return found.flatten

/-- One job for each group of containers. -/
def jobs (c : RuleContext) (d : Document) : List ExampleJob :=
  (groups d).map fun group =>
    ExampleJob.runAll ((group.filterMap (·.holder? d)).map (ofHolder c d))

def evaluate (c : RuleContext) : List Finding :=
  match c.document with
  | none => []
  | some d => ExampleJob.findings c d "operations" (jobs c d)

def check : Check where
  name := "examples"
  errorMessage := "examples takes no options"
  evaluate := evaluate

end NamedExample

namespace ExternalExample

def message (kind : String) : String :=
  kind ++ " example contains both \x60externalValue\x60 and \x60value\x60"

/-- The named examples of parameters, headers and media types with the messages about them, each
example once. -/
def distinct (seen : List NamedExampleId) :
    List (NamedExampleId × String) → List (NamedExampleId × String)
  | [] => []
  | (id, text) :: rest =>
    if seen.contains id then distinct seen rest else (id, text) :: distinct (id :: seen) rest

def namedExamples (d : Document) : List (NamedExampleId × String) :=
  let of_ (kind : String) (examples : List (String × NamedExampleId)) :
      List (NamedExampleId × String) := examples.map fun (_, id) => (id, message kind)
  distinct [] <|
    d.parameters.toList.flatMap (fun p => of_ "parameter" p.namedExamples) ++
    d.headers.toList.flatMap (fun h => of_ "header" h.namedExamples) ++
    d.mediaTypes.toList.flatMap (fun m => of_ "media type" m.namedExamples)

def ofNamed (c : RuleContext) (text : String) (e : ApiLint.NamedExample) : Option Finding :=
  if e.value.isSome && e.externalValue.isSome then
    some (c.finding (c.message text []) e.origin (.namedExample e.id))
  else none

def evaluate (c : RuleContext) : List Finding :=
  match c.document with
  | none => []
  | some d =>
    (namedExamples d).filterMap fun (id, text) => (d.namedExample? id).bind (ofNamed c text)

def check : Check where
  name := "oasExampleExternal"
  errorMessage := "oasExampleExternal takes no options"
  evaluate := evaluate

end ExternalExample

end ApiLint.Check
