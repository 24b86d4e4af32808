import ApiLint.Document.Basic
import ApiLint.Document.Fault

/-!
# Loading documents

Builds the objects of a document from its tree. Components come first, then the paths, so that a
reference to a component is followed where it is met. An object is given its name before its
parts are built, so its parts can name it. All references are followed once more at the end.
-/

set_option autoImplicit false

namespace ApiLint

open Yaml (Mark Node Scalar)

/-! ## Reading fields -/

namespace Yaml.Node

def textAt? (n : Node) (key : String) : Option String := (n.get? key).bind str?

def flagAt? (n : Node) (key : String) : Option Bool := (n.get? key).bind bool?

def numberAt? (n : Node) (key : String) : Option Float := (n.get? key).bind float?

/-- A double as a signed 64-bit integer, towards zero and clamped; zero if it is no number. -/
def truncated (x : Float) : Int :=
  match Number.Binary.ofFloat? x with
  | some b => Number.clampInt64 b.truncate
  | none => if x.isNaN then 0 else if x < 0.0 then Number.int64Min else Number.int64Max

/-- An integer; of a number with a fraction the whole part. -/
def integerAt? (n : Node) (key : String) : Option Int := do
  let value ← n.get? key
  value.int? <|> value.float?.map truncated

def itemsAt? (n : Node) (key : String) : Option (List Node) := (n.get? key).bind items?

/-- The texts of a sequence, or of a single value; null has none. -/
def texts (n : Node) : List String :=
  match n with
  | .sequence items _ => items.map keyText
  | .scalar .null _ => []
  | _ => [n.keyText]

def reference? (n : Node) : Option String := n.textAt? "$ref"

def exclusiveBound? (n : Node) : Option ExclusiveBound :=
  match n with
  | .scalar (.bool b) _ => some (.flag b)
  | _ => n.float?.map .value

end Yaml.Node

def Origin.ofEntry (location : Location) (key value : Node) : Origin :=
  ⟨location, key.mark, value.mark, value.stop⟩

def Origin.ofItem (location : Location) (value : Node) : Origin :=
  ofEntry location value value

/-! ## The draft of a document -/

structure Draft where
  version : SpecVersion
  schemas : Array Schema := #[]
  parameters : Array Parameter := #[]
  headers : Array Header := #[]
  mediaTypes : Array MediaType := #[]
  namedExamples : Array NamedExample := #[]
  requestBodies : Array RequestBody := #[]
  responses : Array Response := #[]
  components : Array Component := #[]
  pointers : Pointers := {}
  /-- The references met, in order. -/
  met : Array (String × Origin) := #[]

abbrev Loading := StateM Draft

namespace Loading

def register (location : Location) (target : Target) : Loading Unit :=
  modify fun d => { d with pointers := d.pointers.register location.pointer target }

/-- Notes a reference and follows it through what has been built so far. -/
def reference (text : String) (origin : Origin) : Loading (Option Target) := do
  modify fun d => { d with
    pointers := d.pointers.registerLink origin.location.pointer text
    met := d.met.push (text, origin) }
  return (← get).pointers.resolve text

/-! ## Schemas -/

/-- A schema without its sub-schemas. -/
def bareSchema (id : SchemaId) (node : Node) (origin : Origin) (owner : SchemaOwner)
    (name : Option String) : Schema where
  id
  origin
  owner
  name
  types := ((node.get? "type").map Node.texts).getD []
  format := node.textAt? "format"
  title := node.textAt? "title"
  description := node.textAt? "description"
  required := ((node.itemsAt? "required").getD []).map Yaml.Node.keyText
  dependentRequired :=
    (((node.get? "dependentRequired").map Yaml.Node.fields).getD []).map fun (key, _, names) =>
      (key, names.texts)
  enumeration := node.itemsAt? "enum"
  constant := node.get? "const"
  defaultValue := node.get? "default"
  exampleValue := node.get? "example"
  exampleValues := node.itemsAt? "examples"
  minimum := node.numberAt? "minimum"
  maximum := node.numberAt? "maximum"
  exclusiveMinimum := (node.get? "exclusiveMinimum").bind Node.exclusiveBound?
  exclusiveMaximum := (node.get? "exclusiveMaximum").bind Node.exclusiveBound?
  multipleOf := node.numberAt? "multipleOf"
  minLength := node.integerAt? "minLength"
  maxLength := node.integerAt? "maxLength"
  pattern := node.textAt? "pattern"
  minItems := node.integerAt? "minItems"
  maxItems := node.integerAt? "maxItems"
  minContains := node.integerAt? "minContains"
  maxContains := node.integerAt? "maxContains"
  minProperties := node.integerAt? "minProperties"
  maxProperties := node.integerAt? "maxProperties"
  nullable := node.flagAt? "nullable"
  readOnly := node.flagAt? "readOnly"
  writeOnly := node.flagAt? "writeOnly"
  deprecated := node.flagAt? "deprecated"
  extensions :=
    (node.fields.filter fun (key, _, _) => key.startsWith "x-" || key.startsWith "X-").map
      fun (key, _, value) => (key, value)
  keywordMarks := Keyed.ofList (node.fields.map fun (key, keyNode, _) => (key, keyNode.mark))
  node

/-- How a slot for a sub-schema is built. -/
abbrev SlotBuilder :=
  Node → Origin → SchemaOwner → Option String → Loading SchemaSlot

section
variable (slotOf : SlotBuilder) (node : Node) (location : Location) (owner : SchemaOwner)

def properties : Loading (List (String × SchemaSlot)) :=
  match node.get? "properties" with
  | none => pure []
  | some map =>
    map.fields.mapM fun (name, key, value) => do
      let origin := Origin.ofEntry ((location.field "properties").key name) key value
      return (name, ← slotOf value origin owner (some name))

def subSchema (keyword : String) : Loading (Option SubSchema) :=
  match node.entry? keyword with
  | some (_, .scalar (.bool b) _) => pure (some (.flag b))
  | some (key, value) =>
    if value.isMapping then do
      let origin := Origin.ofEntry (location.field keyword) key value
      return some (.slot (← slotOf value origin owner none))
    else pure none
  | none => pure none

def negation : Loading (Option SchemaSlot) :=
  match node.entry? "not" with
  | some (key, value) =>
    some <$> slotOf value (Origin.ofEntry (location.field "not") key value) owner none
  | none => pure none

/-- The entries of a combinator that are mappings. -/
def combinator (keyword : String) : Loading (List SchemaSlot) :=
  let entries := ((node.itemsAt? keyword).getD []).zipIdx.filter fun (n, _) => n.isMapping
  entries.mapM fun (value, i) =>
    slotOf value (Origin.ofItem ((location.field keyword).index i) value) owner none

end

/-- Builds a schema; `registered` if references may lead to it. -/
def schema (slotOf : SlotBuilder) (node : Node) (origin : Origin) (owner : SchemaOwner)
    (name : Option String) (registered : Bool) : Loading SchemaId := do
  let id : SchemaId := ⟨(← get).schemas.size⟩
  if registered then register origin.location (.schema id)
  modify fun d => { d with schemas := d.schemas.push (bareSchema id node origin owner name) }
  let location := origin.location
  let part := SchemaOwner.schema id
  let properties ← properties slotOf node location part
  let items ← subSchema slotOf node location part "items"
  let additionalProperties ← subSchema slotOf node location part "additionalProperties"
  let negated ← negation slotOf node location part
  let allOf ← combinator slotOf node location part "allOf"
  let anyOf ← combinator slotOf node location part "anyOf"
  let oneOf ← combinator slotOf node location part "oneOf"
  modify fun d => { d with
    schemas := d.schemas.modify id.index fun s =>
      { s with properties, items, additionalProperties, negated, allOf, anyOf, oneOf } }
  return id

/-- Builds the slot of a node at most `size` nodes large: a reference, or else a schema. -/
def slotWithin : Nat → SlotBuilder
  | 0, _, origin, _, _ => pure ⟨.reference "", origin⟩
  | size + 1, node, origin, owner, name => do
    match node.reference? with
    | some text =>
      let _ ← reference text origin
      return ⟨.reference text, origin⟩
    | none => return ⟨.inline (← schema (slotWithin size) node origin owner name true), origin⟩

def slot : SlotBuilder := fun node => slotWithin node.size node

/-- The slot under `schema`. -/
def schemaField (node : Node) (location : Location) (owner : SchemaOwner)
    (name : Option String) : Loading (Option SchemaSlot) :=
  match node.entry? "schema" with
  | some (key, value) =>
    some <$> slot value (Origin.ofEntry (location.field "schema") key value) owner name
  | none => pure none

/-- In version 2.0 a parameter or header can be a schema itself. -/
def selfSchema (node : Node) (origin : Origin) (owner : SchemaOwner) (name : String) :
    Loading SchemaSlot := do
  let id ← schema (slotWithin node.size) node origin owner (some name) false
  return ⟨.inline id, origin⟩

/-! ## Examples and media types -/

def namedExample (name : String) (node : Node) (origin : Origin) : Loading NamedExampleId := do
  let id : NamedExampleId := ⟨(← get).namedExamples.size⟩
  register origin.location (.namedExample id)
  let built : NamedExample := {
    id, origin, name
    summary := node.textAt? "summary"
    description := node.textAt? "description"
    value := node.get? "value"
    externalValue := node.textAt? "externalValue" }
  modify fun d => { d with namedExamples := d.namedExamples.push built }
  return id

/-- An entry of an `examples` map; nothing if it is a reference that leads to no example yet. -/
def exampleSlot (name : String) (node : Node) (origin : Origin) :
    Loading (Option NamedExampleId) := do
  match node.reference? with
  | some text =>
    match ← reference text origin with
    | some (.namedExample id) => return some id
    | _ => return none
  | none => some <$> namedExample name node origin

def namedExamples (node : Node) (location : Location) :
    Loading (List (String × NamedExampleId)) :=
  match node.get? "examples" with
  | none => pure []
  | some map =>
    map.fields.filterMapM fun (name, key, value) => do
      let origin := Origin.ofEntry ((location.field "examples").key name) key value
      return (← exampleSlot name value origin).map (name, ·)

def mediaType (name : String) (node : Node) (origin : Origin) (owner : MediaTypeOwner) :
    Loading MediaTypeId := do
  let id : MediaTypeId := ⟨(← get).mediaTypes.size⟩
  register origin.location (.mediaType id)
  let built : MediaType := { id, origin, name, owner, exampleValue := node.get? "example" }
  modify fun d => { d with mediaTypes := d.mediaTypes.push built }
  let schema ← schemaField node origin.location (.mediaType id) none
  let namedExamples ← namedExamples node origin.location
  modify fun d => { d with
    mediaTypes := d.mediaTypes.modify id.index fun m => { m with schema, namedExamples } }
  return id

def content (node : Node) (location : Location) (owner : MediaTypeOwner) :
    Loading (List (String × MediaTypeId)) :=
  match node.get? "content" with
  | none => pure []
  | some map =>
    map.fields.mapM fun (name, key, value) => do
      let origin := Origin.ofEntry ((location.field "content").key name) key value
      return (name, ← mediaType name value origin owner)

/-! ## Parameters and headers -/

def parameter (node : Node) (origin : Origin) : Loading ParameterId := do
  let id : ParameterId := ⟨(← get).parameters.size⟩
  register origin.location (.parameter id)
  let name := (node.textAt? "name").getD ""
  let place := node.textAt? "in"
  let built : Parameter := {
    id, origin, name, place
    description := node.textAt? "description"
    required := (node.flagAt? "required").getD false
    exampleValue := node.get? "example" }
  modify fun d => { d with parameters := d.parameters.push built }
  let isSchema :=
    (← get).version == .swagger2 && place != some "body" && node.hasKey "type" &&
      !node.hasKey "schema"
  let schema ←
    if isSchema then some <$> selfSchema node origin (.parameter id) name
    else schemaField node origin.location (.parameter id) (some name)
  let namedExamples ← namedExamples node origin.location
  let content ← content node origin.location (.parameter id)
  modify fun d => { d with
    parameters := d.parameters.modify id.index fun p =>
      { p with schema, namedExamples, content } }
  return id

/-- A parameter; nothing if it is a reference that leads to no parameter yet. -/
def parameterSlot (node : Node) (origin : Origin) : Loading (Option ParameterId) := do
  match node.reference? with
  | some text =>
    match ← reference text origin with
    | some (.parameter id) => return some id
    | _ => return none
  | none => some <$> parameter node origin

def header (name : String) (node : Node) (origin : Origin) : Loading HeaderId := do
  let id : HeaderId := ⟨(← get).headers.size⟩
  register origin.location (.header id)
  let built : Header := {
    id, origin, name
    description := node.textAt? "description"
    exampleValue := node.get? "example" }
  modify fun d => { d with headers := d.headers.push built }
  let isSchema :=
    (← get).version == .swagger2 && node.hasKey "type" && !node.hasKey "schema"
  let schema ←
    if isSchema then some <$> selfSchema node origin (.header id) name
    else schemaField node origin.location (.header id) (some name)
  let namedExamples ← namedExamples node origin.location
  let content ← content node origin.location (.header id)
  modify fun d => { d with
    headers := d.headers.modify id.index fun h => { h with schema, namedExamples, content } }
  return id

/-- A header; nothing if it is a reference that leads to no header yet. -/
def headerSlot (name : String) (node : Node) (origin : Origin) : Loading (Option HeaderId) := do
  match node.reference? with
  | some text =>
    match ← reference text origin with
    | some (.header id) => return some id
    | _ => return none
  | none => some <$> header name node origin

/-! ## Request bodies and responses -/

/-- The component that stands at the pointer a reference names. -/
def componentAt? (d : Draft) (reference : String) : Option Component :=
  d.components.find? fun c => c.origin.location.pointer == reference

def requestBody (node : Node) (origin : Origin) : Loading RequestBodyId := do
  let id : RequestBodyId := ⟨(← get).requestBodies.size⟩
  let built : RequestBody := {
    id, origin
    description := node.textAt? "description"
    required := (node.flagAt? "required").getD false }
  modify fun d => { d with requestBodies := d.requestBodies.push built }
  let content ← content node origin.location (.requestBody id)
  modify fun d => { d with
    requestBodies := d.requestBodies.modify id.index fun b => { b with content } }
  return id

/-- A request body; of a reference the component at its pointer. -/
def requestBodySlot (node : Node) (origin : Origin) : Loading (Option RequestBodyId) := do
  match node.reference? with
  | some text =>
    let _ ← reference text origin
    match componentAt? (← get) text with
    | some ⟨_, _, _, _, _, .requestBody id⟩ => return some id
    | _ => return none
  | none => some <$> requestBody node origin

def responseHeaders (node : Node) (location : Location) : Loading (List (String × HeaderId)) :=
  match node.get? "headers" with
  | none => pure []
  | some map =>
    map.fields.filterMapM fun (name, key, value) => do
      let origin := Origin.ofEntry ((location.field "headers").key name) key value
      return (← headerSlot name value origin).map (name, ·)

def response (node : Node) (origin : Origin) : Loading ResponseId := do
  let id : ResponseId := ⟨(← get).responses.size⟩
  let built : Response := { id, origin, description := node.textAt? "description" }
  modify fun d => { d with responses := d.responses.push built }
  let headers ← responseHeaders node origin.location
  let content ← content node origin.location (.response id)
  let schema ←
    if (← get).version == .swagger2 then schemaField node origin.location (.response id) none
    else pure none
  modify fun d => { d with
    responses := d.responses.modify id.index fun r => { r with headers, content, schema } }
  return id

/-- A response; of a reference the component at its pointer. -/
def responseSlot (node : Node) (origin : Origin) : Loading (Option ResponseId) := do
  match node.reference? with
  | some text =>
    let _ ← reference text origin
    match componentAt? (← get) text with
    | some ⟨_, _, _, _, _, .response id⟩ => return some id
    | _ => return none
  | none => some <$> response node origin

/-! ## Components -/

/-- What a component entry is. References are followed once all components are built. -/
def componentContent (kind : ComponentKind) (name : String) (index : Nat) (node : Node)
    (origin : Origin) : Loading ComponentContent := do
  match kind, node.reference? with
  | .schemas, _ => .schema <$> slot node origin (.component name) (some name)
  | _, some text =>
    let _ ← reference text origin
    return .unresolved
  | .parameters, none => .parameter <$> parameter node origin
  | .requestBodies, none => .requestBody <$> requestBody node origin
  | .responses, none => .response <$> response node origin
  | .examples, none => .namedExample <$> namedExample name node origin
  | .headers, none => .header <$> header name node origin
  | .links, none | .securitySchemes, none =>
    register origin.location (.component index)
    return .opaqueEntry

def component (kind : ComponentKind) (name : String) (node : Node) (origin : Origin) :
    Loading Unit := do
  let content ← componentContent kind name (← get).components.size node origin
  let built : Component := {
    kind, name, origin, content
    description := node.textAt? "description"
    reference := node.reference? }
  modify fun d => { d with components := d.components.push built }

/-- The components under one field. -/
def section_ (kind : ComponentKind) (node : Node) (base : Location) (field : String) :
    Loading Unit :=
  match node.get? field with
  | none => pure ()
  | some map =>
    map.fields.forM fun (name, key, value) =>
      component kind name value (Origin.ofEntry ((base.field field).key name) key value)

/-- Where documents of version 2.0 keep their components. -/
def swagger2Sections : List (String × ComponentKind) :=
  [("definitions", .schemas), ("parameters", .parameters), ("responses", .responses),
   ("securityDefinitions", .securitySchemes)]

def components (root : Node) : Loading Unit := do
  if (← get).version == .swagger2 then
    swagger2Sections.forM fun (field, kind) => section_ kind root .root field
  else
    match root.get? "components" with
    | none => pure ()
    | some node =>
      ComponentKind.all.forM fun kind =>
        section_ kind node (Location.root.field "components") kind.name

/-! ## Paths -/

def methods : List String :=
  ["get", "put", "post", "delete", "options", "head", "patch", "trace"]

def parametersList (node : Node) (location : Location) : Loading (List ParameterId) :=
  ((node.itemsAt? "parameters").getD []).zipIdx.filterMapM fun (value, i) =>
    parameterSlot value (Origin.ofItem ((location.field "parameters").index i) value)

def operationResponses (node : Node) (location : Location) :
    Loading (List (String × ResponseId)) :=
  match node.get? "responses" with
  | none => pure []
  | some map =>
    map.fields.filterMapM fun (code, key, value) => do
      let origin := Origin.ofEntry ((location.field "responses").key code) key value
      return (← responseSlot value origin).map (code, ·)

def operation (method : String) (node : Node) (origin : Origin) : Loading Operation := do
  let location := origin.location
  let parameters ← parametersList node location
  let requestBody ←
    match node.entry? "requestBody" with
    | some (key, value) =>
      requestBodySlot value (Origin.ofEntry (location.field "requestBody") key value)
    | none => pure none
  let responses ← operationResponses node location
  return {
    method, origin, parameters, requestBody, responses
    operationId := node.textAt? "operationId" }

def pathItem (template : String) (node : Node) (origin : Origin) : Loading PathItem := do
  let parameters ← parametersList node origin.location
  let entries := node.fields.filter fun (method, _, _) => methods.contains method
  let operations ← entries.mapM fun (method, key, value) =>
    operation method value (Origin.ofEntry (origin.location.field method) key value)
  return { template, origin, parameters, operations }

/-- The path items; extension fields are none. -/
def paths (root : Node) : Loading (List PathItem) :=
  match root.get? "paths" with
  | none => pure []
  | some map =>
    (map.fields.filter fun (template, _, _) => !template.startsWith "x-").mapM
      fun (template, key, value) =>
        pathItem template value
          (Origin.ofEntry ((Location.root.field "paths").key template) key value)

end Loading

/-! ## The document -/

namespace Document

/-- Doubles given as versions keep a point and have an exponent from `1e16` and below `1e-4`. -/
def versionLayout : Number.Layout where
  isPositional e := -4 ≤ e && e < 16
  pointZero := true
  plusSign := false
  tie := .up

def versionText (n : Node) : String :=
  match n with
  | .scalar (.float x) _ => versionLayout.render x
  | _ => n.keyText

/-- What a component that is a reference leads to. -/
def followed (pointers : Pointers) (c : Component) : Component :=
  match c.reference, c.content with
  | none, _ | some _, .schema _ => c
  | some text, _ =>
    { c with content := match pointers.resolve text with
        | some (.parameter id) => .parameter id
        | some (.header id) => .header id
        | some (.namedExample id) => .namedExample id
        | some (.component _) => .opaqueEntry
        | _ => .unresolved }

def tagNames (root : Node) : List String :=
  ((root.itemsAt? "tags").getD []).filterMap fun tag => tag.textAt? "name"

/-- The document of a tree. -/
def ofNode (root : Node) : Except LoadFault Document := do
  unless root.isMapping do throw .notAMapping
  let version ← match root.get? "openapi" <|> root.get? "swagger" with
    | some n => pure (versionText n)
    | none => throw .missingVersion
  let specVersion := SpecVersion.ofText version
  let build : Loading (List PathItem) := do
    Loading.components root
    Loading.paths root
  let (paths, draft) := build.run { version := specVersion }
  return {
    version, specVersion, root
    tags := tagNames root
    paths := paths.toArray
    components := draft.components.map (followed draft.pointers)
    schemas := draft.schemas
    parameters := draft.parameters
    headers := draft.headers
    mediaTypes := draft.mediaTypes
    namedExamples := draft.namedExamples
    requestBodies := draft.requestBodies
    responses := draft.responses
    pointers := draft.pointers
    references :=
      ⟨draft.met.toList.map fun (text, origin) => ⟨text, origin, draft.pointers.resolve text⟩⟩ }

/-- The document written by a text. -/
def ofSource (source : String) : Except LoadFault Document := do
  ofNode (← (Node.ofSource source).mapError LoadFault.ofRead)

end Document

end ApiLint
