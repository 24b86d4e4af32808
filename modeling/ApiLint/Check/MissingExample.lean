import ApiLint.Lint.Context

/-!
# Missing examples

Whatever can carry an example should have one, unless an example can be told from the schema.
Containers are judged first. A container that is covered, and a property that is reported in
place of its container, notes its key. Schemas are judged each by itself; then the judgements are
gone through in the order of the walk, and a schema whose key has been noted is passed over.
-/

set_option autoImplicit false

namespace ApiLint

open Yaml (Mark Node)

namespace Schema

/-- Types whose examples go without saying. -/
def implicitTypes : List String := ["boolean", "string", "number", "integer"]

def isEnumerated (s : Schema) : Bool := s.enumeration.any (!·.isEmpty)

/-- An example can be told from the type or an enumeration. -/
def isImplicit (s : Schema) : Bool :=
  implicitTypes.any s.hasType || s.isEnumerated ||
    (s.extensions.lookup "x-extensible-enum").isSome

/-- An example, a constant or a default is written in the schema. -/
def hasWrittenValue (s : Schema) : Bool :=
  s.hasExample || s.constant.isSome || s.defaultValue.isSome

end Schema

namespace Document

/-- A value is written in the schema or in its first property, followed down so many steps. -/
def hasExplicitExample (d : Document) : Nat → Schema → Bool
  | steps, s =>
    s.hasWrittenValue ||
      match steps with
      | 0 => false
      | steps + 1 =>
        match s.properties.head?.bind fun (_, slot) => d.slotSchema? slot with
        | some first => d.hasExplicitExample steps first
        | none => false

/-- A property that leads nowhere is covered. -/
def coversProperty (d : Document) (slot : SchemaSlot) : Bool :=
  match d.slotSchema? slot with
  | some s => d.hasExplicitExample Pointers.maxHops s
  | none => true

/-- There are properties, and all are covered. -/
def coversProperties (d : Document) (s : Schema) : Bool :=
  !s.properties.isEmpty && s.properties.all fun (_, slot) => d.coversProperty slot

/-- Items speak for their array if they have a value themselves or in all their properties. -/
def coversItems (d : Document) (items : Schema) : Bool :=
  d.hasExplicitExample Pointers.maxHops items || items.isEnumerated || d.coversProperties items

/-- An example can be told from the schema. -/
def infersExample (d : Document) (s : Schema) : Bool :=
  s.hasWrittenValue || s.isImplicit || s.types.isEmpty ||
    if s.hasType "array" then (d.subSchema? s.items).any d.coversItems
    else d.coversProperties s

def infersExampleAt (d : Document) (slot : Option SchemaSlot) : Bool :=
  (slot.bind d.slotSchema?).any d.infersExample

/-- The first property that is not covered. -/
def firstUncovered? (d : Document) (s : Schema) : Option (String × SchemaSlot) :=
  s.properties.find? fun (_, slot) => !d.coversProperty slot

/-- A schema around it has an example, or one can be told from its type. -/
def isCoveredFromAbove (d : Document) : Nat → Schema → Bool
  | 0, _ => false
  | steps + 1, s =>
    match d.enclosingSchema? s with
    | none => false
    | some parent =>
      parent.hasExample || parent.isImplicit || parent.types.isEmpty ||
        d.isCoveredFromAbove steps parent

end Document

namespace Check.MissingExample

def propertyMissing : String :=
  "schema property \x60\x7b\x7d\x60 is missing \x60examples\x60 or \x60example\x60"

def mediaTypePropertyMissing : String :=
  "media type schema property \x60\x7b\x7d\x60 is missing \x60examples\x60 or \x60example\x60"

def containerMissing : String := "\x7b\x7d is missing \x60examples\x60 or \x60example\x60"

/-- What has been found out about one container or schema: findings, and the keys that are
accounted for. -/
structure Outcome where
  findings : List Finding := []
  keys : List Mark := []

/-- An example that is not null. -/
def hasValue (value : Option Node) : Bool := value.any (!·.isNull)

/-- The key of a property whose schema is written in place. -/
def propertyKeys (d : Document) (slot : SchemaSlot) : List Mark :=
  match slot.content with
  | .inline id => ((d.schema? id).map (·.position)).toList
  | .reference _ => []

def missing (c : RuleContext) (kind : String) (origin : Origin) (target : Target) : Finding :=
  c.finding (c.message containerMissing [kind]) origin target

/-! ## Containers -/

def ofParameter (c : RuleContext) (d : Document) (p : Parameter) : Outcome :=
  let contentCovers := p.content.any fun (_, id) =>
    (d.mediaType? id).any fun m => hasValue m.exampleValue || !m.namedExamples.isEmpty
  if d.infersExampleAt p.schema || contentCovers || hasValue p.exampleValue ||
      !p.namedExamples.isEmpty then { keys := [p.origin.keyMark] }
  else { findings := [missing c "parameter" p.origin (.parameter p.id)] }

/-- Headers without a schema are not judged. -/
def ofHeader (c : RuleContext) (d : Document) (h : Header) : Outcome :=
  match h.schema.bind d.slotSchema? with
  | none => {}
  | some s =>
    if d.infersExample s || hasValue h.exampleValue || !h.namedExamples.isEmpty then
      { keys := [h.origin.keyMark] }
    else { findings := [missing c "header" h.origin (.header h.id)] }

/-- The first uncovered property of the schema of a media type is reported beside it. -/
def ofMediaType (c : RuleContext) (d : Document) (m : MediaType) : Outcome :=
  let key := m.origin.keyMark
  if hasValue m.exampleValue || !m.namedExamples.isEmpty || d.infersExampleAt m.schema then
    { keys := [key] }
  else
    let whole := missing c "media type" m.origin (.mediaType m.id)
    match (m.schema.bind d.slotSchema?).bind d.firstUncovered? with
    | none => { findings := [whole], keys := [key] }
    | some (name, slot) =>
      let target := match d.slotSchema? slot with
        | some property => Target.schema property.id
        | none => .mediaType m.id
      let part := c.finding (c.message mediaTypePropertyMissing [name]) slot.origin target
      { findings := [part, whole], keys := key :: propertyKeys d slot }

/-- One outcome for each container. -/
def containers (c : RuleContext) (d : Document) : List Outcome :=
  d.parameters.toList.map (ofParameter c d) ++ d.headers.toList.map (ofHeader c d) ++
    d.mediaTypes.toList.map (ofMediaType c d)

/-- One job for each container. -/
def containerJobs (c : RuleContext) (d : Document) : List (Job Outcome) :=
  (containers c d).map fun outcome => { emit := fun _ => [outcome] }

/-! ## Schemas -/

/-- The key that stands for a schema: of one that sits in a container, that of the container. -/
def schemaKey (d : Document) (s : Schema) : Mark :=
  let container := match s.owner with
    | .parameter id => (d.parameter? id).map fun (p : Parameter) => p.origin.keyMark
    | .header id => (d.header? id).map fun (h : Header) => h.origin.keyMark
    | .mediaType id => (d.mediaType? id).map fun (m : MediaType) => m.origin.keyMark
    | _ => none
  container.getD s.position

/-- A schema without an example: the key that it goes by, and what to report. -/
structure Lack where
  key : Mark
  outcome : Outcome

/-- Judges a schema; none if it is covered. -/
def ofSchema (c : RuleContext) (d : Document) (s : Schema) : Option Lack :=
  if d.infersExample s || d.isCoveredFromAbove (Pointers.maxHops + 1) s then none
  else
    let target := Target.schema s.id
    let whole := missing c "schema" s.origin target
    let key := schemaKey d s
    match d.firstUncovered? s with
    | none => some ⟨key, { findings := [whole] }⟩
    | some (name, slot) =>
      let part := c.finding (c.message propertyMissing [name]) slot.origin target
      some ⟨key, { findings := [part, whole], keys := propertyKeys d slot }⟩

/-- What is found out about a schema, with its position in the walk. -/
abbrev Judgement := Nat × Option Lack

/-- One job for each schema of the walk. -/
def schemaJobs (c : RuleContext) (d : Document) : List (Job Judgement) :=
  c.walk.zipIdx.map fun (id, position) =>
    { emit := fun _ => ((d.schema? id).map fun s => (position, ofSchema c d s)).toList }

/-- Judgements in the order of the walk, in whatever order they were made. -/
def inWalkOrder (judgements : List Judgement) : List (Option Lack) :=
  (judgements.mergeSort fun a b => a.1 ≤ b.1).map (·.2)

/-- Reports the schemas whose keys are not accounted for. -/
def report (seen : List Mark) : List (Option Lack) → List Finding
  | [] => []
  | none :: rest => report seen rest
  | some lack :: rest =>
    if seen.contains lack.key then report seen rest
    else
      lack.outcome.findings ++ report (lack.outcome.keys ++ lack.key :: seen) rest

/-- The findings that follow from what is known of containers and schemas. -/
def merge (containers : List Outcome) (judgements : List (Option Lack)) : List Finding :=
  containers.flatMap (·.findings) ++ report (containers.flatMap (·.keys)) judgements

def evaluate (c : RuleContext) : List Finding :=
  match c.document with
  | none => []
  | some d =>
    merge (c.runPool "containers" (containerJobs c d))
      (inWalkOrder (c.runPool "schemas" (schemaJobs c d)))

def check : Check where
  name := "oasExampleMissing"
  errorMessage := "oasExampleMissing takes no options"
  evaluate := evaluate

end Check.MissingExample

end ApiLint
