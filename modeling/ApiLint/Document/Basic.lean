import ApiLint.Document.Reference

/-!
# Documents

A loaded document: the tree it was read from, its objects by kind, and its references. Lookups
by name, and what a slot leads to.
-/

set_option autoImplicit false

namespace ApiLint

open Yaml (Node)

structure Document where
  /-- The version as written. -/
  version : String
  specVersion : SpecVersion
  root : Node
  tags : List String
  paths : Array PathItem
  components : Array Component
  schemas : Array Schema
  parameters : Array Parameter
  headers : Array Header
  mediaTypes : Array MediaType
  namedExamples : Array NamedExample
  requestBodies : Array RequestBody
  responses : Array Response
  pointers : Pointers
  references : References

namespace Document

def isVersion30 (d : Document) : Bool := d.version.startsWith "3.0"

def schema? (d : Document) (id : SchemaId) : Option Schema := d.schemas[id.index]?

def parameter? (d : Document) (id : ParameterId) : Option Parameter := d.parameters[id.index]?

def header? (d : Document) (id : HeaderId) : Option Header := d.headers[id.index]?

def mediaType? (d : Document) (id : MediaTypeId) : Option MediaType := d.mediaTypes[id.index]?

def namedExample? (d : Document) (id : NamedExampleId) : Option NamedExample :=
  d.namedExamples[id.index]?

def requestBody? (d : Document) (id : RequestBodyId) : Option RequestBody :=
  d.requestBodies[id.index]?

def response? (d : Document) (id : ResponseId) : Option Response := d.responses[id.index]?

/-- The object that a local reference leads to. -/
def resolve (d : Document) (reference : String) : Option Target :=
  d.pointers.resolve reference

/-- The object built exactly at a location. -/
def objectAt? (d : Document) (l : Location) : Option Target :=
  d.pointers.objectAt? l.pointer

/-- The name of the schema that a slot holds or leads to. -/
def slotId? (d : Document) (slot : SchemaSlot) : Option SchemaId :=
  match slot.content with
  | .inline id => some id
  | .reference text =>
    match d.resolve text with
    | some (.schema id) => some id
    | _ => none

/-- The schema that a slot holds or leads to. -/
def slotSchema? (d : Document) (slot : SchemaSlot) : Option Schema :=
  (d.slotId? slot).bind d.schema?

def subSchema? (d : Document) : Option SubSchema → Option Schema
  | some (.slot slot) => d.slotSchema? slot
  | _ => none

/-- The schema directly around a schema. -/
def enclosingSchema? (d : Document) (s : Schema) : Option Schema :=
  match s.owner with
  | .schema id => d.schema? id
  | _ => none

def originOf? (d : Document) : Target → Option Origin
  | .document => none
  | .schema id => (d.schema? id).map (·.origin)
  | .parameter id => (d.parameter? id).map (·.origin)
  | .header id => (d.header? id).map (·.origin)
  | .mediaType id => (d.mediaType? id).map (·.origin)
  | .namedExample id => (d.namedExample? id).map (·.origin)
  | .pathItem i => d.paths[i]?.map (·.origin)
  | .component i => d.components[i]?.map (·.origin)

/-- The operations with the path items that hold them, in document order. -/
def operations (d : Document) : List (PathItem × Operation) :=
  d.paths.toList.flatMap fun item => item.operations.map fun op => (item, op)

end Document

end ApiLint
