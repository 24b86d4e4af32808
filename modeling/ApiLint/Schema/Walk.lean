import ApiLint.Document.Basic

/-!
# Walking schemas

Lists the schemas that a document reaches, each once: those of the components first, then those
of parameters, headers, media types and responses, and below each its sub-schemas, through
references, down to a bounded depth. A schema that stands at the key of one listed before is left
out.
-/

set_option autoImplicit false

namespace ApiLint

open Yaml (Mark)

def SubSchema.slots : Option SubSchema → List SchemaSlot
  | some (.slot s) => [s]
  | _ => []

/-- The slots of the direct sub-schemas. -/
def Schema.children (s : Schema) : List SchemaSlot :=
  s.properties.map (·.2) ++ SubSchema.slots s.items ++ SubSchema.slots s.additionalProperties ++
    s.negated.toList ++ s.branches

/-- A schema is told apart from others by the place of its key. -/
def Schema.position (s : Schema) : Mark := s.origin.keyMark

/-- The slots that a walk starts from. -/
def Document.schemaRoots (d : Document) : List SchemaSlot :=
  (d.components.toList.filterMap fun c =>
    match c.content with
    | .schema slot => some slot
    | _ => none) ++
  d.parameters.toList.filterMap (·.schema) ++
  d.headers.toList.filterMap (·.schema) ++
  d.mediaTypes.toList.filterMap (·.schema) ++
  d.responses.toList.filterMap (·.schema)

/-- A walk under way. -/
structure Walk where
  /-- The schemas met, latest first. -/
  visited : List SchemaId := []
  /-- The positions of the schemas listed. -/
  seen : List Mark := []
  /-- The schemas listed, latest first. -/
  listed : List SchemaId := []

namespace Walk

/-- How many levels below a root are walked. -/
def maxDepth : Nat := 40

/-- Notes a schema. -/
def visit (w : Walk) (s : Schema) : Walk :=
  if w.seen.contains s.position then { w with visited := s.id :: w.visited }
  else
    { visited := s.id :: w.visited, seen := s.position :: w.seen, listed := s.id :: w.listed }

/-- Walks a slot and `levels - 1` levels below it. -/
def slot (d : Document) : Nat → Walk → SchemaSlot → Walk
  | 0, w, _ => w
  | levels + 1, w, s =>
    match d.slotSchema? s with
    | none => w
    | some schema =>
      if w.visited.contains schema.id then w
      else schema.children.foldl (slot d levels) (w.visit schema)

end Walk

/-- The schemas of a document in the order walked. -/
def Document.walk (d : Document) : List SchemaId :=
  (d.schemaRoots.foldl (Walk.slot d (Walk.maxDepth + 1)) {}).listed.reverse

def Document.walkedSchemas (d : Document) : List Schema :=
  d.walk.filterMap d.schema?

end ApiLint
