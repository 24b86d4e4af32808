import ApiLint.Document.Location
import ApiLint.Yaml.Node

/-!
# The document model

The typed objects of an OpenAPI document. Objects of one kind live in an array and are named by
their positions in it; a slot for a schema holds either such a name or the text of a reference,
which is never replaced by what it points at.
-/

set_option autoImplicit false

namespace ApiLint

open Yaml (Mark Node)

/-! ## Names of objects -/

structure SchemaId where
  index : Nat
  deriving Repr, DecidableEq, Inhabited

structure ParameterId where
  index : Nat
  deriving Repr, DecidableEq, Inhabited

structure HeaderId where
  index : Nat
  deriving Repr, DecidableEq, Inhabited

structure MediaTypeId where
  index : Nat
  deriving Repr, DecidableEq, Inhabited

structure NamedExampleId where
  index : Nat
  deriving Repr, DecidableEq, Inhabited

structure RequestBodyId where
  index : Nat
  deriving Repr, DecidableEq, Inhabited

structure ResponseId where
  index : Nat
  deriving Repr, DecidableEq, Inhabited

/-- What a finding is attached to and a reference points at. -/
inductive Target where
  | document
  | schema (id : SchemaId)
  | parameter (id : ParameterId)
  | header (id : HeaderId)
  | mediaType (id : MediaTypeId)
  | namedExample (id : NamedExampleId)
  | pathItem (index : Nat)
  | component (index : Nat)
  deriving Repr, DecidableEq, Inhabited

/-! ## Versions -/

inductive SpecVersion where
  | swagger2
  | openApi30
  | openApi31
  deriving Repr, DecidableEq

/-- Versions that start neither with `2.` nor with `3.0` count as 3.1. -/
def SpecVersion.ofText (version : String) : SpecVersion :=
  if version.startsWith "2." then .swagger2
  else if version.startsWith "3.0" then .openApi30
  else .openApi31

/-! ## Schemas -/

/-- Where an object stands in the source. -/
structure Origin where
  location : Location
  /-- The key it is stored under; of a sequence item its start. -/
  keyMark : Mark
  mark : Mark
  stop : Mark
  deriving Repr, DecidableEq

inductive SlotContent where
  | inline (id : SchemaId)
  | reference (text : String)
  deriving Repr, DecidableEq

/-- A place that holds a schema. -/
structure SchemaSlot where
  content : SlotContent
  origin : Origin
  deriving Repr, DecidableEq

def SchemaSlot.isReference (slot : SchemaSlot) : Bool :=
  match slot.content with
  | .reference _ => true
  | .inline _ => false

/-- A sub-schema that may also be a boolean. -/
inductive SubSchema where
  | flag (value : Bool)
  | slot (slot : SchemaSlot)
  deriving Repr, DecidableEq

inductive ExclusiveBound where
  | flag (value : Bool)
  | value (bound : Float)

/-- The object that holds a schema. -/
inductive SchemaOwner where
  | component (name : String)
  | schema (id : SchemaId)
  | parameter (id : ParameterId)
  | header (id : HeaderId)
  | mediaType (id : MediaTypeId)
  | response (id : ResponseId)
  deriving Repr, DecidableEq

structure Schema where
  id : SchemaId
  origin : Origin
  owner : SchemaOwner
  /-- The name of the component, property, parameter or header, where there is one. -/
  name : Option String
  types : List String
  format : Option String
  title : Option String
  description : Option String
  properties : List (String × SchemaSlot) := []
  items : Option SubSchema := none
  additionalProperties : Option SubSchema := none
  negated : Option SchemaSlot := none
  required : List String
  dependentRequired : List (String × List String)
  enumeration : Option (List Node)
  constant : Option Node
  defaultValue : Option Node
  exampleValue : Option Node
  exampleValues : Option (List Node)
  allOf : List SchemaSlot := []
  anyOf : List SchemaSlot := []
  oneOf : List SchemaSlot := []
  minimum : Option Float
  maximum : Option Float
  exclusiveMinimum : Option ExclusiveBound
  exclusiveMaximum : Option ExclusiveBound
  multipleOf : Option Float
  minLength : Option Int
  maxLength : Option Int
  pattern : Option String
  minItems : Option Int
  maxItems : Option Int
  minContains : Option Int
  maxContains : Option Int
  minProperties : Option Int
  maxProperties : Option Int
  nullable : Option Bool
  readOnly : Option Bool
  writeOnly : Option Bool
  deprecated : Option Bool
  extensions : List (String × Node)
  /-- The key of every keyword; of repeated ones the last. -/
  keywordMarks : List (String × Mark)
  node : Node

namespace Schema

def hasType (s : Schema) (name : String) : Bool := s.types.contains name

def hasKeyword (s : Schema) (keyword : String) : Bool :=
  (Keyed.find? keyword s.keywordMarks).isSome

/-- The key of a keyword, or else of the schema. -/
def keywordMark (s : Schema) (keyword : String) : Mark :=
  (Keyed.find? keyword s.keywordMarks).getD s.origin.keyMark

def hasExample (s : Schema) : Bool :=
  s.exampleValue.isSome || !(s.exampleValues.getD []).isEmpty

/-- The alternatives and parts that a schema is composed of. -/
def branches (s : Schema) : List SchemaSlot := s.allOf ++ s.anyOf ++ s.oneOf

def property? (s : Schema) (name : String) : Option SchemaSlot := s.properties.lookup name

end Schema

/-! ## The other objects -/

structure Parameter where
  id : ParameterId
  origin : Origin
  name : String
  /-- The value of `in`. -/
  place : Option String
  description : Option String
  required : Bool
  schema : Option SchemaSlot := none
  exampleValue : Option Node
  namedExamples : List (String × NamedExampleId) := []
  content : List (String × MediaTypeId) := []

structure Header where
  id : HeaderId
  origin : Origin
  name : String
  description : Option String
  schema : Option SchemaSlot := none
  exampleValue : Option Node
  namedExamples : List (String × NamedExampleId) := []
  content : List (String × MediaTypeId) := []

/-- The object whose `content` holds a media type. -/
inductive MediaTypeOwner where
  | requestBody (id : RequestBodyId)
  | response (id : ResponseId)
  | parameter (id : ParameterId)
  | header (id : HeaderId)
  deriving Repr, DecidableEq

structure MediaType where
  id : MediaTypeId
  origin : Origin
  name : String
  owner : MediaTypeOwner
  schema : Option SchemaSlot := none
  exampleValue : Option Node
  namedExamples : List (String × NamedExampleId) := []

/-- An entry of an `examples` map. -/
structure NamedExample where
  id : NamedExampleId
  origin : Origin
  name : String
  summary : Option String
  description : Option String
  value : Option Node
  externalValue : Option String

structure RequestBody where
  id : RequestBodyId
  origin : Origin
  description : Option String
  required : Bool
  content : List (String × MediaTypeId) := []

structure Response where
  id : ResponseId
  origin : Origin
  description : Option String
  headers : List (String × HeaderId) := []
  content : List (String × MediaTypeId) := []
  /-- Documents of version 2.0 keep the schema here. -/
  schema : Option SchemaSlot := none

structure Operation where
  method : String
  origin : Origin
  operationId : Option String
  parameters : List ParameterId
  requestBody : Option RequestBodyId
  responses : List (String × ResponseId)

structure PathItem where
  template : String
  origin : Origin
  parameters : List ParameterId
  operations : List Operation

/-! ## Components -/

inductive ComponentKind where
  | schemas
  | parameters
  | requestBodies
  | responses
  | examples
  | headers
  | links
  | securitySchemes
  deriving Repr, DecidableEq

namespace ComponentKind

/-- In the order in which components are read. -/
def all : List ComponentKind :=
  [schemas, parameters, requestBodies, responses, examples, headers, links, securitySchemes]

def name : ComponentKind → String
  | schemas => "schemas"
  | parameters => "parameters"
  | requestBodies => "requestBodies"
  | responses => "responses"
  | examples => "examples"
  | headers => "headers"
  | links => "links"
  | securitySchemes => "securitySchemes"

end ComponentKind

/-- What a component is. -/
inductive ComponentContent where
  | schema (slot : SchemaSlot)
  | parameter (id : ParameterId)
  | requestBody (id : RequestBodyId)
  | response (id : ResponseId)
  | namedExample (id : NamedExampleId)
  | header (id : HeaderId)
  /-- A link or a security scheme, of which only the description is read. -/
  | opaqueEntry
  /-- A reference that leads to no component. -/
  | unresolved

structure Component where
  kind : ComponentKind
  name : String
  origin : Origin
  description : Option String
  reference : Option String
  content : ComponentContent

end ApiLint
