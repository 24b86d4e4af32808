import ApiLint.Json.Equality
import ApiLint.Json.Pointer
import ApiLint.JsonSchema.Basic
import ApiLint.Pattern.Spelling
import ApiLint.Pattern.Syntax

/-!
# Reading schemas

Builds the schema that a JSON value describes, together with the targets of its references. The
keywords of an object are read in the order of their names and a reference where it stands, so
that of several faults the first in this order is reported.

Left out are the keywords that name schemas and refer to them by name: `$id`, `$anchor`,
`$dynamicAnchor` and `$dynamicRef`, and `id` of draft 4. They are read as keywords without effect,
and every reference is a pointer into the root.
-/

set_option autoImplicit false

namespace ApiLint.JsonSchema

/-- The targets read so far, latest first. -/
abbrev Reading := StateT Library (Except Violation)

/-- What a schema is part of. -/
structure Source where
  draft : SchemaDraft
  root : Json

def fault {α : Type} (value : Json) (cause : Cause) : Reading α :=
  throw ⟨value, cause⟩

/-! ## Plain values -/

def readNumber (value : Json) : Reading Json :=
  match value with
  | .int _ | .float _ => return value
  | _ => fault value (.wrongType .number)

/-- A count. Draft 4 knows integers alone; later drafts take any whole number, and a negative one
for zero. -/
def readCount (draft : SchemaDraft) (value : Json) : Reading Nat :=
  match value, draft with
  | .int i, .draft4 => if 0 ≤ i then return i.toNat else fault value (.belowMinimum (.int 0))
  | .int i, .draft202012 => return i.toNat
  | .float x, .draft202012 =>
    match Number.wholeInt64? x with
    | some i => return i.toNat
    | none => fault value (.wrongType .integer)
  | _, _ => fault value (.wrongType .integer)

/-- A count that has to be written as such where it is present. -/
def readOptionalCount (members : List (String × Json)) (key : String) : Reading (Option Nat) :=
  match Keyed.find? key members with
  | none => return none
  | some (.int i) => if 0 ≤ i then return i.toNat else fault (.int i) (.belowMinimum (.int 0))
  | some value => return some (← readCount .draft202012 value)

def readItems (value : Json) : Reading (List Json) :=
  match value with
  | .arr items => return items
  | _ => fault value (.wrongType .array)

def readMembers (value : Json) : Reading (List (String × Json)) :=
  match value with
  | .obj members => return members
  | _ => fault value (.wrongType .object)

def readString (value : Json) : Reading String :=
  match value with
  | .str s => return s
  | _ => fault value (.wrongType .string)

def readNames (value : Json) : Reading (List String) := do
  (← readItems value).mapM readString

/-- A pattern. The fault of one that cannot be read is that of the value it belongs to. -/
def readPattern (holder : Json) (text : String) : Reading Pattern :=
  match Pattern.read? text with
  | some p => return p
  | none => fault holder (.malformed "regex")

def kindNames : List Json := JsonKind.all.map fun k => .str k.name

def readKinds (value : Json) : Reading (List JsonKind) :=
  match value with
  | .str name =>
    match JsonKind.ofName? name with
    | some kind => return [kind]
    | none => fault value .unknownType
  | .arr [.str name] =>
    match JsonKind.ofName? name with
    | some kind => return [kind]
    | none => fault value .unknownType
  | .arr items => do
    let kinds ← items.mapM fun item =>
      match item with
      | .str name =>
        match JsonKind.ofName? name with
        | some kind => return kind
        | none => fault item (.unlisted kindNames)
      | _ => fault item (.wrongType .string)
    return JsonKind.all.filter kinds.contains
  | _ => fault value (.wrongTypes [.array, .string])

/-! ## Keywords -/

section

variable (source : Source) (readSchema : Json → Reading JsonSchema)

def readSchemas (value : Json) : Reading (List JsonSchema) := do
  (← readItems value).mapM readSchema

def readNamedSchemas (value : Json) : Reading (List (String × JsonSchema)) := do
  (← readMembers value).mapM fun (name, item) => return (name, ← readSchema item)

def readPatternSchemas (value : Json) : Reading (List (Pattern × JsonSchema)) := do
  (← readMembers value).mapM fun (text, item) =>
    return (← readPattern item text, ← readSchema item)

/-- The target of a reference is read once. While it is being read it counts as known, so that
references may form loops. -/
def readReference (value : Json) : Reading (List Keyword) := do
  let text ← readString value
  let pointer := String.ofList (text.toList.drop 1)
  if ((← get).lookup pointer).isSome then
    return [.reference pointer]
  match source.root.pointer? pointer with
  | none => return []
  | some target =>
    modify ((pointer, .flag true) :: ·)
    let schema ← readSchema target
    modify ((pointer, schema) :: ·)
    return [.reference pointer]

/-- Some additional properties are not allowed without conditions. -/
def restrictsProperties (members : List (String × Json)) : Bool :=
  match Keyed.find? "additionalProperties" members with
  | some (.bool false) | some (.obj _) => true
  | _ => false

/-- The one or two names that an object requires beside its named properties and a schema for all
others. -/
def recordNames? (members : List (String × Json)) : Option (List String) :=
  match Keyed.find? "additionalProperties" members, Keyed.find? "patternProperties" members,
    Keyed.find? "properties" members, Keyed.find? "required" members with
  | some (.obj _), none, some (.obj _), some (.arr names) =>
    if 0 < names.length ∧ names.length ≤ 2 then names.mapM Json.str? else none
  | _, _, _, _ => none

/-- Reads the schemas of named and matched properties along with those of the others. -/
def readAdditionalProperties (members : List (String × Json)) (value : Json) :
    Reading (List Keyword) := do
  let patterns := Keyed.find? "patternProperties" members
  let properties := Keyed.find? "properties" members
  match value, patterns, properties with
  | .bool true, _, _ => return []
  | .bool false, none, none => return [.noProperties]
  | _, _, _ =>
    let matched ← match patterns with
      | some p => readPatternSchemas readSchema p
      | none => pure []
    let named ← match properties with
      | some p => readNamedSchemas readSchema p
      | none => pure []
    let others ← readSchema value
    match recordNames? members with
    | some names => return [.record named others names]
    | none =>
      return [.patternProperties matched, .properties named,
        .additionalProperties (named.map (·.1)) (matched.map (·.1)) others]

/-- `items` of draft 4, and the rule for further items beside it. -/
def readItemsDraft4 (members : List (String × Json)) (key : String) (value : Json) :
    Reading (List Keyword) := do
  match key, Keyed.find? "items" members, value with
  | "items", _, .arr items => return [.prefixItems (← items.mapM readSchema)]
  | "items", _, .obj _ => return [.items 0 (← readSchema value)]
  | "additionalItems", some (.arr items), .bool false => return [.noItems items.length]
  | "additionalItems", some (.arr items), .obj _ =>
    return [.items items.length (← readSchema value)]
  | _, _, _ => return []

def readItems202012 (members : List (String × Json)) (value : Json) : Reading (List Keyword) := do
  let start := match Keyed.find? "prefixItems" members with
    | some (.arr front) => front.length
    | _ => 0
  match value with
  | .obj _ | .bool false => return [.items start (← readSchema value)]
  | _ => return []

def readContains (members : List (String × Json)) (value : Json) : Reading (List Keyword) := do
  let least ← readOptionalCount members "minContains"
  let most ← readOptionalCount members "maxContains"
  return [.contains (← readSchema value) (least.getD 1) most]

/-- The names that a property requires. -/
def readRequirement (name : String) (value : Json) : Reading (String × JsonSchema) := do
  return (name, .object [.required (← readNames value)])

def readDependentRequired (value : Json) : Reading (List Keyword) := do
  let schemas ← (← readMembers value).mapM fun (name, item) => do
    let names ← readItems item
    unless Json.allDistinct names do fault item .repeatedItems
    readRequirement name item
  return [.dependent schemas]

def readDependencies (value : Json) : Reading (List Keyword) := do
  let schemas ← (← readMembers value).mapM fun (name, item) =>
    match item with
    | .arr _ => readRequirement name item
    | _ => return (name, ← readSchema item)
  return [.dependent schemas]

def readConditional (members : List (String × Json)) (value : Json) : Reading (List Keyword) := do
  match Keyed.find? "then" members, Keyed.find? "else" members with
  | none, none => return []
  | accepted, rejected =>
    let condition ← readSchema value
    let accepted ← accepted.mapM readSchema
    let rejected ← rejected.mapM readSchema
    return [.conditional condition accepted rejected]

/-- The keywords of draft 4 that have another meaning later. -/
def readKeywordDraft4 (members : List (String × Json)) (key : String) (value : Json) :
    Reading (List Keyword) := do
  let isExclusive (flag : String) : Bool :=
    ((Keyed.find? flag members).bind Json.bool?).getD false
  match key with
  | "items" | "additionalItems" => readItemsDraft4 readSchema members key value
  | "minimum" =>
    let limit ← readNumber value
    return [if isExclusive "exclusiveMinimum" then .exclusiveMinimum limit else .minimum limit]
  | "maximum" =>
    let limit ← readNumber value
    return [if isExclusive "exclusiveMaximum" then .exclusiveMaximum limit else .maximum limit]
  | "format" =>
    return ((Format.ofName? (← readString value)).map Keyword.format).toList
  | _ => return []

/-- The keywords that came or changed after draft 4. -/
def readKeyword202012 (members : List (String × Json)) (key : String) (value : Json) :
    Reading (List Keyword) := do
  match key with
  | "$ref" => readReference source readSchema value
  | "items" => readItems202012 readSchema members value
  | "prefixItems" => return [.prefixItems (← readSchemas readSchema value)]
  | "minimum" => return [.minimum (← readNumber value)]
  | "maximum" => return [.maximum (← readNumber value)]
  | "exclusiveMinimum" => return [.exclusiveMinimum (← readNumber value)]
  | "exclusiveMaximum" => return [.exclusiveMaximum (← readNumber value)]
  | "const" => return [.constant value]
  | "contains" => readContains readSchema members value
  | "propertyNames" =>
    match value with
    | .obj _ | .bool false => return [.propertyNames (← readSchema value)]
    | _ => return []
  | "dependentRequired" => readDependentRequired value
  | "dependentSchemas" => return [.dependent (← readNamedSchemas readSchema value)]
  | "if" => readConditional readSchema members value
  | "unevaluatedProperties" => return [.unevaluatedProperties (← readSchema value)]
  | "unevaluatedItems" => return [.unevaluatedItems (← readSchema value)]
  | _ => return []

/-- One member of an object as keywords: none if it has no effect of its own. -/
def readKeyword (members : List (String × Json)) (key : String) (value : Json) :
    Reading (List Keyword) := do
  match key with
  | "type" => return [.types (← readKinds value)]
  | "enum" => return [.enumeration (← readItems value)]
  | "multipleOf" => return [.multipleOf (← readNumber value)]
  | "minLength" => return [.minLength (← readCount source.draft value)]
  | "maxLength" => return [.maxLength (← readCount source.draft value)]
  | "minItems" => return [.minItems (← readCount source.draft value)]
  | "maxItems" => return [.maxItems (← readCount source.draft value)]
  | "minProperties" => return [.minProperties (← readCount source.draft value)]
  | "maxProperties" => return [.maxProperties (← readCount source.draft value)]
  | "uniqueItems" => return if value.bool? == some true then [.uniqueItems] else []
  | "pattern" =>
    let text ← readString value
    return [.pattern (Pattern.spelledOut text) (← readPattern value text)]
  | "required" =>
    let names ← readNames value
    return if (recordNames? members).isSome then [] else [.required names]
  | "properties" =>
    if restrictsProperties members then return []
    return [.properties (← readNamedSchemas readSchema value)]
  | "patternProperties" =>
    if restrictsProperties members then return []
    return [.patternProperties (← readPatternSchemas readSchema value)]
  | "additionalProperties" => readAdditionalProperties readSchema members value
  | "dependencies" => readDependencies readSchema value
  | "allOf" => return [.allOf (← readSchemas readSchema value)]
  | "anyOf" => return [.anyOf (← readSchemas readSchema value)]
  | "oneOf" => return [.oneOf (← readSchemas readSchema value)]
  | "not" => return [.negation value (← readSchema value)]
  | _ =>
    match source.draft with
    | .draft4 => readKeywordDraft4 readSchema members key value
    | .draft202012 => readKeyword202012 source readSchema members key value

end

/-! ## Schemas -/

/-- Reads the schema at a value. In draft 4 a reference silences the keywords beside it. The
first argument bounds the depth. -/
def readAt (source : Source) : Nat → Json → Reading JsonSchema
  | 0, _ => return .flag true
  | _ + 1, .bool allows => return .flag allows
  | depth + 1, .obj members => do
    match source.draft, Keyed.find? "$ref" members with
    | .draft4, some target =>
      return .object (← readReference source (readAt source depth) target)
    | _, _ =>
      let keywords ← members.mapM fun (key, value) =>
        readKeyword source (readAt source depth) members key value
      return .object keywords.flatten
  | _ + 1, value => fault value (.wrongTypes [.boolean, .object])

/-- A schema with the targets of its references. -/
structure Compiled where
  schema : JsonSchema
  library : Library

/-- Each step down either goes into the value or to a target not read before, so that the square
of its size bounds the depth. -/
def compile (draft : SchemaDraft) (value : Json) : Except Violation Compiled := do
  let depth := (value.size + 1) * (value.size + 1)
  let (schema, library) ← (readAt ⟨draft, value⟩ depth value).run []
  return ⟨schema, library⟩

end ApiLint.JsonSchema
