import ApiLint.JsonSchema.Check

/-!
# Schemas of schemas

What each draft demands of a schema, itself as a schema. `compile` refuses a value that violates
it; `JsonSchema.compileChecked` reports the first violation found.
-/

set_option autoImplicit false

namespace ApiLint.JsonSchema

namespace Meta

def ofKind (kind : JsonKind) : JsonSchema := .object [.types [kind]]

def texts : JsonSchema := ofKind .string

def flags : JsonSchema := ofKind .boolean

def numbers : JsonSchema := ofKind .number

/-- Any schema: a reference to the root. -/
def schema : JsonSchema := .object [.reference ""]

def counts : JsonSchema := .object [.minimum (.int 0), .types [.integer]]

/-- An object whose members all are of one kind. -/
def mapOf (member : JsonSchema) : JsonSchema :=
  .object [.additionalProperties [] [] member, .types [.object]]

def schemas : JsonSchema := .object [.items 0 schema, .minItems 1, .types [.array]]

def kind : JsonSchema := .object [.enumeration kindNames]

/-- A type or several. -/
def kinds : JsonSchema :=
  .object [.anyOf [kind, .object [.items 0 kind, .minItems 1, .types [.array], .uniqueItems]]]

def factors : JsonSchema := .object [.exclusiveMinimum (.int 0), .types [.number]]

/-- An array of distinct names, of a least length. -/
def names (least : Nat) : JsonSchema :=
  .object [.items 0 texts, .minItems least, .types [.array], .uniqueItems]

def formatted (format : Format) : JsonSchema := .object [.format format, .types [.string]]

def flagOrSchema : JsonSchema := .object [.anyOf [flags, schema]]

end Meta

open Meta

/-- Draft 4. -/
def metaDraft4 : JsonSchema := .object [
  .properties [
    ("$schema", formatted .uri),
    ("additionalItems", flagOrSchema),
    ("additionalProperties", flagOrSchema),
    ("allOf", schemas),
    ("anyOf", schemas),
    ("definitions", mapOf schema),
    ("dependencies", mapOf (.object [.anyOf [schema, names 1]])),
    ("description", texts),
    ("enum", ofKind .array),
    ("exclusiveMaximum", flags),
    ("exclusiveMinimum", flags),
    ("format", texts),
    ("id", formatted .uri),
    ("items", .object [.anyOf [schema, schemas]]),
    ("maxItems", counts),
    ("maxLength", counts),
    ("maxProperties", counts),
    ("maximum", numbers),
    ("minItems", counts),
    ("minLength", counts),
    ("minProperties", counts),
    ("minimum", numbers),
    ("multipleOf", factors),
    ("not", schema),
    ("oneOf", schemas),
    ("pattern", formatted .regex),
    ("patternProperties", mapOf schema),
    ("properties", mapOf schema),
    ("required", names 1),
    ("title", texts),
    ("type", kinds),
    ("uniqueItems", flags)],
  .types [.object],
  .dependent [
    ("exclusiveMaximum", .object [.required ["maximum"]]),
    ("exclusiveMinimum", .object [.required ["minimum"]])]]

/-- A part of draft 2020-12: some keywords of a schema that is an object or a boolean. -/
def vocabulary (members : List (String × JsonSchema)) : JsonSchema :=
  .object [.properties members, .types [.boolean, .object]]

/-- The text of an anchor. -/
def anchors : JsonSchema :=
  .object [.pattern "^[A-Za-z_][-A-Za-z0-9._]*$"
    (.seq (.start false) (.seq (.chars ⟨[(0x41, 0x5A), (0x5F, 0x5F), (0x61, 0x7A)], false⟩)
      (.seq (.repeated 0 none (.chars ⟨[(0x2D, 0x2E), (0x30, 0x39), (0x41, 0x5A), (0x5F, 0x5F),
        (0x61, 0x7A)], false⟩)) (.stop false)))), .types [.string]]

/-- An identifier without a fragment. -/
def identifiers : JsonSchema :=
  .object [.types [.string], .pattern "^[^#]*#?$"
    (.seq (.start false) (.seq (.repeated 0 none (.chars ⟨[(0x23, 0x23)], true⟩))
      (.seq (.repeated 0 (some 1) (.chars (CharSet.single '#'))) (.stop false))))]

/-- Draft 2020-12. Formats are notes in this draft and not checked. -/
def meta202012 : JsonSchema := .object [
  .allOf [
    vocabulary [
      ("$anchor", anchors),
      ("$comment", texts),
      ("$defs", mapOf schema),
      ("$dynamicAnchor", anchors),
      ("$dynamicRef", texts),
      ("$id", identifiers),
      ("$ref", texts),
      ("$schema", texts),
      ("$vocabulary", .object [.additionalProperties [] [] flags, .propertyNames texts,
        .types [.object]])],
    vocabulary [
      ("additionalProperties", schema),
      ("allOf", schemas),
      ("anyOf", schemas),
      ("contains", schema),
      ("dependentSchemas", mapOf schema),
      ("else", schema),
      ("if", schema),
      ("items", schema),
      ("not", schema),
      ("oneOf", schemas),
      ("patternProperties", mapOf schema),
      ("prefixItems", schemas),
      ("properties", mapOf schema),
      ("propertyNames", schema),
      ("then", schema)],
    vocabulary [
      ("unevaluatedItems", schema),
      ("unevaluatedProperties", schema)],
    vocabulary [
      ("dependentRequired", mapOf (names 0)),
      ("enum", ofKind .array),
      ("exclusiveMaximum", numbers),
      ("exclusiveMinimum", numbers),
      ("maxContains", counts),
      ("maxItems", counts),
      ("maxLength", counts),
      ("maxProperties", counts),
      ("maximum", numbers),
      ("minContains", counts),
      ("minItems", counts),
      ("minLength", counts),
      ("minProperties", counts),
      ("minimum", numbers),
      ("multipleOf", factors),
      ("pattern", texts),
      ("required", names 0),
      ("type", kinds),
      ("uniqueItems", flags)],
    vocabulary [
      ("deprecated", flags),
      ("description", texts),
      ("examples", ofKind .array),
      ("readOnly", flags),
      ("title", texts),
      ("writeOnly", flags)],
    vocabulary [("format", texts)],
    vocabulary [
      ("contentEncoding", texts),
      ("contentMediaType", texts),
      ("contentSchema", schema)]],
  .properties [
    ("$recursiveAnchor", anchors),
    ("$recursiveRef", texts),
    ("definitions", mapOf schema),
    ("dependencies", mapOf (.object [.anyOf [schema, names 0]]))],
  .types [.boolean, .object]]

def metaSchema : SchemaDraft → JsonSchema
  | .draft4 => metaDraft4
  | .draft202012 => meta202012

/-- The number of schemas in either of these, rounded up. -/
def metaSize : Nat := 200

/-- A value as a schema, if it satisfies its draft. -/
def compileChecked (draft : SchemaDraft) (value : Json) : Except Violation Compiled := do
  let root := metaSchema draft
  match Compiled.violations draft ⟨root, [("", root)]⟩ metaSize value with
  | v :: _ => throw v
  | [] => compile draft value

end ApiLint.JsonSchema
