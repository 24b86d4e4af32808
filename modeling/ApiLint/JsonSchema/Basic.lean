import ApiLint.JsonSchema.Violation
import ApiLint.Pattern.Basic

/-!
# JSON schemas

Schemas of two drafts as data. Keywords that depend on each other are joined in one constructor;
a keyword without effect has none. References name targets by pointers into the document that
the schema is part of.
-/

set_option autoImplicit false

namespace ApiLint

inductive SchemaDraft where
  | draft4
  | draft202012
  deriving Repr, DecidableEq

/-- The formats of strings that are checked. -/
inductive Format where
  | date
  | dateTime
  | email
  | hostname
  | idnEmail
  | ipv4
  | ipv6
  | regex
  | time
  | uri
  deriving Repr, DecidableEq

namespace Format

def all : List Format := [date, dateTime, email, hostname, idnEmail, ipv4, ipv6, regex, time, uri]

def name : Format → String
  | date => "date"
  | dateTime => "date-time"
  | email => "email"
  | hostname => "hostname"
  | idnEmail => "idn-email"
  | ipv4 => "ipv4"
  | ipv6 => "ipv6"
  | regex => "regex"
  | time => "time"
  | uri => "uri"

def ofName? (name : String) : Option Format :=
  all.find? (·.name == name)

end Format

mutual

inductive JsonSchema where
  /-- Allows everything or nothing. -/
  | flag (allows : Bool)
  | object (keywords : List Keyword)

inductive Keyword where
  | types (kinds : List JsonKind)
  | enumeration (options : List Json)
  | constant (value : Json)
  | minimum (limit : Json)
  | maximum (limit : Json)
  | exclusiveMinimum (limit : Json)
  | exclusiveMaximum (limit : Json)
  | multipleOf (factor : Json)
  | minLength (least : Nat)
  | maxLength (most : Nat)
  | minItems (least : Nat)
  | maxItems (most : Nat)
  | minProperties (least : Nat)
  | maxProperties (most : Nat)
  | uniqueItems
  | pattern (text : String) (pattern : Pattern)
  | format (format : Format)
  | required (names : List String)
  | properties (schemas : List (String × JsonSchema))
  | patternProperties (schemas : List (Pattern × JsonSchema))
  /-- For properties that are neither named nor matched. -/
  | additionalProperties (named : List String) (matched : List Pattern) (schema : JsonSchema)
  | noProperties
  /-- For named properties and all others. What is required counts once these are in order. -/
  | record (named : List (String × JsonSchema)) (others : JsonSchema) (names : List String)
  | propertyNames (schema : JsonSchema)
  /-- For the items at the front, one schema each. -/
  | prefixItems (schemas : List JsonSchema)
  /-- For all items from a position on. -/
  | items (start : Nat) (schema : JsonSchema)
  | noItems (start : Nat)
  | contains (schema : JsonSchema) (least : Nat) (most : Option Nat)
  /-- For values that have a property. -/
  | dependent (schemas : List (String × JsonSchema))
  | allOf (schemas : List JsonSchema)
  | anyOf (schemas : List JsonSchema)
  | oneOf (schemas : List JsonSchema)
  /-- Keeps the text of the schema, which messages quote. -/
  | negation (text : Json) (schema : JsonSchema)
  | conditional (condition : JsonSchema) (accepted rejected : Option JsonSchema)
  | unevaluatedProperties (schema : JsonSchema)
  | unevaluatedItems (schema : JsonSchema)
  | reference (pointer : String)

end

namespace JsonSchema

instance : Inhabited JsonSchema := ⟨.flag true⟩

/-- The schemas that references lead to, under their pointers. -/
abbrev Library := List (String × JsonSchema)

end JsonSchema

end ApiLint
