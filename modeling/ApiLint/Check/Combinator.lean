import ApiLint.Lint.Context

/-!
# Combinators with one entry

`allOf`, `anyOf` and `oneOf` with a single entry can be replaced by the entry. In documents of
version 3.0 a reference in `allOf` is the way to set fields beside it and is left alone.
-/

set_option autoImplicit false

namespace ApiLint.Check.Combinator

def template : String :=
  "schema with \x60\x7b\x7d\x60 combinator containing only one item should be replaced " ++
    "with the item directly"

/-- Fields that describe a reference beside it. -/
def descriptiveSiblings : List String :=
  ["description", "title", "default", "example", "externalDocs", "nullable", "readOnly",
   "writeOnly", "deprecated", "xml", "enum"]

def isDescribed (s : Schema) : Bool :=
  descriptiveSiblings.any s.hasKeyword || !s.extensions.isEmpty

/-- A single entry is needed to describe a reference. -/
def isExcused (d : Document) (s : Schema) (keyword : String) (only : SchemaSlot) : Bool :=
  keyword == "allOf" && d.isVersion30 && only.isReference && isDescribed s

def ofCombinator (c : RuleContext) (d : Document) (s : Schema) (keyword : String)
    (entries : List SchemaSlot) : Option Finding :=
  match entries with
  | [only] =>
    if isExcused d s keyword only then none
    else
      let mark := s.keywordMark keyword
      some (c.findingAt (c.message template [keyword]) (s.origin.location.field keyword) mark mark
        (.schema s.id))
  | _ => none

def evaluate (c : RuleContext) : List Finding :=
  match c.document with
  | none => []
  | some d =>
    (c.schemas d).flatMap fun s =>
      [("allOf", s.allOf), ("anyOf", s.anyOf), ("oneOf", s.oneOf)].filterMap
        fun (keyword, entries) => ofCombinator c d s keyword entries

def check : Check where
  name := "oasUnnecessaryCombinator"
  errorMessage := "oasUnnecessaryCombinator takes no options"
  evaluate := evaluate

end ApiLint.Check.Combinator
