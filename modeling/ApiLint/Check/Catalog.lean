import ApiLint.Check.AmbiguousPath
import ApiLint.Check.Combinator
import ApiLint.Check.Description
import ApiLint.Check.ExampleConformance
import ApiLint.Check.Keyword
import ApiLint.Check.MissingExample
import ApiLint.Check.NamedExample
import ApiLint.Check.PropertyCase

/-!
# The built-in rules

`Catalog.all` lists the checks with the severity and the description of the rule that each one
gives rise to by itself. Such a rule has the name of its check and no options; `Catalog.rules` has
one for every entry, in the order of the catalog.
-/

set_option autoImplicit false

namespace ApiLint

structure CatalogEntry where
  check : Check
  severity : Severity
  description : String

namespace CatalogEntry

def id (e : CatalogEntry) : String := e.check.name

/-- The rule of an entry as it is without any configuration. -/
def rule (e : CatalogEntry) : Rule where
  id := e.id
  check := e.id
  description := e.description
  severity := e.severity

end CatalogEntry

namespace Catalog

def all : List CatalogEntry :=
  [⟨Check.PropertyCase.check, .warn, "Schema property names should be camelCase"⟩,
   ⟨Check.ComponentDescription.check, .warn, "Components should have a description"⟩,
   ⟨Check.NamedExample.check, .warn,
     "Named examples should be valid, summarized and carry a value"⟩,
   ⟨Check.ExternalExample.check, .error,
     "Examples cannot use both \x60value\x60 and \x60externalValue\x60"⟩,
   ⟨Check.MissingExample.check, .warn,
     "Parameters, headers, media types and schemas should have examples"⟩,
   ⟨Check.ExampleConformance.check, .error, "Examples must validate against their schema"⟩,
   ⟨Check.AmbiguousPath.check, .error, "Paths should not match the same URLs"⟩,
   ⟨Check.Keyword.check, .error, "Schema keywords must be consistent with the schema type"⟩,
   ⟨Check.ParameterDescription.check, .warn, "Parameters should have a description"⟩,
   ⟨Check.Combinator.check, .warn,
     "Combinators with a single entry should be replaced by the entry"⟩]

def find? (id : String) : Option CatalogEntry :=
  all.find? (·.id == id)

def checks : List Check := all.map (·.check)

/-- The rules that run without any configuration. -/
def rules : List Rule := all.map (·.rule)

def rule? (id : String) : Option Rule :=
  (find? id).map (·.rule)

/-- The message templates that the checks fill in. -/
def templates : List String :=
  [Check.PropertyCase.template, Check.ComponentDescription.missing,
   Check.ComponentDescription.short, ExampleJob.template, Check.NamedExample.bothValues,
   Check.NamedExample.missingSummary, Check.NamedExample.noValue,
   Check.MissingExample.propertyMissing, Check.MissingExample.mediaTypePropertyMissing,
   Check.MissingExample.containerMissing, Check.AmbiguousPath.template,
   Check.ParameterDescription.missing, Check.Keyword.nonNegative, Check.Keyword.notBelow,
   Check.Keyword.unknownType, Check.Keyword.requiredUndefined, Check.Keyword.dependentUndefined,
   Check.Keyword.dependentCircular, Check.Combinator.template]

end Catalog

end ApiLint
