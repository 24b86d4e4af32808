import ApiLint.Check.Catalog
import ApiLint.Lint.Listing

/-!
# The list of rules

The built-in rules as they are listed, in columns for people and as JSON for tools, each with the
options of its check.
-/

set_option autoImplicit false

namespace ApiLint

namespace CatalogEntry

/-- Fills a text up with blanks. -/
def pad (width : Nat) (text : String) : String :=
  text ++ String.ofList (List.replicate (width - text.length) ' ')

/-- The rule, its severity and its description in columns, and a line for each option. -/
def lines (e : CatalogEntry) : String :=
  let rule := pad 26 e.id ++ " " ++ pad 6 e.severity.name ++ " " ++ e.description ++ "\n"
  rule ++ String.join (e.check.options.map fun o =>
    pad 26 "" ++ " option \x60" ++ o.name ++ "\x60: " ++ o.description ++ "\n")

def toJson (e : CatalogEntry) : Json :=
  .obj [("id", .str e.id), ("function", .str e.check.name), ("category", .str Check.category),
    ("severity", .str e.severity.name), ("description", .str e.description),
    ("options", .arr (e.check.options.map fun o =>
      .obj [("name", .str o.name), ("description", .str o.description)]))]

end CatalogEntry

namespace Catalog

/-- The list of the built-in rules. -/
def listing : ListingFormat → String
  | .text => String.join (all.map (·.lines))
  | .json => (Json.arr (all.map (·.toJson))).pretty ++ "\n"

end Catalog

end ApiLint
