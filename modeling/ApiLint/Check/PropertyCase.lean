import ApiLint.Lint.Context

/-!
# Property names

The names of schema properties have to be in camel case. Names of extensions are left alone.
-/

set_option autoImplicit false

namespace ApiLint.Check.PropertyCase

def template : String := "property \x60\x7b\x7d\x60 is \x60\x7b\x7d\x60 not \x60camelCase\x60"

/-- A first character of a kind, then letters and digits of ASCII. -/
def isWord (first : Char → Bool) (name : String) : Bool :=
  match name.toList with
  | c :: rest => first c && rest.all Char.isAlphanum
  | [] => false

def isCamelCase (name : String) : Bool := isWord Char.isLower name

def isExtension (name : String) : Bool :=
  name.startsWith "x-" || name.startsWith "X-"

/-- The convention that a name which is not in camel case follows. -/
def convention (name : String) : String :=
  if name.toList.contains '_' then "snake_case"
  else if name.toList.contains '-' then "kebab-case"
  else if isWord Char.isUpper name then "PascalCase"
  else "non-camelCase"

def ofProperty (c : RuleContext) (s : Schema) (name : String) (slot : SchemaSlot) :
    Option Finding :=
  if isExtension name || isCamelCase name then none
  else
    some (c.findingAt (c.message template [name, convention name]) slot.origin.location
      slot.origin.keyMark slot.origin.keyMark (.schema s.id))

def evaluate (c : RuleContext) : List Finding :=
  match c.document with
  | none => []
  | some d =>
    (c.schemas d).flatMap fun s =>
      s.properties.filterMap fun (name, slot) => ofProperty c s name slot

def check : Check where
  name := "camelCaseProperties"
  errorMessage := "camelCaseProperties takes no options"
  evaluate := evaluate

end ApiLint.Check.PropertyCase
