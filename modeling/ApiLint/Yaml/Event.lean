import ApiLint.Yaml.Token

/-!
# YAML events

The flat form of a document: scalars, uses of anchors, and the two ends of every collection, in
reading order. Anchors are numbered from one; zero stands for none.
-/

set_option autoImplicit false

namespace ApiLint.Yaml

structure Tag where
  handle : String
  suffix : String
  deriving Repr, DecidableEq

/-- The whole name of a tag. -/
def Tag.name (t : Tag) : String := t.handle ++ t.suffix

inductive EventKind where
  | scalar (text : String) (style : ScalarStyle) (anchor : Nat) (tag : Option Tag)
  | anchorUse (anchor : Nat)
  | sequenceStart (anchor : Nat) (tag : Option Tag)
  | sequenceEnd
  | mappingStart (anchor : Nat) (tag : Option Tag)
  | mappingEnd
  deriving Repr, DecidableEq

structure Event where
  kind : EventKind
  mark : Mark
  deriving Repr, DecidableEq

end ApiLint.Yaml
