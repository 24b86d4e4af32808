/-!
# Positions and marks

A `Position` is where a reader stands in the text: characters read so far, line from one, column
from zero. A `Mark` is the place shown to people: line and column both from one.
-/

set_option autoImplicit false

namespace ApiLint.Yaml

structure Position where
  index : Nat := 0
  line : Nat := 1
  column : Nat := 0
  deriving Repr, DecidableEq, Inhabited

structure Mark where
  line : Nat
  column : Nat
  deriving Repr, DecidableEq, Inhabited

namespace Mark

/-- Marks are ordered by line, then by column. -/
def le (a b : Mark) : Bool :=
  a.line < b.line || (a.line == b.line && a.column ≤ b.column)

end Mark

namespace Position

def mark (p : Position) : Mark :=
  ⟨p.line, p.column + 1⟩

end Position

/-- The part of the text that a node covers. -/
structure Span where
  start : Mark
  stop : Mark
  deriving Repr, DecidableEq, Inhabited

end ApiLint.Yaml
