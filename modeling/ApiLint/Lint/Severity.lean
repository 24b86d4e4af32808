/-!
# Severities

How bad a finding is, from errors, which come first, to hints.
-/

set_option autoImplicit false

namespace ApiLint

inductive Severity where
  | error
  | warn
  | info
  | hint
  deriving Repr, DecidableEq, Inhabited

namespace Severity

def all : List Severity := [error, warn, info, hint]

def name : Severity → String
  | error => "error"
  | warn => "warn"
  | info => "info"
  | hint => "hint"

/-- Reads a name in letters of either case; `warning` is another name of `warn`. -/
def ofName? (text : String) : Option Severity :=
  let lower := text.map Char.toLower
  if lower == "warning" then some warn else all.find? (·.name == lower)

/-- Zero for the most severe. -/
def rank : Severity → Nat
  | error => 0
  | warn => 1
  | info => 2
  | hint => 3

/-- As severe as the threshold or more. -/
def atLeast (s threshold : Severity) : Bool := s.rank ≤ threshold.rank

end Severity

end ApiLint
