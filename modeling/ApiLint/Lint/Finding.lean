import ApiLint.Document.Model
import ApiLint.Lint.Severity

/-!
# Findings

What a rule has to say about one place of a document. Findings are listed by rule, then by path,
place and message.
-/

set_option autoImplicit false

namespace ApiLint

open Yaml (Mark)

structure Finding where
  message : String
  ruleId : String
  severity : Severity
  path : String
  /-- All paths to the same node, if there is more than one. -/
  paths : Option (List String) := none
  start : Mark
  stop : Mark
  origin : Option String := none
  /-- Milliseconds of Unix time. -/
  timestamp : Nat := 0
  /-- The object that the finding is attached to. -/
  target : Target := .document
  deriving Repr, DecidableEq

namespace Finding

/-- A lexicographic step: the first difference decides. -/
def decides (o : Ordering) (next : Bool) : Bool :=
  match o with
  | .lt => true
  | .eq => next
  | .gt => false

/-- Not behind the other one in a list. -/
def le (a b : Finding) : Bool :=
  decides (compare a.ruleId b.ruleId) <|
  decides (compare a.path b.path) <|
  decides (compare a.start.line b.start.line) <|
  decides (compare a.start.column b.start.column) <|
  decides (compare a.message b.message) true

end Finding

end ApiLint
