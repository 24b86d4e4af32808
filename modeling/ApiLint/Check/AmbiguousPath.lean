import ApiLint.Lint.Context
import ApiLint.Route.Template

/-!
# Ambiguous paths

No two path templates may match the same URL. The finding stands at the later of the two.
-/

set_option autoImplicit false

namespace ApiLint.Check.AmbiguousPath

def template : String :=
  "paths are ambiguous with one another: \x60\x7b\x7d\x60 and \x60\x7b\x7d\x60"

def ofPair (c : RuleContext) (d : Document) (earlier later : Nat) : Option Finding := do
  let first ← d.paths[earlier]?
  let second ← d.paths[later]?
  return c.findingAt (c.message template [first.template, second.template])
    second.origin.location second.origin.keyMark second.origin.keyMark (.pathItem later)

def evaluate (c : RuleContext) : List Finding :=
  match c.document with
  | none => []
  | some d => (Route.ambiguousPairs d).filterMap fun (earlier, later) => ofPair c d earlier later

def check : Check where
  name := "noAmbiguousPaths"
  errorMessage := "noAmbiguousPaths takes no options"
  evaluate := evaluate

end ApiLint.Check.AmbiguousPath
