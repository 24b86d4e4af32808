import ApiLint.Lint.Context

/-!
# Descriptions

Components and parameters have to be described. Components may be asked for a least number of
words.
-/

set_option autoImplicit false

namespace ApiLint.Check

namespace ComponentDescription

def missing : String := "\x60\x7b\x7d\x60 component \x60\x7b\x7d\x60 is missing a description"

def short : String :=
  "\x60\x7b\x7d\x60 component \x60\x7b\x7d\x60 description must be at least " ++
    "\x60\x7b\x7d\x60 words long"

/-- What is wrong with the description of a component. Components that only refer to another one
are not looked at. -/
def complaint? (c : RuleContext) (minWords : Nat) (component : Component) : Option String :=
  let description := Text.trim (component.description.getD "")
  let kind := component.kind.name
  if component.reference.isSome then none
  else if description.isEmpty then some (c.message missing [kind, component.name])
  else if (Text.words description).length < minWords then
    some (c.message short [kind, component.name, toString minWords])
  else none

def evaluate (c : RuleContext) : List Finding :=
  match c.document with
  | none => []
  | some d =>
    match c.integerOption? "minWords" with
    | .error _ => [c.invalidOptions]
    | .ok value =>
      let minWords := (value.getD 0).toNat
      d.components.toList.zipIdx.filterMap fun (component, i) =>
        (complaint? c minWords component).map fun message =>
          c.finding message component.origin (.component i)

def check : Check where
  name := "oasComponentDescriptions"
  options := [⟨"minWords", "Minimum number of words a description must contain"⟩]
  errorMessage := "oasComponentDescriptions: \x60minWords\x60 must be an integer"
  evaluate := evaluate

end ComponentDescription

namespace ParameterDescription

def missing : String := "the parameter \x60\x7b\x7d\x60 does not contain a description"

/-- The parameters of components, then those of paths and operations, each once. -/
def parameters (d : Document) : List ParameterId :=
  let ofComponents := d.components.toList.filterMap fun component =>
    match component.kind, component.content with
    | .parameters, .parameter id => some id
    | _, _ => none
  let ofPaths := d.paths.toList.flatMap fun item =>
    item.parameters ++ item.operations.flatMap (·.parameters)
  (ofComponents ++ ofPaths).eraseDups

def isDescribed (p : Parameter) : Bool :=
  !(Text.trim (p.description.getD "")).isEmpty

/-- Parameters that have no `in` need no description. -/
def ofParameter (c : RuleContext) (p : Parameter) : Option Finding :=
  if p.place.isNone || isDescribed p then none
  else some (c.finding (c.message missing [p.name]) p.origin (.parameter p.id))

def evaluate (c : RuleContext) : List Finding :=
  match c.document with
  | none => []
  | some d => ((parameters d).filterMap d.parameter?).filterMap (ofParameter c)

def check : Check where
  name := "oasParamDescriptions"
  errorMessage := "oasParamDescriptions takes no options"
  evaluate := evaluate

end ParameterDescription

end ApiLint.Check
