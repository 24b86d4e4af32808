import ApiLint.Document.Locate
import ApiLint.Lint.Finding
import ApiLint.Lint.Pool
import ApiLint.Lint.Template
import ApiLint.Number.Reading
import ApiLint.Schema.Walk

/-!
# Rules and what they see

A rule is a configured use of a check. A check declares the options it knows and turns a
`RuleContext` into findings; the context holds the document, the walk over its schemas and the
rule, with the options that the check does not know left out.
-/

set_option autoImplicit false

namespace ApiLint

open Yaml (Mark)

structure Rule where
  id : String
  /-- The name of the check. -/
  check : String
  description : String := ""
  severity : Severity
  /-- Stands in place of every message of the check. -/
  message : Option String := none
  /-- In the order of their names. -/
  options : List (String × String) := []
  deriving Repr, DecidableEq

structure RuleOption where
  name : String
  description : String
  deriving Repr, DecidableEq

structure RuleContext where
  document : Option Document
  walk : List SchemaId
  rule : Rule
  /-- The options that the check knows. -/
  options : List (String × String)
  /-- What is reported when an option cannot be read. -/
  errorMessage : String
  cancelled : Bool := false
  /-- The time of the run. -/
  now : Nat := 0
  /-- How the jobs end in the pools of the rule, by name. -/
  orders : String → JobOrder := fun _ => .submitted
  /-- How many jobs a pool has taken when its deadline passes; none if it does not pass. -/
  deadlines : String → Option Nat := fun _ => none

structure Check where
  name : String
  options : List RuleOption := []
  errorMessage : String
  evaluate : RuleContext → List Finding

/-- The category of all checks. -/
def Check.category : String := "openapi"

/-- An option whose value cannot be read. -/
structure InvalidOption where
  name : String
  value : String
  deriving Repr, DecidableEq

namespace RuleContext

/-- The context of a rule that uses the given check. -/
def ofRule (document : Option Document) (walk : List SchemaId) (rule : Rule) (check : Check)
    (cancelled : Bool) (now : Nat) (orders : String → JobOrder := fun _ => .submitted) :
    RuleContext where
  document := document
  walk := walk
  rule := rule
  options := rule.options.filter fun (name, _) => check.options.any (·.name == name)
  errorMessage := check.errorMessage
  cancelled := cancelled
  now := now
  orders := orders

/-- The jobs that a pool takes before its deadline passes, in the order in which they were handed
in. -/
def taken {α : Type} (c : RuleContext) (pool : String) (jobs : List α) : List α :=
  match c.deadlines pool with
  | none => jobs
  | some n => jobs.take n

/-- Runs jobs in a pool of the rule. Jobs that are not taken in time contribute nothing. -/
def runPool {α : Type} (c : RuleContext) (name : String) (jobs : List (Job α)) : List α :=
  (Pool.run { cancelled := c.cancelled } false ((c.orders name).arrange (c.taken name jobs))).1

def option? (c : RuleContext) (name : String) : Option String :=
  c.options.lookup name

/-- Names the rule and what it works on. -/
def description (c : RuleContext) : String :=
  "RuleContext \x7b rule: " ++ Json.quote c.rule.id ++ ", has_document: " ++
    (if c.document.isSome then "true" else "false") ++ ", schemas: " ++ toString c.walk.length ++
    " \x7d"

/-- An integer option; blanks around the number do not count. -/
def integerOption? (c : RuleContext) (name : String) : Except InvalidOption (Option Int) :=
  match c.option? name with
  | none => .ok none
  | some value =>
    match Number.readInt64? 10 (Text.trim value).toList with
    | some i => .ok (some i)
    | none => .error ⟨name, value⟩

/-- The schemas of the walk. -/
def schemas (c : RuleContext) (d : Document) : List Schema :=
  c.walk.filterMap d.schema?

/-- The message of the rule, or else a template with its slots filled. -/
def message (c : RuleContext) (template : String) (arguments : List String) : String :=
  c.rule.message.getD (Template.render template arguments)

/-- The paths of a location; without a document its own alone. -/
def located (c : RuleContext) (l : Location) : Located :=
  match c.document with
  | some d => d.locate l
  | none => ⟨l.path, [l.path]⟩

/-- A finding at a location, from one mark to another. -/
def findingAt (c : RuleContext) (message : String) (l : Location) (start stop : Mark)
    (target : Target) : Finding :=
  let located := c.located l
  { message := message
    ruleId := c.rule.id
    severity := c.rule.severity
    path := located.path
    paths := located.alternates?
    start := start
    stop := stop
    timestamp := c.now
    target := target }

/-- A finding for an object, from its key to its end. -/
def finding (c : RuleContext) (message : String) (origin : Origin) (target : Target) : Finding :=
  c.findingAt message origin.location origin.keyMark origin.stop target

/-- The one finding of a rule with an option that cannot be read. -/
def invalidOptions (c : RuleContext) : Finding :=
  c.findingAt c.errorMessage .root ⟨1, 1⟩ ⟨1, 1⟩ .document

end RuleContext

end ApiLint
