import ApiLint.Check.Listing
import ApiLint.CommandLine.Arguments
import ApiLint.Document.Load
import ApiLint.Files
import ApiLint.Lint.Host
import ApiLint.Ruleset.Apply
import ApiLint.Settings.Runtime

/-!
# Running a command

What a command writes and whether it counts as failed, given what can be read under the names of
files. A command writes as it goes (`Command.execute`), so that a fault leaves in place what has
been written before it. A lint run first settles the rules and loads the document; it writes when
it has its findings.
-/

set_option autoImplicit false

namespace ApiLint

/-- Why a command comes to no result. -/
inductive CommandFault where
  | ruleset (fault : RulesetFault)
  | unknownRule (id : String)
  | document (name : String) (fault : LoadFault)

namespace CommandFault

def message : CommandFault → String
  | ruleset _ => "Failed to load ruleset"
  | unknownRule id => "unknown rule \x60" ++ id ++ "\x60"
  | document name _ => "Failed to load " ++ name

/-- What lies behind the fault. -/
def cause? : CommandFault → Option String
  | ruleset fault => some fault.message
  | unknownRule _ => none
  | document _ fault => some fault.message

end CommandFault

/-- The result of a command. -/
structure Outcome where
  output : String
  failed : Bool
  deriving Repr, DecidableEq

/-- What a command does step by step: it adds to a text, and may end in a fault. -/
abbrev Writing (α : Type) := ExceptT CommandFault (StateM String) α

namespace Writing

def write (text : String) : Writing Unit := modify (· ++ text)

/-- What comes of it where nothing is written yet. -/
def outcome (w : Writing Bool) : Except CommandFault Outcome :=
  match w.run.run "" with
  | (.ok failed, output) => .ok ⟨output, failed⟩
  | (.error fault, _) => .error fault

end Writing

def readRuleset (read : FileReader) (name : String) : Except RulesetFault Ruleset :=
  match read name with
  | .ok text => Ruleset.ofText text
  | .error fault => .error (.unreadable name fault.message)

def readDocument (read : FileReader) (name : String) : Except LoadFault Document :=
  match read name with
  | .ok text => Document.ofSource text
  | .error fault => .error (.unreadable name fault.message)

namespace LintCommand

/-- The name of the ruleset that is used without being named. -/
def rulesetName : String := ".oaslint.yaml"

/-- The file of the ruleset: the one that is named, or else one beside the document. -/
def rulesetFile? (c : LintCommand) (read : FileReader) : Option String :=
  c.ruleset.or ((FileName.beside? c.document rulesetName).filter read.isThere)

/-- The rules of the ruleset; those of the catalog if there is none. -/
def configuredRules (c : LintCommand) (read : FileReader) : Except RulesetFault (List Rule) :=
  match c.rulesetFile? read with
  | none => .ok Catalog.rules
  | some name => do (← readRuleset read name).apply

/-- Leaves of the rules those that the command names, which have to be built in. -/
def select (c : LintCommand) (rules : List Rule) : Except CommandFault (List Rule) :=
  match c.rules.find? fun id => (Catalog.find? id).isNone with
  | some id => .error (.unknownRule id)
  | none => .ok (if c.rules.isEmpty then rules else rules.filter (·.id ∈ c.rules))

/-- The rules that the command runs. -/
def selectedRules (c : LintCommand) (read : FileReader) : Except CommandFault (List Rule) := do
  c.select (← (c.configuredRules read).mapError .ruleset)

/-- All findings of the run. -/
def report (c : LintCommand) (read : FileReader) (now : Nat) : Except CommandFault LintReport := do
  let rules ← c.selectedRules read
  let document ← (readDocument read c.document).mapError (.document c.document)
  return Linter.lint { checks := Catalog.checks, rules := rules, now := now } document

/-- The findings that are listed. -/
def listed (c : LintCommand) (findings : List Finding) : List Finding :=
  if c.errorsOnly then findings.filter (·.severity == .error) else findings

/-- Lists the findings of the run. What is not listed does not make it fail. -/
def execute (c : LintCommand) (read : FileReader) (now : Nat) : Writing Bool := do
  let report ← MonadExcept.ofExcept (c.report read now)
  let listed := c.listed report.findings
  Writing.write (Listing.render c.format listed)
  return Listing.shouldFail listed c.failSeverity

/-- The settings of the environment, except for those that the command line has: there is one
worker at least, and a timeout of zero is none. `execute` depends on neither: it runs every pool to
its end, in one order. -/
def settings (c : LintCommand) (env : Environment) : RuntimeSettings :=
  let base := RuntimeSettings.ofEnvironment env
  { base with
    workers := (c.workers.map (max 1)).getD base.workers
    ruleTimeout := match c.ruleTimeout with
      | some 0 => none
      | some ms => some ms
      | none => base.ruleTimeout }

/-- The files that a run may read. -/
def files (c : LintCommand) : List String :=
  c.document :: (c.ruleset.or (FileName.beside? c.document rulesetName)).toList

end LintCommand

namespace Command

/-- Does what the command asks for, and says whether it failed. -/
def execute (c : Command) (read : FileReader) (now : Nat) : Writing Bool :=
  match c with
  | .lint command => command.execute read now
  | .rules format => do
    Writing.write (Catalog.listing format)
    return false

def run (c : Command) (read : FileReader) (now : Nat) : Except CommandFault Outcome :=
  (c.execute read now).outcome

/-- The files that the command may read. -/
def files : Command → List String
  | .lint command => command.files
  | .rules _ => []

end Command

end ApiLint
