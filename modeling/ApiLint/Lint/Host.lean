import ApiLint.Lint.Context
import ApiLint.Lint.Pool
import ApiLint.Lint.Report

/-!
# Linting

Runs rules over a document and collects what they find. Rules whose check is not known are left
out and not counted; a run that is cancelled before it begins finds nothing.
-/

set_option autoImplicit false

namespace ApiLint

/-- How the jobs of a run end: those of the host, and those in the pools of each rule, by the
position of the rule and the name of the pool. -/
structure Schedule where
  host : JobOrder := .submitted
  pools : Nat → String → JobOrder := fun _ _ => .submitted

structure Linter where
  checks : List Check
  rules : List Rule
  cancelled : Bool := false
  /-- The time of the run. -/
  now : Nat := 0
  schedule : Schedule := {}

namespace Linter

/-- The context of the rule at a position. -/
def context (l : Linter) (document : Option Document) (rule : Rule) (position : Nat)
    (check : Check) : RuleContext :=
  .ofRule document ((document.map (·.walk)).getD []) rule check l.cancelled l.now
    (l.schedule.pools position)

/-- One job for each rule with a known check. -/
def jobs (l : Linter) (document : Option Document) : List (Job Finding) :=
  l.rules.zipIdx.filterMap fun (rule, position) =>
    (l.checks.find? (·.name == rule.check)).map fun check =>
      { emit := fun _ => check.evaluate (l.context document rule position check) }

def run (l : Linter) (document : Option Document) : LintReport :=
  let jobs := l.jobs document
  let (findings, _) := Pool.run { cancelled := l.cancelled } false (l.schedule.host.arrange jobs)
  .ofFindings findings jobs.length

def lint (l : Linter) (d : Document) : LintReport := l.run (some d)

/-- A run without a document. -/
def lintNothing (l : Linter) : LintReport := l.run none

end Linter

end ApiLint
