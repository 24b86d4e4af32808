import ApiLint.Lint.Finding

/-!
# Lint reports

The findings of a run in their order, with an index from the objects of the document to the
findings attached to them.
-/

set_option autoImplicit false

namespace ApiLint

structure LintReport where
  findings : List Finding
  /-- The positions of the findings attached to each object, in ascending order. -/
  attached : List (Target × List Nat)
  /-- How many rules had a check to run. -/
  rulesRun : Nat

namespace LintReport

/-- Notes a position under an object. -/
def attach (index : List (Target × List Nat)) (target : Target) (position : Nat) :
    List (Target × List Nat) :=
  match index with
  | [] => [(target, [position])]
  | (t, positions) :: rest =>
    if t = target then (t, positions ++ [position]) :: rest
    else (t, positions) :: attach rest target position

def ofFindings (findings : List Finding) (rulesRun : Nat) : LintReport :=
  let ordered := findings.mergeSort Finding.le
  { findings := ordered
    attached := ordered.zipIdx.foldl (fun index (f, i) => attach index f.target i) []
    rulesRun := rulesRun }

/-- The findings attached to an object. -/
def findingsFor (r : LintReport) (target : Target) : List Finding :=
  ((r.attached.lookup target).getD []).filterMap fun i => r.findings[i]?

def byRule (r : LintReport) (ruleId : String) : List Finding :=
  r.findings.filter (·.ruleId == ruleId)

def count (r : LintReport) (severity : Severity) : Nat :=
  r.findings.countP (·.severity == severity)

def hasAtLeast (r : LintReport) (threshold : Severity) : Bool :=
  r.findings.any (·.severity.atLeast threshold)

def size (r : LintReport) : Nat := r.findings.length

def isEmpty (r : LintReport) : Bool := r.findings.isEmpty

end LintReport

end ApiLint
