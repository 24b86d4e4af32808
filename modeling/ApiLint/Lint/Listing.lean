import ApiLint.Json.Printer
import ApiLint.Lint.Finding

/-!
# Listings

Findings as they are printed: for people as a text with one group for each severity, for tools as
a JSON array. `shouldFail` decides whether a run counts as failed.
-/

set_option autoImplicit false

namespace ApiLint

inductive ListingFormat where
  | text
  | json
  deriving Repr, DecidableEq

namespace ListingFormat

def all : List ListingFormat := [text, json]

def name : ListingFormat → String
  | text => "text"
  | json => "json"

end ListingFormat

/-- Stands above the findings of a severity. -/
def Severity.heading : Severity → String
  | error => "❌ Errors (must fix):"
  | warn => "⚠️  Warnings (should fix):"
  | info => "ℹ️  Info (best practices):"
  | hint => "💡 Hints:"

namespace Finding

/-- The two lines of a finding. -/
def lines (f : Finding) : String :=
  "   " ++ toString f.start.line ++ ":" ++ toString f.start.column ++ " [" ++ f.ruleId ++ "] " ++
    f.path ++ "\n      " ++ f.message ++ "\n"

/-- The members stand in this order; those that are missing are left out. -/
def toJson (f : Finding) : Json :=
  let paths := f.paths.map fun paths => ("paths", Json.arr (paths.map Json.str))
  let origin := f.origin.map fun origin => ("origin", Json.str origin)
  .obj ([("message", .str f.message), ("ruleId", .str f.ruleId),
      ("severity", .str f.severity.name), ("path", .str f.path)] ++ paths.toList ++
    [("startLine", .int f.start.line), ("startColumn", .int f.start.column),
      ("endLine", .int f.stop.line), ("endColumn", .int f.stop.column)] ++ origin.toList ++
    [("timestamp", .int f.timestamp)])

end Finding

namespace Listing

def ofSeverity (findings : List Finding) (s : Severity) : List Finding :=
  findings.filter (·.severity == s)

/-- The findings of a severity under their heading; nothing if there are none. -/
def group (findings : List Finding) (s : Severity) : String :=
  match ofSeverity findings s with
  | [] => ""
  | listed => s.heading ++ "\n" ++ String.join (listed.map Finding.lines) ++ "\n"

def counts (findings : List Finding) : String :=
  ", ".intercalate (Severity.all.map fun s =>
    toString (ofSeverity findings s).length ++ " " ++
      (if s = .warn then "warning" else s.name) ++ "(s)")

def text (findings : List Finding) : String :=
  if findings.isEmpty then "✅ No lint issues found!\n"
  else
    "\n📋 Lint Results:\n   " ++ counts findings ++ "\n\n" ++
      String.join (Severity.all.map (group findings))

def json (findings : List Finding) : String :=
  (Json.arr (findings.map Finding.toJson)).pretty ++ "\n"

def render (format : ListingFormat) (findings : List Finding) : String :=
  match format with
  | .text => text findings
  | .json => json findings

/-- A finding is as severe as the threshold; without one nothing fails. -/
def shouldFail (findings : List Finding) (threshold : Option Severity) : Bool :=
  threshold.any fun t => findings.any (·.severity.atLeast t)

end Listing

end ApiLint
