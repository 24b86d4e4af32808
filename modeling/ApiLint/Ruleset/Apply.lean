import ApiLint.Check.Catalog
import ApiLint.Ruleset.Basic

/-!
# Applying a ruleset

The rules that a ruleset leaves of the built-in ones, in the order of the catalog. Names that no
built-in rule has are passed over. The first rule with an unknown severity or an option that has
no text makes the whole ruleset inapplicable.
-/

set_option autoImplicit false

namespace ApiLint

inductive RulesetFault where
  | unreadable (path reason : String)
  | malformed
  | unknownSeverity (rule value : String)
  | invalidOption (rule name : String)
  deriving Repr, DecidableEq

namespace RulesetFault

def message : RulesetFault → String
  | unreadable path reason => "failed to read ruleset " ++ path ++ ": " ++ reason
  | malformed => "failed to parse ruleset"
  | unknownSeverity rule value =>
    "rule \x60" ++ rule ++ "\x60: unknown severity \x60" ++ value ++ "\x60"
  | invalidOption rule name =>
    "rule \x60" ++ rule ++ "\x60: option \x60" ++ name ++
      "\x60 must be a string, number or boolean"

end RulesetFault

namespace Rule

def withSeverity (r : Rule) (name : String) : Except RulesetFault Rule :=
  match Severity.ofName? name with
  | some s => .ok { r with severity := s }
  | none => .error (.unknownSeverity r.id name)

def withOption (r : Rule) (name : String) (value : ConfigValue) : Except RulesetFault Rule :=
  match value.optionText? with
  | some text => .ok { r with options := Keyed.insert name text r.options }
  | none => .error (.invalidOption r.id name)

def withConfig (r : Rule) (c : RuleConfig) : Except RulesetFault Rule := do
  let r ← match c.severity with
    | some name => r.withSeverity name
    | none => .ok r
  let r := { r with message := c.message.or r.message }
  c.options.foldlM (fun r (name, value) => r.withOption name value) r

end Rule

namespace RuleEntry

/-- The level that turns a rule off. -/
def isOff (level : String) : Bool := level.map Char.toLower == "off"

/-- The rule as configured; none if it is turned off. -/
def configure (r : Rule) : RuleEntry → Except RulesetFault (Option Rule)
  | toggle enabled => .ok (if enabled then some r else none)
  | level name => if isOff name then .ok none else (r.withSeverity name).map some
  | full c => if c.enabled then (r.withConfig c).map some else .ok none

end RuleEntry

namespace Ruleset

/-- The rule as the ruleset has it. -/
def configure (s : Ruleset) (r : Rule) : Except RulesetFault (Option Rule) :=
  match Keyed.find? r.id s.rules with
  | some entry => entry.configure r
  | none => .ok (some r)

def applyTo (s : Ruleset) : List Rule → Except RulesetFault (List Rule)
  | [] => .ok []
  | r :: rest => do
    let configured ← s.configure r
    let others ← s.applyTo rest
    return configured.toList ++ others

/-- The built-in rules as the ruleset has them. -/
def apply (s : Ruleset) : Except RulesetFault (List Rule) :=
  s.applyTo Catalog.rules

/-- Reads a ruleset. -/
def ofText (text : String) : Except RulesetFault Ruleset :=
  match ofText? text with
  | some s => .ok s
  | none => .error .malformed

end Ruleset

end ApiLint
