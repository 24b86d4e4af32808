import ApiLint.Ruleset.Value
import ApiLint.Text.Blank

/-!
# Rulesets

A ruleset configures rules by name: it turns them on and off, changes their severity, replaces
their message and sets options. `Ruleset.ofText?` reads one; a text that says nothing is a ruleset
that configures nothing.
-/

set_option autoImplicit false

namespace ApiLint

open Yaml (Written WrittenDocument)

structure RuleConfig where
  enabled : Bool := true
  severity : Option String := none
  message : Option String := none
  /-- In the order of their names. -/
  options : List (String × ConfigValue) := []

/-- How one rule is configured. -/
inductive RuleEntry where
  | toggle (enabled : Bool)
  /-- A severity, or `off`. -/
  | level (name : String)
  | full (config : RuleConfig)

structure Ruleset where
  /-- In the order of their names. -/
  rules : List (String × RuleEntry) := []

/-! ## One rule -/

namespace RuleConfig

inductive Field where
  | enabled
  | severity
  | message
  | options
  deriving Repr, DecidableEq

namespace Field

def all : List Field := [enabled, severity, message, options]

def name : Field → String
  | enabled => "enabled"
  | severity => "severity"
  | message => "message"
  | options => "options"

/-- A field is written as its name or as its number. -/
def ofKey? : ConfigValue → Option Field
  | .text s => all.find? (·.name == s)
  | .natural n => all[n]?
  | _ => none

end Field

/-- A text that may be left open. -/
def openText? : ConfigValue → Option (Option String)
  | .null => some none
  | .text s => some (some s)
  | _ => none

/-- The options of a table; names are texts, and of options with one name the last stays. -/
def optionsOf? : ConfigValue → Option (List (String × ConfigValue))
  | .table entries =>
    entries.foldlM (fun out (entry : ConfigValue × ConfigValue) =>
      match entry with
      | (.text name, value) =>
        if value.isUnambiguous then some (Keyed.insert name value out) else none
      | _ => none) []
  | _ => none

def set? (c : RuleConfig) (field : Field) (value : ConfigValue) : Option RuleConfig :=
  match field with
  | .enabled =>
    match value with
    | .bool b => some { c with enabled := b }
    | _ => none
  | .severity => (openText? value).map fun s => { c with severity := s }
  | .message => (openText? value).map fun s => { c with message := s }
  | .options => (optionsOf? value).map fun o => { c with options := o }

/-- Sets the fields in turn; nothing if a field is set twice or does not fit. -/
def ofFields? (fields : List (Field × ConfigValue)) : Option RuleConfig :=
  if (fields.map (·.1)).eraseDups.length = fields.length then
    fields.foldlM (fun (c : RuleConfig) (field, value) => c.set? field value) {}
  else none

/-- The entry of a table as a field. -/
def fieldOf? (entry : ConfigValue × ConfigValue) : Option (Field × ConfigValue) :=
  (Field.ofKey? entry.1).map fun f => (f, entry.2)

/-- A table of fields, or a list of their values in order. -/
def ofValue? : ConfigValue → Option RuleConfig
  | .table entries => (entries.mapM fieldOf?).bind ofFields?
  | .list items =>
    if items.length ≤ Field.all.length then ofFields? (Field.all.zip items) else none
  | _ => none

end RuleConfig

namespace RuleEntry

def ofValue? : ConfigValue → Option RuleEntry
  | .bool b => some (toggle b)
  | .text s => some (level s)
  | value => (RuleConfig.ofValue? value).map full

end RuleEntry

/-! ## Rulesets -/

namespace Ruleset

open ConfigValue (Following follow ofWritten)

/-- How deep collections may be nested. -/
def maxDepth : Nat := 128

/-- How many anchors may be followed for each part of the document. -/
def followsPerNode : Nat := 100

def key (d : WrittenDocument) (node : Written) : Following String := do
  match ← follow d node with
  | .scalar s _ _ => return s
  | _ => failure

/-- The entries of a mapping, which may be left blank. -/
def entries (d : WrittenDocument) (node : Written) : Following (List (Written × Written)) := do
  match ← follow d node with
  | .mapping entries _ => return entries
  | node => if node.isBlank then return [] else failure

/-- The rules of a mapping two collections deep in the document. -/
def rulesOf (d : WrittenDocument) (node : Written) : Following (List (String × RuleEntry)) := do
  let rules ← (← entries d node).mapM fun (name, value) => do
    let name ← key d name
    let value ← ofWritten d (maxDepth - 2) value
    match RuleEntry.ofValue? value with
    | some entry => return (name, entry)
    | none => failure
  return Keyed.ofList rules

/-- The ruleset of a document. The rules stand under the one key `rules`; other keys are free. -/
def ofDocument (d : WrittenDocument) : Following Ruleset := do
  match d.root with
  | none => return {}
  | some root =>
    let sections ← (← entries d root).filterMapM fun (name, value) => do
      if (← key d name) == "rules" then return some (← rulesOf d value) else return none
    match sections with
    | [] => return {}
    | [rules] => return ⟨rules⟩
    | _ => failure

/-- Characters that may stand in a ruleset. -/
def isPrintable (c : Char) : Bool :=
  c == '\t' || c == '\n' || c == '\r' || c.toNat == 0x85 ||
    (0x20 ≤ c.toNat && c.toNat ≤ 0x7E) ||
    (0xA0 ≤ c.toNat && c.toNat != 0xFFFE && c.toNat != 0xFFFF)

def ofText? (text : String) : Option Ruleset :=
  if Text.isEmptyOrBlank text then some {}
  else if !text.toList.all isPrintable then none
  else do
    let d ← WrittenDocument.ofSource? text
    let (ruleset, _) ← (ofDocument d).run (followsPerNode * d.size)
    return ruleset

end Ruleset

end ApiLint
