import ApiLint.Lint.Listing
import ApiLint.Number.Reading

/-!
# Command lines

The commands of the linter and how they are read off the words of a command line. Words are taken
from left to right. An option whose value is the next word, and the name of the document, stay
*pending* until the next option or operand is recognised or the words end; only then is their value
checked. So of two faults the one that is settled first is reported, except that a word which fits
nowhere is reported at once, whatever is pending.
-/

set_option autoImplicit false

namespace ApiLint

inductive UsageFault where
  /-- The help was asked for. -/
  | help
  /-- The version was asked for. -/
  | version
  | missingCommand
  | unknownCommand
  | unknownArgument
  | missingDocument
  /-- A value is missing, empty or none of those that are possible. -/
  | invalidValue
  /-- A value is no number. -/
  | notANumber
  | repeatedOption
  /-- A flag has a value attached. -/
  | surplusValue
  deriving Repr, DecidableEq

structure LintCommand where
  document : String
  /-- The file of the ruleset. -/
  ruleset : Option String := none
  /-- The rules to run; all if there are none. -/
  rules : List String := []
  format : ListingFormat := .text
  /-- The run fails if a finding is as severe; without a threshold it never does. -/
  failSeverity : Option Severity := some .error
  errorsOnly : Bool := false
  workers : Option Nat := none
  /-- In milliseconds. -/
  ruleTimeout : Option Nat := none
  deriving Repr, DecidableEq

inductive Command where
  | lint (command : LintCommand)
  /-- Lists the built-in rules. -/
  | rules (format : ListingFormat)
  deriving Repr, DecidableEq

namespace CommandLine

/-! ## Words -/

inductive Word where
  /-- After it every word is an operand. -/
  | divider
  | long (name : String) (value : Option String)
  | short (letters : List Char)
  | operand (text : String)
  deriving Repr, DecidableEq

/-- The name of a long option ends at the first `=`; a lone `-` is an operand. -/
def Word.ofString (text : String) : Word :=
  match text.toList with
  | ['-', '-'] => .divider
  | '-' :: '-' :: rest =>
    let name := String.ofList (rest.takeWhile (· ≠ '='))
    match rest.dropWhile (· ≠ '=') with
    | [] => .long name none
    | _ :: value => .long name (some (String.ofList value))
  | '-' :: letter :: letters => .short (letter :: letters)
  | _ => .operand text

/-! ## Values -/

inductive Parameter where
  | document
  | ruleset
  | rule
  | format
  | failSeverity
  | errorsOnly
  | workers
  | ruleTimeout
  deriving Repr, DecidableEq

namespace Parameter

/-- The options of the `lint` command. -/
def options : List Parameter :=
  [ruleset, rule, format, failSeverity, errorsOnly, workers, ruleTimeout]

def name : Parameter → String
  | document => "document"
  | ruleset => "ruleset"
  | rule => "rule"
  | format => "format"
  | failSeverity => "fail-severity"
  | errorsOnly => "errors-only"
  | workers => "workers"
  | ruleTimeout => "rule-timeout-ms"

end Parameter

/-- The values that have been given. -/
structure Given where
  document : Option String := none
  ruleset : Option String := none
  rules : List String := []
  format : Option ListingFormat := none
  failSeverity : Option (Option Severity) := none
  errorsOnly : Bool := false
  workers : Option Nat := none
  ruleTimeout : Option Nat := none
  deriving Repr, DecidableEq

def readFile (text : String) : Except UsageFault String :=
  if text.isEmpty then .error .invalidValue else .ok text

def readFormat (text : String) : Except UsageFault ListingFormat :=
  match ListingFormat.all.find? (·.name == text) with
  | some format => .ok format
  | none => .error .invalidValue

/-- A threshold is the name of a severity, or `none`. -/
def readThreshold (text : String) : Except UsageFault (Option Severity) :=
  if text == "none" then .ok none
  else
    match Severity.all.find? (·.name == text) with
    | some severity => .ok (some severity)
    | none => .error .invalidValue

def readNumber (text : String) : Except UsageFault Nat :=
  match Number.readNat64? 10 text.toList with
  | some n => .ok n
  | none => .error .notANumber

namespace Given

/-- The parameter has a value and takes no second one. -/
def isTaken (g : Given) : Parameter → Bool
  | .document => g.document.isSome
  | .ruleset => g.ruleset.isSome
  | .rule => false
  | .format => g.format.isSome
  | .failSeverity => g.failSeverity.isSome
  | .errorsOnly => g.errorsOnly
  | .workers => g.workers.isSome
  | .ruleTimeout => g.ruleTimeout.isSome

def set (g : Given) (value : String) : Parameter → Except UsageFault Given
  | .document => (readFile value).map fun file => { g with document := some file }
  | .ruleset => (readFile value).map fun file => { g with ruleset := some file }
  | .rule => .ok { g with rules := g.rules ++ [value] }
  | .format => (readFormat value).map fun format => { g with format := some format }
  | .failSeverity => (readThreshold value).map fun t => { g with failSeverity := some t }
  | .errorsOnly => .ok { g with errorsOnly := true }
  | .workers => (readNumber value).map fun n => { g with workers := some n }
  | .ruleTimeout => (readNumber value).map fun n => { g with ruleTimeout := some n }

/-- Takes a value, unless there is none or the parameter has one already. -/
def take (g : Given) (p : Parameter) : Option String → Except UsageFault Given
  | none => .error .invalidValue
  | some value => if g.isTaken p then .error .repeatedOption else g.set value p

end Given

/-! ## Reading the words of a command -/

/-- What a command takes. -/
structure Signature where
  options : List Parameter
  takesDocument : Bool

def lintSignature : Signature := ⟨Parameter.options, true⟩

def rulesSignature : Signature := ⟨[.format], false⟩

/-- How far the words have been read. -/
structure State where
  given : Given := {}
  /-- The parameter whose value is yet to be checked, and the value if it has come. -/
  pending : Option (Parameter × Option String) := none

namespace State

/-- Checks what is pending. -/
def settle (s : State) : Except UsageFault Given :=
  match s.pending with
  | none => .ok s.given
  | some (p, value) => s.given.take p value

/-- The option that the next operand is the value of. -/
def awaiting? (s : State) : Option Parameter :=
  match s.pending with
  | some (p, none) => some p
  | _ => none

/-- The document has been named. -/
def hasDocument (s : State) : Bool :=
  s.given.document.isSome ||
    match s.pending with
    | some (.document, _) => true
    | _ => false

/-- Takes an operand that is no option's value. -/
def operand (signature : Signature) (s : State) (text : String) : Except UsageFault State := do
  if signature.takesDocument && !s.hasDocument then
    return ⟨← s.settle, some (.document, some text)⟩
  throw .unknownArgument

/-- Takes a long option, with the value attached to it if it has one. -/
def option (signature : Signature) (s : State) (name : String) (value : Option String) :
    Except UsageFault State := do
  match signature.options.find? (·.name == name), value with
  | none, none =>
    if name == "help" then
      let _ ← s.settle
      throw .help
    throw .unknownArgument
  | none, some _ => throw (if name == "help" then .surplusValue else .unknownArgument)
  | some .errorsOnly, some _ => throw .surplusValue
  | some .errorsOnly, none => return ⟨← (← s.settle).take .errorsOnly (some ""), none⟩
  | some p, some value => return ⟨← (← s.settle).take p (some value), none⟩
  | some p, none => return ⟨← s.settle, some (p, none)⟩

/-- Takes letters after a single dash. The help is the only option with a letter. -/
def letters (s : State) (letters : List Char) : Except UsageFault State := do
  if letters.head? == some 'h' then
    let _ ← s.settle
    throw .help
  throw .unknownArgument

/-- Takes a word before the divider. -/
def word (signature : Signature) (s : State) : Word → Except UsageFault State
  | .divider => .ok s
  | .long name value => s.option signature name value
  | .short letters => s.letters letters
  | .operand text =>
    match s.awaiting? with
    | some p => .ok { s with pending := some (p, some text) }
    | none => s.operand signature text

end State

/-- Reads the words after the divider. -/
def readOperands (signature : Signature) (s : State) (words : List String) :
    Except UsageFault Given := do
  (← words.foldlM (State.operand signature) s).settle

/-- Reads the words of a command. -/
def readWords (signature : Signature) (s : State) : List String → Except UsageFault Given
  | [] => s.settle
  | text :: rest =>
    match Word.ofString text with
    | .divider => readOperands signature s rest
    | word => do readWords signature (← s.word signature word) rest

def readLint (words : List String) : Except UsageFault Command := do
  let g ← readWords lintSignature {} words
  match g.document with
  | none => throw .missingDocument
  | some document =>
    return .lint {
      document := document
      ruleset := g.ruleset
      rules := g.rules
      format := g.format.getD .text
      failSeverity := g.failSeverity.getD (some .error)
      errorsOnly := g.errorsOnly
      workers := g.workers
      ruleTimeout := g.ruleTimeout }

def readRules (words : List String) : Except UsageFault Command := do
  let g ← readWords rulesSignature {} words
  return .rules (g.format.getD .text)

/-- The words that begin a command. -/
def commandNames : List String := ["lint", "rules", "help"]

/-- The help is about the linter or about one command; no command has commands of its own. -/
def readHelp : List String → UsageFault
  | [] => .help
  | [name] => if name ∈ commandNames then .help else .unknownCommand
  | _ => .unknownCommand

/-- Reads the words that follow the name of the program. -/
def read : List String → Except UsageFault Command
  | [] => .error .missingCommand
  | first :: rest =>
    match Word.ofString first with
    | .divider => .error <|
      match rest with
      | [] => .missingCommand
      | name :: _ => if name ∈ commandNames then .unknownArgument else .unknownCommand
    | .long "help" none | .short ('h' :: _) => .error .help
    | .long "version" none | .short ('V' :: _) => .error .version
    | .long "help" (some _) | .long "version" (some _) => .error .surplusValue
    | .long _ _ | .short _ => .error .unknownArgument
    | .operand "lint" => readLint rest
    | .operand "rules" => readRules rest
    | .operand "help" => .error (readHelp rest)
    | .operand _ => .error .unknownCommand

end CommandLine

end ApiLint
