import ApiLint.Settings.Runtime
import ApiLint.Text.Identifier

/-!
# Logging settings

What is logged, and in which form, as the environment says. A filter is a list of directives, each
of them a level, a target with a level, or a span with fields; those that cannot be read do not
count.
-/

set_option autoImplicit false

namespace ApiLint

inductive LogFormat where
  | json
  | pretty
  deriving Repr, DecidableEq

inductive LogLevel where
  | trace
  | debug
  | info
  | warn
  | error
  deriving Repr, DecidableEq

structure LogSettings where
  /-- As it was given. -/
  levelName : String := "warn"
  format : LogFormat := .pretty
  async : Bool := false
  /-- Directives, separated by commas. -/
  filter : Option String := none
  showsLocation : Bool := false
  deriving Repr, DecidableEq

namespace LogLevel

def all : List LogLevel := [trace, debug, info, warn, error]

def name : LogLevel → String
  | trace => "trace"
  | debug => "debug"
  | info => "info"
  | warn => "warn"
  | error => "error"

/-- Reads a name in letters of either case. -/
def ofName? (text : String) : Option LogLevel :=
  all.find? (·.name == text.map Char.toLower)

end LogLevel

/-! ## Directives -/

namespace LogDirective

/-- A level of a directive: a name, `off`, or a number up to five. -/
def isLevel (text : List Char) : Bool :=
  match Number.readNat64? 10 text with
  | some n => n ≤ 5
  | none =>
    let name := String.ofList (text.map Char.toLower)
    name == "off" || (LogLevel.ofName? name).isSome

/-- What may open a directive, brackets apart. -/
def opens (c : Char) : Bool :=
  c == '-' || c == ':' || c == '_' || c.isAlphanum || (c.toNat > 127 && Text.continuesIdentifier c)

/-- What follows a target or a span: nothing, or a level, which may be left blank. -/
def isEnd : List Char → Bool
  | [] => true
  | '=' :: level => level.isEmpty || isLevel level
  | _ => false

/-- The fields of a span: none is blank, and the span ends behind them. -/
def areFields (blank : Bool) : List Char → Bool
  | [] => false
  | '\x7d' :: rest =>
    match rest with
    | ']' :: rest => !blank && isEnd rest
    | _ => false
  | _ :: rest => areFields false rest

/-- What stands between the brackets of a span, and what follows them. -/
def isSpan : List Char → Bool
  | [] => false
  | ']' :: rest => isEnd rest
  | '\x7b' :: rest => areFields true rest
  | _ :: rest => isSpan rest

/-- The rest of a directive that opens with a target. -/
def isTarget : List Char → Bool
  | [] => true
  | '=' :: level => level.isEmpty || isLevel level
  | '[' :: rest => isSpan rest
  | _ :: rest => isTarget rest

/-- A directive that can be read. It holds no comma. -/
def isReadable : List Char → Bool
  | '[' :: rest => isSpan rest
  | c :: rest => opens c && isTarget rest
  | [] => false

end LogDirective

namespace LogSettings

def readFlag? (text : String) : Option Bool :=
  if text == "true" then some true else if text == "false" then some false else none

def readFormat (text : String) : LogFormat :=
  if text.map Char.toLower == "json" then .json else .pretty

def ofEnvironment (env : Environment) : LogSettings :=
  let defaults : LogSettings := {}
  let flag (name : String) (default : Bool) : Bool :=
    ((env.lookup name).bind readFlag?).getD default
  { levelName := (env.lookup "OASLINT_LOG_LEVEL").getD defaults.levelName
    format := ((env.lookup "OASLINT_LOG_FORMAT").map readFormat).getD defaults.format
    async := flag "OASLINT_LOG_ASYNC" defaults.async
    filter := (env.lookup "OASLINT_LOG_TARGET_FILTER").filter (!Text.isEmptyOrBlank ·)
    showsLocation := flag "OASLINT_LOG_INCLUDE_LOCATION" defaults.showsLocation }

/-- A name that is no level stands for warnings. -/
def level (s : LogSettings) : LogLevel :=
  (LogLevel.ofName? s.levelName).getD .warn

/-- The directives of the filter that can be read. -/
def directives (s : LogSettings) : List String :=
  match s.filter with
  | none => []
  | some filter =>
    ((Text.splitOn ',' filter).map Text.trim).filter fun d => LogDirective.isReadable d.toList

end LogSettings

end ApiLint
