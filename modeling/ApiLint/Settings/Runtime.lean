import ApiLint.Number.Reading
import ApiLint.Text.Blank

/-!
# Runtime settings

How many workers a run has, how much stack each of them gets and how long the work of one rule may
take, as the environment says. What is not set or cannot be read has its default.
-/

set_option autoImplicit false

namespace ApiLint

/-- The variables that are set. -/
abbrev Environment := List (String × String)

structure RuntimeSettings where
  workers : Nat := 4
  /-- In bytes. -/
  stackSize : Nat := 0x100000
  /-- In milliseconds; none if rules may take any time. -/
  ruleTimeout : Option Nat := some 10000
  deriving Repr, DecidableEq

/-- A size in decimal or, after `0x`, in hexadecimal; blanks around it do not count. -/
def readSize? (text : String) : Option Nat :=
  match (Text.trim text).toList with
  | '0' :: 'x' :: digits => Number.readNat64? 16 digits
  | digits => Number.readNat64? 10 digits

namespace RuntimeSettings

/-- The number that a variable is set to. -/
def number? (env : Environment) (name : String) : Option Nat :=
  (env.lookup name).bind fun value => Number.readNat64? 10 value.toList

/-- A number of workers is positive; a timeout of zero is none. -/
def ofEnvironment (env : Environment) : RuntimeSettings :=
  let defaults : RuntimeSettings := {}
  { workers := ((number? env "OASLINT_WORKERS").filter (· > 0)).getD defaults.workers
    stackSize := ((env.lookup "OASLINT_STACK_SIZE").bind readSize?).getD defaults.stackSize
    ruleTimeout := match number? env "OASLINT_RULE_TIMEOUT_MS" with
      | some 0 => none
      | some ms => some ms
      | none => defaults.ruleTimeout }

end RuntimeSettings

end ApiLint
