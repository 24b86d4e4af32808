import ApiLint.CommandLine.Arguments

/-!
# Usage

What is answered where a command line names no command to run. The texts of the help and of the
errors are those of the library that reads command lines, and are left out.
-/

set_option autoImplicit false

namespace ApiLint.UsageFault

/-- What is printed: the program with its version, where that was asked for. -/
def answer? : UsageFault → Option String
  | version => some "oaslint 0.1.0-alpha.1\n"
  | _ => none

/-- The help and the version are answers; all else is an error. -/
def isRequest : UsageFault → Bool
  | help | version => true
  | _ => false

end ApiLint.UsageFault
