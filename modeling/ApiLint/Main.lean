import ApiLint.CommandLine.Run
import ApiLint.CommandLine.Usage

/-!
# The program

Reads the files that a command needs, runs the command and prints the result. The exit code is 0
for a run that is clean, 1 for one that failed or came to no result, 2 for a wrong command line.
-/

set_option autoImplicit false

open ApiLint

/-- The fault behind an error of the file system. -/
def fileFault : IO.Error → FileFault
  | .noFileOrDirectory _ _ _ => .missing
  | .inappropriateType _ code _ =>
    if code = 21 ∨ code = 0 - 21 then .isDirectory else .throughFile
  | .userError _ => .other "stream did not contain valid UTF-8"
  | fault => .other (toString fault)

def readFile (name : String) : IO (Except FileFault String) := do
  match ← (IO.FS.readFile name).toBaseIO with
  | .ok text => return .ok text
  | .error fault => return .error (fileFault fault)

/-- Milliseconds of Unix time, as the clock of the file system has it. -/
def currentTime : IO Nat :=
  IO.FS.withTempFile fun _ path => do
    let time := (← path.metadata).modified
    return time.sec.toNat * 1000 + time.nsec.toNat / 1000000

def runCommand (command : Command) : IO UInt32 := do
  let texts ← command.files.mapM fun name => return (name, ← readFile name)
  let read : FileReader := fun name => (texts.lookup name).getD (.error .missing)
  let (result, output) := (command.execute read (← currentTime)).run.run ""
  IO.print output
  match result with
  | .ok failed => return if failed then 1 else 0
  | .error fault =>
    IO.eprintln ("Error: " ++ fault.message)
    for cause in fault.cause? do
      IO.eprintln ("\nCaused by:\n    " ++ cause)
    return 1

def main (arguments : List String) : IO UInt32 := do
  match CommandLine.read arguments with
  | .ok command => runCommand command
  | .error fault =>
    for answer in fault.answer? do
      IO.print answer
    return if fault.isRequest then 0 else 2
