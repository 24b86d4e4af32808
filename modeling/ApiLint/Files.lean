/-!
# Files

Why a file cannot be read, file names and their neighbours, and trees of text files. A tree answers
as a directory would in which its files stand: `FileTree.read` follows a name step by step, and
`FileName.beside?` names a file in the same directory as another one.
-/

set_option autoImplicit false

namespace ApiLint

inductive FileFault where
  | missing
  /-- A step of the name leads on from a file. -/
  | throughFile
  | isDirectory
  | nameTooLong
  /-- The name holds a character that no name can hold. -/
  | badName
  /-- Anything else that stops the reading of a file that is there. -/
  | other (reason : String)
  deriving Repr, DecidableEq

namespace FileFault

def message : FileFault → String
  | missing => "No such file or directory (os error 2)"
  | throughFile => "Not a directory (os error 20)"
  | isDirectory => "Is a directory (os error 21)"
  | nameTooLong => "File name too long (os error 36)"
  | badName => "file name contained an unexpected NUL byte"
  | other reason => reason

/-- The name leads somewhere, but not to a text. -/
def isThere : FileFault → Bool
  | isDirectory | other _ => true
  | _ => false

end FileFault

/-- What is read under a name. -/
abbrev FileReader := String → Except FileFault String

/-- A file or a directory has the name. -/
def FileReader.isThere (read : FileReader) (name : String) : Bool :=
  match read name with
  | .ok _ => true
  | .error fault => fault.isThere

namespace FileName

/-- The steps of a name, those that stay in place as well. -/
def parts (name : String) : List String := name.splitOn "/"

/-- A step that stays in place. -/
def isIdle (part : String) : Bool := part == "" || part == "."

/-- The steps that lead from one place to another. -/
def steps (name : String) : List String := (parts name).filter (!isIdle ·)

/-- Removes idle steps from the front of a reversed name, though never its last step. -/
def trim : List String → List String
  | part :: next :: rest => if isIdle part then trim (next :: rest) else part :: next :: rest
  | short => short

/-- The name of a file in the directory of another one; the top directory is in no other. -/
def beside? (name file : String) : Option String :=
  match trim (parts name).reverse with
  | [] | [""] => none
  | [_] => some file
  | _ :: directory =>
    match trim directory with
    | [""] => some ("/" ++ file)
    | directory => some ("/".intercalate directory.reverse ++ "/" ++ file)

end FileName

/-- The texts of files by their names, which are relative to the top of the tree. -/
structure FileTree where
  files : List (String × String)

namespace FileTree

inductive Place where
  | file (text : String)
  | directory (steps : List String)
  /-- A directory so many levels above the top. -/
  | above (levels : Nat)

/-- The place that a step down from a directory leads to. -/
def enter (t : FileTree) (directory : List String) (name : String) : Except FileFault Place :=
  let steps := directory ++ [name]
  if name.utf8ByteSize > 255 then .error .nameTooLong
  else
    match t.files.find? fun file => FileName.steps file.1 = steps with
    | some (_, text) => .ok (.file text)
    | none =>
      if t.files.any fun file => steps.isPrefixOf (FileName.steps file.1) then
        .ok (.directory steps)
      else .error .missing

def step (t : FileTree) : Place → String → Except FileFault Place
  | .file _, _ => .error .throughFile
  | .directory [], ".." => .ok (.above 0)
  | .directory steps, ".." => .ok (.directory steps.dropLast)
  | .directory steps, name => t.enter steps name
  | .above levels, ".." => .ok (.above (levels + 1))
  | .above _, name => .error (if name.utf8ByteSize > 255 then .nameTooLong else .missing)

/-- The place that a name leads to. Nothing but the tree is known of what lies outside. -/
def find (t : FileTree) (name : String) : Except FileFault Place :=
  let steps := FileName.steps name
  if name.contains '\x00' then .error .badName
  else if name.utf8ByteSize > 4095 then .error .nameTooLong
  else if name.startsWith "/" then
    if steps.isEmpty then .ok (.above 0) else .error .missing
  else if name.isEmpty then .error .missing
  else steps.foldlM t.step (.directory [])

/-- The text of the file with the name. A name that ends in an idle step is that of a directory. -/
def read (t : FileTree) : FileReader := fun name =>
  match t.find name with
  | .ok (.file text) =>
    if ((FileName.parts name).getLast?.map FileName.isIdle).getD false then .error .throughFile
    else .ok text
  | .ok _ => .error .isDirectory
  | .error fault => .error fault

end FileTree

end ApiLint
