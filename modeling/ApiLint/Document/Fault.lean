import ApiLint.Yaml.Tree

/-!
# Why a document does not load
-/

set_option autoImplicit false

namespace ApiLint

inductive LoadFault where
  | unreadable (path reason : String)
  | malformed (fault : Yaml.SyntaxFault)
  | empty
  | notAMapping
  | missingVersion
  | copyLimit (mark : Yaml.Mark)

namespace LoadFault

def ofRead : Yaml.ReadFault → LoadFault
  | .syntaxFault fault => .malformed fault
  | .copyLimit mark => .copyLimit mark
  | .empty => .empty

def message : LoadFault → String
  | unreadable path reason => "failed to read " ++ path ++ ": " ++ reason
  | malformed fault =>
    "syntax error at line " ++ toString fault.position.line ++ ", column " ++
      toString (fault.position.column + 1) ++ ": " ++ fault.message
  | empty => "document is empty"
  | notAMapping => "document root must be a mapping"
  | missingVersion => "document declares neither \x60openapi\x60 nor \x60swagger\x60 version"
  | copyLimit mark =>
    "alias expansion limit reached at line " ++ toString mark.line ++ ", column " ++
      toString mark.column

end LoadFault

end ApiLint
