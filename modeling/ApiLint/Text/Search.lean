/-!
# Searching texts

Whether a text occurs in another one.
-/

set_option autoImplicit false

namespace ApiLint.Text

/-- `needle` stands somewhere in the characters. -/
def occursIn (needle : List Char) : List Char → Bool
  | [] => needle.isEmpty
  | c :: rest => needle.isPrefixOf (c :: rest) || occursIn needle rest

end ApiLint.Text
