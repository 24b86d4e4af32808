/-!
# Spelled-out patterns

Messages quote a pattern with its shorthands for classes of characters written out. A pattern
with assertions about what is around a match, or with references to groups, is quoted as it is.
-/

set_option autoImplicit false

namespace ApiLint.Pattern

/-- The white space that the shorthand stands for. -/
def spelledSpace : List Char :=
  [' ', '\t', '\n', '\r', '\x0b', '\x0c', '\u00a0', '\ufeff', '\u2003', '\u2029']

/-- What the shorthand with this letter stands for, without the brackets. -/
def shorthand? (letter : Char) : Option (List Char) :=
  match letter with
  | 'd' => some "0-9".toList
  | 'D' => some "^0-9".toList
  | 'w' => some "A-Za-z0-9_".toList
  | 'W' => some "^A-Za-z0-9_".toList
  | 's' => some spelledSpace
  | 'S' => some ('^' :: spelledSpace)
  | _ => none

/-- Writes out shorthands and control characters. -/
def spell : List Char → List Char
  | '\\' :: 'c' :: c :: rest =>
    if c.isAlpha then Char.ofNat (c.toNat % 32) :: spell rest else '\\' :: 'c' :: spell (c :: rest)
  | '\\' :: c :: rest =>
    match shorthand? c with
    | some ranges => '[' :: ranges ++ ']' :: spell rest
    | none => '\\' :: c :: spell rest
  | c :: rest => c :: spell rest
  | [] => []

/-- There is an assertion about what is around a match, or a reference to a group. -/
def looksAround : List Char → Bool
  | '\\' :: c :: rest => c == 'k' || ('1' ≤ c && c ≤ '9') || looksAround rest
  | '(' :: '?' :: c :: rest =>
    c == '=' || c == '!' ||
      (c == '<' && (match rest with
        | d :: _ => d == '=' || d == '!'
        | [] => false)) ||
      looksAround (c :: rest)
  | _ :: rest => looksAround rest
  | [] => false

def spelledOut (source : String) : String :=
  if looksAround source.toList then source else String.ofList (spell source.toList)

end ApiLint.Pattern
