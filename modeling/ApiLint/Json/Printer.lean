import ApiLint.Json.Value
import ApiLint.Number.Decimal

/-!
# JSON text

`compact` writes a value without white space, `pretty` with one member or item a line and two
blanks of indentation. Characters beyond ASCII stand for themselves; quotes, backslashes and
control characters are escaped.
-/

set_option autoImplicit false

namespace ApiLint.Json

/-- Numbers have the fewest digits that identify them; they are positional from `1e-5` to below
`1e16` and otherwise carry a signed exponent. -/
def numberLayout : Number.Layout where
  isPositional e := -5 ≤ e && e < 16
  pointZero := true
  plusSign := true
  tie := .toEven

def hexDigit (n : Nat) : Char :=
  if n < 10 then Char.ofNat (48 + n) else Char.ofNat (87 + n)

def escapeChar (c : Char) : List Char :=
  if c == '\x22' then ['\\', '\x22']
  else if c == '\\' then ['\\', '\\']
  else if c == '\n' then ['\\', 'n']
  else if c == '\r' then ['\\', 'r']
  else if c == '\t' then ['\\', 't']
  else if c.toNat == 8 then ['\\', 'b']
  else if c.toNat == 12 then ['\\', 'f']
  else if c.toNat < 32 then ['\\', 'u', '0', '0', hexDigit (c.toNat / 16), hexDigit (c.toNat % 16)]
  else [c]

def quote (s : String) : String :=
  String.ofList ('\x22' :: s.toList.flatMap escapeChar ++ ['\x22'])

/-- A double; what is not finite is written as null. -/
def floatText (x : Float) : String :=
  if x.isFinite then numberLayout.render x else "null"

mutual

def compact : Json → String
  | .null => "null"
  | .bool b => if b then "true" else "false"
  | .int i => toString i
  | .float x => floatText x
  | .str s => quote s
  | .arr items => "[" ++ compactItems items ++ "]"
  | .obj members => "\x7b" ++ compactMembers members ++ "\x7d"

def compactItems : List Json → String
  | [] => ""
  | [item] => compact item
  | item :: next :: rest => compact item ++ "," ++ compactItems (next :: rest)

def compactMembers : List (String × Json) → String
  | [] => ""
  | [(key, value)] => quote key ++ ":" ++ compact value
  | (key, value) :: next :: rest =>
    quote key ++ ":" ++ compact value ++ "," ++ compactMembers (next :: rest)

end

/-- A line break and the indentation of a nesting level. -/
def lineAt (level : Nat) : String :=
  String.ofList ('\n' :: List.replicate (2 * level) ' ')

mutual

def prettyAt (level : Nat) : Json → String
  | .null => "null"
  | .bool b => if b then "true" else "false"
  | .int i => toString i
  | .float x => floatText x
  | .str s => quote s
  | .arr [] => "[]"
  | .arr (item :: rest) =>
    "[" ++ lineAt (level + 1) ++ prettyAt (level + 1) item ++ prettyItems (level + 1) rest ++
      lineAt level ++ "]"
  | .obj [] => "\x7b\x7d"
  | .obj ((key, value) :: rest) =>
    "\x7b" ++ lineAt (level + 1) ++ quote key ++ ": " ++ prettyAt (level + 1) value ++
      prettyMembers (level + 1) rest ++ lineAt level ++ "\x7d"

def prettyItems (level : Nat) : List Json → String
  | [] => ""
  | item :: rest => "," ++ lineAt level ++ prettyAt level item ++ prettyItems level rest

def prettyMembers (level : Nat) : List (String × Json) → String
  | [] => ""
  | (key, value) :: rest =>
    "," ++ lineAt level ++ quote key ++ ": " ++ prettyAt level value ++ prettyMembers level rest

end

def pretty (value : Json) : String :=
  prettyAt 0 value

end ApiLint.Json
