import ApiLint.Number.Reading

/-!
# Scalar values

How the text of a plain scalar is read: the words for null, the booleans, infinity and
not-a-number, integers in three bases, decimals, and everything else as text. Integers outside
the signed 64-bit range are read as doubles if they are decimal, and as text otherwise.
-/

set_option autoImplicit false

namespace ApiLint.Yaml

inductive Scalar where
  | null
  | bool (value : Bool)
  | int (value : Int)
  | float (value : Float)
  | text (value : String)
  deriving Inhabited

namespace Scalar

/-- The words with a value of their own. -/
def ofWord? (text : String) : Option Scalar :=
  if ["", "~", "null", "Null", "NULL"].contains text then some .null
  else if ["true", "True", "TRUE"].contains text then some (.bool true)
  else if ["false", "False", "FALSE"].contains text then some (.bool false)
  else if [".inf", ".Inf", ".INF", "+.inf", "+.Inf", "+.INF"].contains text then
    some (.float (1.0 / 0.0))
  else if ["-.inf", "-.Inf", "-.INF"].contains text then some (.float (-1.0 / 0.0))
  else if [".nan", ".NaN", ".NAN"].contains text then some (.float (0.0 / 0.0))
  else none

/-- The integer after `0x` or `0o`. -/
def ofRadix? : List Char → Option Int
  | '0' :: 'x' :: digits => Number.readInt64? 16 digits
  | '0' :: 'o' :: digits => Number.readInt64? 8 digits
  | _ => none

/-- The text starts like a decimal and holds only the characters of one. -/
def looksNumeric (text : List Char) : Bool :=
  let body := (Number.splitSign text).2
  let starts := match body with
    | '.' :: c :: _ => c.isDigit
    | c :: _ => c.isDigit
    | [] => false
  starts && body.all fun c => c.isDigit || c == '.' || c == 'e' || c == 'E' || c == '-' || c == '+'

/-- The decimal integer or the double written by a text. -/
def ofDecimal? (text : List Char) : Option Scalar :=
  if looksNumeric text then
    (Number.readInt64? 10 text).map Scalar.int <|> (Number.readFloat? text).map Scalar.float
  else none

/-- The value of a plain scalar. -/
def ofPlain (text : String) : Scalar :=
  let number? := (ofRadix? text.toList).map Scalar.int <|> ofDecimal? text.toList
  (ofWord? text <|> number?).getD (.text text)

end Scalar

end ApiLint.Yaml
