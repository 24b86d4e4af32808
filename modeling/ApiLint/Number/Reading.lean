import ApiLint.Number.Binary

/-!
# Reading numbers

Readers of integers and decimals over lists of characters. Each accepts exactly one grammar and
refuses everything around it: no blanks, no separators, no empty digit sequences.
-/

set_option autoImplicit false

namespace ApiLint.Number

/-- The value of a digit in bases up to sixteen, letters in either case. -/
def digitValue? (c : Char) : Option Nat :=
  if '0' ≤ c ∧ c ≤ '9' then some (c.toNat - '0'.toNat)
  else if 'a' ≤ c ∧ c ≤ 'f' then some (c.toNat - 'a'.toNat + 10)
  else if 'A' ≤ c ∧ c ≤ 'F' then some (c.toNat - 'A'.toNat + 10)
  else none

def isDigitIn (base : Nat) (c : Char) : Bool :=
  match digitValue? c with
  | some d => d < base
  | none => false

/-- The value of a sequence of digits, most significant first. -/
def digitsValue (base : Nat) (digits : List Char) : Nat :=
  digits.foldl (fun value c => value * base + (digitValue? c).getD 0) 0

/-- A natural number: one digit or more, and nothing else. -/
def readNat? (base : Nat) (s : List Char) : Option Nat :=
  if s ≠ [] ∧ s.all (isDigitIn base) then some (digitsValue base s) else none

/-- Splits an optional sign off; the first part says whether it is a minus. -/
def splitSign : List Char → Bool × List Char
  | '-' :: rest => (true, rest)
  | '+' :: rest => (false, rest)
  | rest => (false, rest)

/-- A signed 64-bit integer: an optional sign, then digits. -/
def readInt64? (base : Nat) (s : List Char) : Option Int := do
  let (negative, digits) := splitSign s
  let n ← readNat? base digits
  let i : Int := if negative then -n else n
  if inInt64 i then some i else none

/-- An unsigned 64-bit integer: an optional plus sign, then digits. -/
def readNat64? (base : Nat) (s : List Char) : Option Nat := do
  let digits := match s with
    | '+' :: rest => rest
    | rest => rest
  let n ← readNat? base digits
  if n ≤ nat64Max then some n else none

/-- `digits · 10 ^ exponent`, rounded to the nearest double. Magnitudes far outside the range
are settled before any power is computed. -/
def scaledFloat (digits : Nat) (exponent : Int) : Float :=
  let places := ((Nat.toDigits 10 digits).length : Int) + exponent
  if digits = 0 ∨ places < -400 then 0.0
  else if places > 400 then 1.0 / 0.0
  else Float.ofScientific digits (exponent < 0) exponent.natAbs

/-- A double: an optional sign, digits with at most one point among or around them, and an
optional exponent. -/
def readFloat? (s : List Char) : Option Float := do
  let (negative, body) := splitSign s
  let whole := body.takeWhile Char.isDigit
  let (fraction, rest) := match body.dropWhile Char.isDigit with
    | '.' :: rest => (rest.takeWhile Char.isDigit, rest.dropWhile Char.isDigit)
    | rest => ([], rest)
  guard (whole ≠ [] ∨ fraction ≠ [])
  let exponent : Int ← match rest with
    | [] => some 0
    | c :: rest =>
      if c == 'e' || c == 'E' then do
        let (down, digits) := splitSign rest
        let n ← readNat? 10 digits
        some (if down then -(n : Int) else n)
      else none
  let magnitude := scaledFloat (digitsValue 10 (whole ++ fraction)) (exponent - fraction.length)
  some (if negative then -magnitude else magnitude)

end ApiLint.Number
