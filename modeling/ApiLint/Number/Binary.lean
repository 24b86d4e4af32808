/-!
# Binary floating point, exactly

A finite double is `± m · 2 ^ q` with `m` a natural number. Everything the library asks of a
double beyond its own arithmetic (is it whole, which integer is it, how does it compare with an
integer) is answered on that exact form.
-/

set_option autoImplicit false

namespace ApiLint.Number

/-- The finite value `± mantissa · 2 ^ exponent`. -/
structure Binary where
  negative : Bool
  mantissa : Nat
  exponent : Int
  /-- The gap to the next smaller magnitude is half the gap to the next larger one. -/
  narrowBelow : Bool
  deriving Repr, DecidableEq

/-- The exact form of a double; `none` for infinities and for what is not a number. -/
def Binary.ofFloat? (x : Float) : Option Binary :=
  let bits := x.toBits
  let e := ((bits >>> 52) &&& 0x7FF).toNat
  let f := (bits &&& 0xFFFFFFFFFFFFF).toNat
  let negative := (bits >>> 63) == 1
  if e == 0x7FF then none
  else if e == 0 then some ⟨negative, f, -1074, false⟩
  else some ⟨negative, Nat.pow 2 52 + f, (e : Int) - 1075, f == 0 && e > 1⟩

namespace Binary

/-- Numerator and denominator of the magnitude. -/
def ratio (x : Binary) : Nat × Nat :=
  (x.mantissa * Nat.pow 2 x.exponent.toNat, Nat.pow 2 (-x.exponent).toNat)

def isWhole (x : Binary) : Bool :=
  x.ratio.1 % x.ratio.2 == 0

/-- The integer part, towards zero. -/
def truncate (x : Binary) : Int :=
  let n : Int := x.ratio.1 / x.ratio.2
  if x.negative then -n else n

end Binary

/-- The bounds of signed 64-bit integers. -/
def int64Min : Int := -9223372036854775808

def int64Max : Int := 9223372036854775807

def inInt64 (i : Int) : Bool :=
  int64Min ≤ i && i ≤ int64Max

/-- The nearest signed 64-bit integer. -/
def clampInt64 (i : Int) : Int :=
  max int64Min (min int64Max i)

/-- The bound of unsigned 64-bit integers. -/
def nat64Max : Nat := 18446744073709551615

/-- A whole double as a signed 64-bit integer, clamped to the range. -/
def wholeInt64? (x : Float) : Option Int := do
  let b ← Binary.ofFloat? x
  if b.isWhole then some (clampInt64 b.truncate) else none

/-- The double nearest to an integer. -/
def floatOfInt (i : Int) : Float :=
  let magnitude := Float.ofScientific i.natAbs false 0
  if i < 0 then -magnitude else magnitude

end ApiLint.Number
