import ApiLint.Number.Binary

/-!
# Decimal text of doubles

`Binary.shortest` selects the decimal with the fewest digits that reads back to the same double,
and among those the nearest; it compares exactly, in natural numbers. `Layout` says how the
selected digits are written down, and `Layout.render` writes them.
-/

set_option autoImplicit false

namespace ApiLint.Number

/-- `digits · 10 ^ exponent`. -/
structure Decimal where
  digits : Nat
  exponent : Int
  deriving Repr, DecidableEq

/-- What happens when two decimals of the same length are equally near. -/
inductive Tie where
  | toEven
  | up
  deriving Repr, DecidableEq

/-- Compares `a · 10 ^ i` with `n · 2 ^ j`. -/
def compareScaled (a : Nat) (i : Int) (n : Nat) (j : Int) : Ordering :=
  compare (a * Nat.pow 10 i.toNat * Nat.pow 2 (-j).toNat)
    (n * Nat.pow 2 j.toNat * Nat.pow 10 (-i).toNat)

namespace Binary

/-- `d` lies among the reals that round to the magnitude of `x`: to nearest, ties to even. -/
def readsBack (x : Binary) (d : Decimal) : Bool :=
  let low := if x.narrowBelow then 4 * x.mantissa - 1 else 4 * x.mantissa - 2
  let high := 4 * x.mantissa + 2
  let closed := x.mantissa % 2 == 0
  let atLow := compareScaled d.digits d.exponent low (x.exponent - 2)
  let atHigh := compareScaled d.digits d.exponent high (x.exponent - 2)
  (atLow == .gt || (closed && atLow == .eq)) && (atHigh == .lt || (closed && atHigh == .eq))

/-- The least `k` with magnitude below `10 ^ k`. -/
def scale (x : Binary) : Int :=
  let guess := (((x.mantissa.log2 : Int) + x.exponent) * 30103).fdiv 100000
  let holds (k : Int) := compareScaled 1 k x.mantissa x.exponent == .gt
  (([-1, 0, 1, 2].map (guess + ·)).find? holds).getD (guess + 3)

/-- The neighbour of the magnitude on the grid of `10 ^ g` that reads back, the nearer of two. -/
def onGrid (x : Binary) (tie : Tie) (g : Int) : Option Decimal :=
  let num := x.mantissa * Nat.pow 2 x.exponent.toNat * Nat.pow 10 (-g).toNat
  let den := Nat.pow 2 (-x.exponent).toNat * Nat.pow 10 g.toNat
  let below := num / den
  let low : Decimal := ⟨below, g⟩
  let high : Decimal := ⟨below + 1, g⟩
  match x.readsBack low, x.readsBack high with
  | true, true =>
    match compare (2 * num) ((2 * below + 1) * den), tie with
    | .lt, _ => some low
    | .gt, _ => some high
    | .eq, .up => some high
    | .eq, .toEven => some (if below % 2 == 0 then low else high)
  | true, false => some low
  | false, true => some high
  | false, false => none

/-- The decimal with the fewest digits that reads back; the exact value if no grid has one. -/
def shortest (x : Binary) (tie : Tie) : Decimal :=
  let k := x.scale
  match (List.range 17).findSome? fun (n : Nat) => x.onGrid tie (k - (n + 1)) with
  | some d => d
  | none =>
    ⟨x.mantissa * Nat.pow 2 x.exponent.toNat * Nat.pow 5 (-x.exponent).toNat, min x.exponent 0⟩

end Binary

/-! ## Layout -/

/-- How selected digits are written. -/
structure Layout where
  /-- The exponents of the leading digit that are written without an exponent. -/
  isPositional : Int → Bool
  /-- Whole values end in `.0`. -/
  pointZero : Bool
  /-- Positive exponents carry a plus sign. -/
  plusSign : Bool
  tie : Tie

def natText (n : Nat) : List Char :=
  Nat.toDigits 10 n

/-- The digits without trailing zeros, and the number of zeros taken off. -/
def stripZeros (digits : List Char) : List Char × Nat :=
  let kept := (digits.reverse.dropWhile (· == '0')).reverse
  (kept, digits.length - kept.length)

namespace Layout

/-- Writes digits whose leading one has the given exponent. -/
def place (layout : Layout) (digits : List Char) (leading : Int) : List Char :=
  if layout.isPositional leading then
    if leading < 0 then
      ['0', '.'] ++ List.replicate (-leading - 1).toNat '0' ++ digits
    else
      let whole := leading.toNat + 1
      if digits.length ≤ whole then
        digits ++ List.replicate (whole - digits.length) '0' ++
          (if layout.pointZero then ['.', '0'] else [])
      else digits.take whole ++ '.' :: digits.drop whole
  else
    let mantissa := match digits with
      | [d] => [d]
      | d :: rest => d :: '.' :: rest
      | [] => ['0']
    let sign := if leading < 0 then ['-'] else if layout.plusSign then ['+'] else []
    mantissa ++ 'e' :: sign ++ natText leading.natAbs

def magnitude (layout : Layout) (x : Binary) : List Char :=
  if x.mantissa == 0 then
    if layout.pointZero then ['0', '.', '0'] else ['0']
  else
    let d := x.shortest layout.tie
    let (digits, zeros) := stripZeros (natText d.digits)
    layout.place digits (d.exponent + zeros + digits.length - 1)

/-- The text of a double: the sign, also that of zero, then the magnitude. -/
def render (layout : Layout) (x : Float) : String :=
  match Binary.ofFloat? x with
  | some b => String.ofList ((if b.negative then ['-'] else []) ++ layout.magnitude b)
  | none => if x.isNaN then "NaN" else if x < 0.0 then "-inf" else "inf"

end Layout

end ApiLint.Number
