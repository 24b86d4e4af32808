import ApiLint.Number.Decimal

/-!
# Exact ratios

Numbers of a document as ratios of integers, so that they are compared and divided without
rounding.
-/

set_option autoImplicit false

namespace ApiLint.Number

structure Ratio where
  num : Int
  den : Nat
  deriving Repr, DecidableEq

namespace Ratio

def ofInt (i : Int) : Ratio := ⟨i, 1⟩

def withSign (negative : Bool) (num den : Nat) : Ratio :=
  ⟨if negative then -(num : Int) else num, den⟩

/-- The exact value of a finite double. -/
def ofFloat? (x : Float) : Option Ratio := do
  let b ← Binary.ofFloat? x
  return withSign b.negative b.ratio.1 b.ratio.2

/-- The value of the shortest decimal that identifies a finite double. -/
def ofShortest? (x : Float) : Option Ratio := do
  let b ← Binary.ofFloat? x
  let d := b.shortest .toEven
  return withSign b.negative (d.digits * Nat.pow 10 d.exponent.toNat)
    (Nat.pow 10 (-d.exponent).toNat)

def lt (a b : Ratio) : Bool := a.num * b.den < b.num * a.den

def le (a b : Ratio) : Bool := a.num * b.den ≤ b.num * a.den

def same (a b : Ratio) : Bool := a.num * b.den == b.num * a.den

def isWhole (a : Ratio) : Bool := a.num % a.den == 0

/-- `a` is an integer times `b`, which is not zero. -/
def isMultipleOf (a b : Ratio) : Bool :=
  b.num != 0 && (a.num * b.den) % (b.num * a.den) == 0

end Ratio

end ApiLint.Number
