/-!
# Patterns

Regular expressions as trees. A tree says which texts it matches and nothing about how a search
for them proceeds.
-/

set_option autoImplicit false

namespace ApiLint

/-- A set of characters, given by ranges of code points with both ends included. -/
structure CharSet where
  ranges : List (Nat × Nat)
  negated : Bool := false
  deriving Repr, DecidableEq

namespace CharSet

def contains (s : CharSet) (c : Char) : Bool :=
  s.ranges.any (fun (low, high) => low ≤ c.toNat && c.toNat ≤ high) != s.negated

def single (c : Char) : CharSet := ⟨[(c.toNat, c.toNat)], false⟩

/-- The ranges between the given ones; these are in ascending order and apart. -/
def gaps (start : Nat) : List (Nat × Nat) → List (Nat × Nat)
  | [] => [(start, 0x10FFFF)]
  | (low, high) :: rest =>
    (if start < low then [(start, low - 1)] else []) ++ gaps (high + 1) rest

def digits : List (Nat × Nat) := [(0x30, 0x39)]

/-- The characters of words: letters and digits of ASCII, and the underscore. -/
def word : List (Nat × Nat) := [(0x30, 0x39), (0x41, 0x5A), (0x5F, 0x5F), (0x61, 0x7A)]

def space : List (Nat × Nat) :=
  [(0x09, 0x0D), (0x20, 0x20), (0xA0, 0xA0), (0x1680, 0x1680), (0x2000, 0x200A),
   (0x2028, 0x2029), (0x202F, 0x202F), (0x205F, 0x205F), (0x3000, 0x3000), (0xFEFF, 0xFEFF)]

def lineTerminators : List (Nat × Nat) := [(0x0A, 0x0A), (0x0D, 0x0D), (0x2028, 0x2029)]

/-- Adds the other case of the ASCII letters in the ranges. -/
def foldCase (ranges : List (Nat × Nat)) : List (Nat × Nat) :=
  let shift (low high : Nat) (by_ : Int) (r : Nat × Nat) : List (Nat × Nat) :=
    let a := max low r.1
    let b := min high r.2
    if a ≤ b then [((a + by_ : Int).toNat, (b + by_ : Int).toNat)] else []
  ranges ++ ranges.flatMap (shift 0x41 0x5A 32) ++ ranges.flatMap (shift 0x61 0x7A (-32))

end CharSet

inductive Pattern where
  | empty
  | chars (set : CharSet)
  | seq (first second : Pattern)
  | alt (first second : Pattern)
  /-- So many rounds of the body; without an upper bound if there is none. -/
  | repeated (least : Nat) (most : Option Nat) (body : Pattern)
  | group (index : Nat) (body : Pattern)
  /-- The text that the groups have captured. -/
  | backreference (groups : List Nat)
  /-- Holds where the body matches, or does not match, after or before the place. -/
  | look (ahead : Bool) (negated : Bool) (body : Pattern)
  | start (eachLine : Bool)
  | stop (eachLine : Bool)
  | wordBoundary (negated : Bool)
  deriving Repr, DecidableEq

end ApiLint
