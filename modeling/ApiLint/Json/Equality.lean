import ApiLint.Json.Value
import ApiLint.Number.Ratio

/-!
# Equality of JSON values

Numbers are equal if their values are, whether they are written as integers or not.
-/

set_option autoImplicit false

namespace ApiLint.Json

open Number (Ratio)

/-- The exact value of a number. -/
def ratio? : Json → Option Ratio
  | .int i => some (Ratio.ofInt i)
  | .float x => Ratio.ofFloat? x
  | _ => none

mutual

def same : Json → Json → Bool
  | .null, .null => true
  | .bool a, .bool b => a == b
  | .str a, .str b => a == b
  | .arr a, .arr b => sameItems a b
  | .obj a, .obj b => sameMembers a b
  | a, b =>
    match ratio? a, ratio? b with
    | some x, some y => x.same y
    | _, _ => false

def sameItems : List Json → List Json → Bool
  | [], [] => true
  | a :: as, b :: bs => same a b && sameItems as bs
  | _, _ => false

/-- Members are in the order of their keys, so that equal objects agree member by member. -/
def sameMembers : List (String × Json) → List (String × Json) → Bool
  | [], [] => true
  | (k, a) :: as, (l, b) :: bs => k == l && same a b && sameMembers as bs
  | _, _ => false

end

/-- No two items are equal. -/
def allDistinct : List Json → Bool
  | [] => true
  | item :: rest => !(rest.any (same item)) && allDistinct rest

end ApiLint.Json
