import ApiLint.Json.Value
import ApiLint.Number.Reading
import ApiLint.Text.Blank

/-!
# JSON pointers

A pointer names a part of a value by the keys and positions that lead to it, each behind a slash.
A tilde in a key is written `~0`, a slash `~1`. Besides reading at a pointer, a value can be
written at one: `Json.place` makes way for it where objects are missing.
-/

set_option autoImplicit false

namespace ApiLint

/-- Undoes the escapes of a key: `~1` first, then `~0`. -/
def unescapePointer : List Char → List Char
  | '~' :: '1' :: rest => '/' :: unescapePointer rest
  | '~' :: '0' :: rest => '~' :: unescapePointer rest
  | c :: rest => c :: unescapePointer rest
  | [] => []

/-- The texts of the steps of a pointer without its `#`. -/
def pointerTexts (pointer : String) : List String :=
  ((Text.splitAt (· == '/') pointer.toList).drop 1).map fun piece =>
    String.ofList (unescapePointer piece)

namespace Json

/-- A position: digits without a sign or a leading zero. -/
def position? (step : String) : Option Nat :=
  match step.toList with
  | ['0'] => some 0
  | '0' :: _ => none
  | digits => Number.readNat? 10 digits

/-- One step down: to the member of an object or the item of an array. -/
def child? (value : Json) (step : String) : Option Json :=
  match value with
  | .obj members => Keyed.find? step members
  | .arr items => do items[← position? step]?
  | _ => none

/-- The part of a value that steps lead to. -/
def descend? (value : Json) (steps : List String) : Option Json :=
  steps.foldlM child? value

/-- The part of a value that a pointer without its `#` names. -/
def pointer? (pointer : String) (value : Json) : Option Json :=
  if pointer.isEmpty then some value
  else if pointer.startsWith "/" then value.descend? (pointerTexts pointer)
  else none

/-! ## Writing -/

/-- A value as an object: items stand under their positions; scalars hold nothing. -/
def asMembers : Json → List (String × Json)
  | .obj members => members
  | .arr items => Keyed.ofList (items.zipIdx.map fun (item, i) => (toString i, item))
  | _ => []

/-- Writes a value where steps lead to. Objects are made on the way where there are none; what
stands in an array moves to an object with the same steps. -/
def place (part : Json) : List String → List (String × Json) → List (String × Json)
  | [], members => members
  | [step], members => Keyed.insert step part members
  | step :: next :: rest, members =>
    let inner := ((Keyed.find? step members).map asMembers).getD []
    Keyed.insert step (.obj (place part (next :: rest) inner)) members

/-! ## Size -/

mutual

/-- The number of values in a value. -/
def size : Json → Nat
  | .arr items => sizeItems items + 1
  | .obj members => sizeMembers members + 1
  | _ => 1

def sizeItems : List Json → Nat
  | [] => 0
  | item :: rest => size item + sizeItems rest

def sizeMembers : List (String × Json) → Nat
  | [] => 0
  | (_, value) :: rest => size value + sizeMembers rest

end

end Json

end ApiLint
