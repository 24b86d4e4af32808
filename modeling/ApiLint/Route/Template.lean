import ApiLint.Document.Basic

/-!
# Ambiguous paths

Two URL templates are ambiguous if a URL matches both. They are compared segment by segment: a
variable stands for a literal that its declared type can take, and for another variable unless
their declared types are incompatible. A pair in which each template has a variable where the
other has a literal is not counted.
-/

set_option autoImplicit false

namespace ApiLint.Route

inductive Part where
  | literal (text : String)
  | variable_ (name : String)
  deriving Repr, DecidableEq

namespace Part

/-- `{name}` is a variable if the name is not empty and holds no braces. -/
def ofChars (segment : List Char) : Part :=
  let name := (segment.drop 1).dropLast
  if segment.length > 2 ∧ segment.head? = some '\x7b' ∧ segment.getLast? = some '\x7d' ∧
      name.all fun c => c != '\x7b' && c != '\x7d' then
    .variable_ (String.ofList name)
  else .literal (String.ofList segment)

end Part

/-- The segments of a template; what stands before the first slash does not count. -/
def parts (template : String) : List Part :=
  ((Text.splitAt (· == '/') template.toList).drop 1).map Part.ofChars

/-- Declared types of variables by name. -/
abbrev Types := List (String × String)

def dropMinus : List Char → List Char
  | '-' :: rest => rest
  | s => s

/-- A literal can be a value of the declared type; of types that restrict no text it always can. -/
def literalFits (literal : String) (declared : Option String) : Bool :=
  let digits := dropMinus literal.toList
  match declared with
  | some "integer" => !digits.isEmpty && digits.all Char.isDigit
  | some "number" =>
    digits.any Char.isDigit && (digits.all fun c => c.isDigit || c == '.') &&
      digits.count '.' ≤ 1
  | some "boolean" => literal == "true" || literal == "false"
  | _ => true

def isNumeric (type : String) : Bool := type == "integer" || type == "number"

/-- A value can have both types. -/
def compatible (a b : String) : Bool := a == b || (isNumeric a && isNumeric b)

/-- Undeclared types are compatible with all. -/
def declaredCompatible : Option String → Option String → Bool
  | some a, some b => compatible a b
  | _, _ => true

/-- Which of two templates holds a variable facing a literal of the other. -/
inductive Side where
  | first
  | second
  deriving Repr, DecidableEq

/-- Compares two parts: nothing if they cannot match, else the side of a variable that faces a
literal. -/
def comparePart (a : Part) (aTypes : Types) (b : Part) (bTypes : Types) : Option (Option Side) :=
  match a, b with
  | .literal x, .literal y => if x == y then some none else none
  | .variable_ x, .variable_ y =>
    if declaredCompatible (aTypes.lookup x) (bTypes.lookup y) then some none else none
  | .variable_ x, .literal y =>
    if literalFits y (aTypes.lookup x) then some (some .first) else none
  | .literal x, .variable_ y =>
    if literalFits x (bTypes.lookup y) then some (some .second) else none

/-- The sides of all variables that face literals, if the parts match pairwise. -/
def compareParts (aTypes bTypes : Types) : List Part → List Part → Option (List Side)
  | [], [] => some []
  | a :: as, b :: bs => do
    let side ← comparePart a aTypes b bTypes
    let sides ← compareParts aTypes bTypes as bs
    return side.toList ++ sides
  | _, _ => none

/-- A URL can match both templates. -/
def ambiguous (a : String) (aTypes : Types) (b : String) (bTypes : Types) : Bool :=
  match compareParts aTypes bTypes (parts a) (parts b) with
  | some sides => !(sides.contains .first && sides.contains .second)
  | none => false

/-! ## Path items -/

/-- The type a parameter declares for a variable: the first of its schema's. -/
def variableType? (d : Document) (p : Parameter) : Option String := do
  let slot ← p.schema
  (← d.slotSchema? slot).types.head?

/-- The types of the variables of a path item. Its own parameters come before those of its
operations, and the first with a type counts. -/
def types (d : Document) (item : PathItem) : Types :=
  let declared := item.parameters ++ item.operations.flatMap (·.parameters)
  declared.foldl (fun types id =>
    match d.parameter? id with
    | none => types
    | some p =>
      if p.place == some "path" && (types.lookup p.name).isNone then
        match variableType? d p with
        | some type => types ++ [(p.name, type)]
        | none => types
      else types) []

/-- All ambiguous pairs of path items, the earlier one first. -/
def ambiguousPairs (d : Document) : List (Nat × Nat) :=
  let items := d.paths.toList.map fun item => (item.template, types d item)
  items.zipIdx.flatMap fun ((later, laterTypes), j) =>
    (items.take j).zipIdx.filterMap fun ((earlier, earlierTypes), i) =>
      if ambiguous earlier earlierTypes later laterTypes then some (i, j) else none

end ApiLint.Route
