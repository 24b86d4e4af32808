import ApiLint.Json.Printer
import ApiLint.Number.Reading
import ApiLint.Yaml.Written

/-!
# Configuration values

Values as they stand in a ruleset. Plain scalars are read by the words for null, the booleans,
infinity and not-a-number, integers in four bases, decimals, and everything else as text; a
standard tag settles the kind, any other local tag is refused. Natural numbers and integers
written with a minus are told apart.
-/

set_option autoImplicit false

namespace ApiLint

open Yaml (Written WrittenDocument ScalarStyle Tag)

inductive ConfigValue where
  | null
  | bool (value : Bool)
  | natural (value : Nat)
  | integer (value : Int)
  | float (value : Float)
  | text (value : String)
  | list (items : List ConfigValue)
  | table (entries : List (ConfigValue × ConfigValue))
  deriving Inhabited

namespace ConfigValue

/-! ## Scalars -/

def ofNullWord? (text : String) : Option ConfigValue :=
  if ["null", "Null", "NULL", "~"].contains text then some null else none

def ofBoolWord? (text : String) : Option ConfigValue :=
  if ["true", "True", "TRUE"].contains text then some (bool true)
  else if ["false", "False", "FALSE"].contains text then some (bool false)
  else none

/-- The digits of an integer in base two, eight or sixteen, and the base. -/
def splitBase? : List Char → Option (Nat × List Char)
  | '0' :: 'x' :: digits => some (16, digits)
  | '0' :: 'o' :: digits => some (8, digits)
  | '0' :: 'b' :: digits => some (2, digits)
  | _ => none

/-- More digits than one that begin with a zero are no number. -/
def isPadded (text : List Char) : Bool :=
  match (Number.splitSign text).2 with
  | '0' :: rest => !rest.isEmpty && rest.all Char.isDigit
  | _ => false

/-- An integer of any size. The first part says whether it has a minus. -/
def readInteger? (text : List Char) : Option (Bool × Nat) :=
  let (negative, body) := Number.splitSign text
  let based := (splitBase? body).bind fun (base, digits) => Number.readNat? base digits
  (based <|> (if isPadded text then none else Number.readNat? 10 body)).map (negative, ·)

/-- What an integer comes to: a value, or nothing if it needs more than 64 bits. Those that need
more than 128 bits do not count as integers. -/
def ofInteger? (negative : Bool) (magnitude : Nat) : Option (Option ConfigValue) :=
  if negative then
    if magnitude ≤ Nat.pow 2 63 then some (some (integer (-(magnitude : Int))))
    else if magnitude ≤ Nat.pow 2 127 then some none
    else none
  else if magnitude < Nat.pow 2 64 then some (some (natural magnitude))
  else if magnitude < Nat.pow 2 128 then some none
  else none

def ofIntegerText? (text : List Char) : Option (Option ConfigValue) :=
  (readInteger? text).bind fun (negative, magnitude) => ofInteger? negative magnitude

def ofFloatText? (text : String) : Option ConfigValue :=
  if [".inf", ".Inf", ".INF", "+.inf", "+.Inf", "+.INF"].contains text then
    some (float (1.0 / 0.0))
  else if ["-.inf", "-.Inf", "-.INF"].contains text then some (float (-1.0 / 0.0))
  else if [".nan", ".NaN", ".NAN"].contains text then some (float (0.0 / 0.0))
  else
    match Number.readFloat? text.toList with
    | some x => if x.isFinite then some (float x) else none
    | none => none

/-- The value of a plain scalar without a tag. -/
def ofPlain? (s : String) : Option ConfigValue :=
  if s.isEmpty then some null
  else
    match ofNullWord? s <|> ofBoolWord? s with
    | some value => some value
    | none =>
      match ofIntegerText? s.toList with
      | some value => value
      | none =>
        let number := if isPadded s.toList then none else ofFloatText? s
        some (number.getD (text s))

/-- The value of a scalar; nothing if its tag is local or does not fit. -/
def ofScalar? (s : String) (style : ScalarStyle) (tag : Option Tag) : Option ConfigValue :=
  match tag.map Tag.name with
  | none => if style == .plain then ofPlain? s else some (text s)
  | some "tag:yaml.org,2002:bool" => ofBoolWord? s
  | some "tag:yaml.org,2002:int" => (ofIntegerText? s.toList).join
  | some "tag:yaml.org,2002:float" => ofFloatText? s
  | some "tag:yaml.org,2002:null" => ofNullWord? s
  | some name => if name.startsWith "!" then none else some (text s)

/-! ## Trees -/

def isLocal (tag : Option Tag) : Bool :=
  tag.any (·.name.startsWith "!")

/-- A computation that may fail and may follow so many more anchors. -/
abbrev Following (α : Type) := StateT Nat Option α

/-- The node that is meant, at the cost of one step if it is an anchor use. -/
def follow (d : WrittenDocument) (node : Written) : Following Written :=
  match node with
  | .anchorUse anchor => fun steps =>
    match steps, d.anchors.lookup anchor with
    | steps + 1, some target => some (target, steps)
    | _, _ => none
  | node => pure node

/-- The value of a tree with collections at most so deep. -/
def ofWritten (d : WrittenDocument) : Nat → Written → Following ConfigValue
  | depth, node => do
    match ← follow d node with
    | .scalar s style tag =>
      match ofScalar? s style tag with
      | some value => return value
      | none => failure
    | .sequence items tag =>
      match depth, isLocal tag with
      | depth + 1, false => return list (← items.mapM (ofWritten d depth))
      | _, _ => failure
    | .mapping entries tag =>
      match depth, isLocal tag with
      | depth + 1, false =>
        return table (← entries.mapM fun (key, value) => do
          return (← ofWritten d depth key, ← ofWritten d depth value))
      | _, _ => failure
    | .anchorUse _ => failure

/-! ## Equality -/

/-- Two doubles are the same key. -/
def sameFloat (x y : Float) : Bool := x == y || (x.isNaN && y.isNaN)

mutual

/-- Two values are the same key. -/
def same : ConfigValue → ConfigValue → Bool
  | null, null => true
  | bool a, bool b => a == b
  | natural m, natural n => m == n
  | integer i, integer j => i == j
  | natural n, integer i | integer i, natural n => (n : Int) == i
  | float x, float y => sameFloat x y
  | text s, text t => s == t
  | list xs, list ys => sameItems xs ys
  | table xs, table ys => xs.length == ys.length && sameEntries xs ys
  | _, _ => false

def sameItems : List ConfigValue → List ConfigValue → Bool
  | [], [] => true
  | x :: xs, y :: ys => same x y && sameItems xs ys
  | _, _ => false

/-- Every entry has its like in the other table. -/
def sameEntries : List (ConfigValue × ConfigValue) → List (ConfigValue × ConfigValue) → Bool
  | [], _ => true
  | (key, value) :: rest, ys =>
    ys.any (fun (k, v) => same key k && same value v) && sameEntries rest ys

end

mutual

/-- No table in the value has a key twice. -/
def isUnambiguous : ConfigValue → Bool
  | list items => areUnambiguous items
  | table entries => haveDistinctKeys entries
  | _ => true

def areUnambiguous : List ConfigValue → Bool
  | [] => true
  | item :: rest => isUnambiguous item && areUnambiguous rest

def haveDistinctKeys : List (ConfigValue × ConfigValue) → Bool
  | [] => true
  | (key, value) :: rest =>
    isUnambiguous key && isUnambiguous value && !rest.any (fun (k, _) => same key k) &&
      haveDistinctKeys rest

end

/-! ## Options -/

/-- Numbers have the fewest digits that identify them; they are positional from `1e-5` to below
`1e16` and otherwise carry an exponent, with a sign only if it is negative. -/
def numberLayout : Number.Layout where
  isPositional e := -5 ≤ e && e < 16
  pointZero := true
  plusSign := false
  tie := .toEven

def floatText (x : Float) : String :=
  if x.isNaN then ".nan"
  else if x.isFinite then numberLayout.render x
  else if x < 0 then "-.inf"
  else ".inf"

/-- The text of a value as an option: texts, numbers and booleans have one. -/
def optionText? : ConfigValue → Option String
  | text s => some s
  | natural n => some (toString n)
  | integer i => some (toString i)
  | float x => some (floatText x)
  | bool b => some (if b then "true" else "false")
  | null | list _ | table _ => none

end ConfigValue

end ApiLint
