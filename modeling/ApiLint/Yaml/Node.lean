import ApiLint.Json.Printer
import ApiLint.Yaml.Position
import ApiLint.Yaml.Scalar

/-!
# Document trees

A node is a scalar, a sequence or a mapping together with the part of the text it covers.
Mappings keep their entries in the order written; keys are nodes themselves. `Node.get?` finds an
entry by a textual key, `Node.keyText` is the text that any node has as a key, and `Node.toJson`
is the JSON value of a tree.
-/

set_option autoImplicit false

namespace ApiLint.Yaml

inductive Node where
  | scalar (value : Scalar) (span : Span)
  | sequence (items : List Node) (span : Span)
  | mapping (entries : List (Node × Node)) (span : Span)
  deriving Inhabited

namespace Node

def span : Node → Span
  | scalar _ s | sequence _ s | mapping _ s => s

def mark (n : Node) : Mark := n.span.start

def stop (n : Node) : Mark := n.span.stop

/-! ## Views -/

def str? : Node → Option String
  | scalar (.text s) _ => some s
  | _ => none

def bool? : Node → Option Bool
  | scalar (.bool b) _ => some b
  | _ => none

/-- An integer, or a whole double clamped to the signed 64-bit range. -/
def int? : Node → Option Int
  | scalar (.int i) _ => some i
  | scalar (.float x) _ => Number.wholeInt64? x
  | _ => none

def float? : Node → Option Float
  | scalar (.int i) _ => some (Number.floatOfInt i)
  | scalar (.float x) _ => some x
  | _ => none

def isNull : Node → Bool
  | scalar .null _ => true
  | _ => false

def entries? : Node → Option (List (Node × Node))
  | mapping entries _ => some entries
  | _ => none

def isMapping (n : Node) : Bool := n.entries?.isSome

def items? : Node → Option (List Node)
  | sequence items _ => some items
  | _ => none

/-- The first entry whose key is the text `key`. -/
def entry? (n : Node) (key : String) : Option (Node × Node) :=
  (n.entries?.getD []).find? fun e => e.1.str? == some key

/-- The value of the first entry whose key is the text `key`. -/
def get? (n : Node) (key : String) : Option Node :=
  (n.entry? key).map (·.2)

def hasKey (n : Node) (key : String) : Bool :=
  (n.entry? key).isSome

/-! ## JSON -/

/-- Doubles used as keys are written without an exponent. -/
def keyLayout : Number.Layout where
  isPositional _ := true
  pointZero := false
  plusSign := false
  tie := .up

/-- Deeper trees are cut off: below this depth everything is null. -/
def maxJsonDepth : Nat := 500

def scalarJson : Scalar → Json
  | .null => .null
  | .bool b => .bool b
  | .int i => .int i
  | .float x => if x.isFinite then .float x else .null
  | .text s => .str s

def scalarKey : Scalar → String
  | .null => "null"
  | .bool b => if b then "true" else "false"
  | .int i => toString i
  | .float x => keyLayout.render x
  | .text s => s

mutual

/-- The value of a node `depth` levels below the root. A key that is a collection is the root of
a value of its own. -/
def toJsonAt (depth : Nat) : Node → Json
  | scalar v _ => if depth > maxJsonDepth then .null else scalarJson v
  | sequence items _ =>
    if depth > maxJsonDepth then .null else .arr (itemsAt (depth + 1) items)
  | mapping entries _ =>
    if depth > maxJsonDepth then .null else .obj (membersAt (depth + 1) entries [])

def itemsAt (depth : Nat) : List Node → List Json
  | [] => []
  | item :: rest => toJsonAt depth item :: itemsAt depth rest

/-- Writes the entries to the members collected so far. -/
def membersAt (depth : Nat) :
    List (Node × Node) → List (String × Json) → List (String × Json)
  | [], members => members
  | (scalar v _, value) :: rest, members =>
    membersAt depth rest (Keyed.insert (scalarKey v) (toJsonAt depth value) members)
  | (key, value) :: rest, members =>
    membersAt depth rest
      (Keyed.insert (toJsonAt 0 key).compact (toJsonAt depth value) members)

end

/-- The JSON value of a tree. Of entries with one key text the last one stays. -/
def toJson (n : Node) : Json :=
  toJsonAt 0 n

/-- The text of a node as a key: of a scalar its plain text, of a collection its JSON. -/
def keyText : Node → String
  | scalar v _ => scalarKey v
  | n => n.toJson.compact

/-- The entries of a mapping under the texts of their keys. -/
def fields (n : Node) : List (String × Node × Node) :=
  (n.entries?.getD []).map fun e => (e.1.keyText, e.1, e.2)

/-! ## Size -/

mutual

/-- The number of nodes of a tree. -/
def size : Node → Nat
  | scalar _ _ => 1
  | sequence items _ => sizeItems items + 1
  | mapping entries _ => sizeEntries entries + 1

def sizeItems : List Node → Nat
  | [] => 0
  | item :: rest => size item + sizeItems rest

def sizeEntries : List (Node × Node) → Nat
  | [] => 0
  | (key, value) :: rest => size key + size value + sizeEntries rest

end

end Node

end ApiLint.Yaml
