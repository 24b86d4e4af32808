import ApiLint.Yaml.Event
import ApiLint.Yaml.Grammar
import ApiLint.Yaml.Node

/-!
# From events to trees

`Builder.feed` takes one event at a time and keeps the open collections on a stack. A completed
node is remembered under its anchor; the use of an anchor copies the node remembered last, until
the copies exceed a budget of nodes. `Node.ofSource` reads a text to its tree.
-/

set_option autoImplicit false

namespace ApiLint.Yaml

/-- A collection whose end has not been met; its children latest first. -/
inductive Frame where
  | sequence (items : List Node) (start : Mark) (anchor : Nat)
  | mapping (entries : List (Node × Node)) (key : Option Node) (start : Mark) (anchor : Nat)
  deriving Inhabited

structure Builder where
  stack : List Frame := []
  /-- The completed nodes with anchors and their sizes, latest first. -/
  anchors : List (Nat × Node × Nat) := []
  /-- How many nodes have been copied. -/
  copied : Nat := 0
  /-- The use of an anchor that the budget did not cover. -/
  exhausted : Option Mark := none
  root : Option Node := none

namespace Builder

/-- How many nodes a document may copy through its anchors. -/
def copyBudget : Nat := 100000

/-- Adds a completed node to the innermost open collection. -/
def add (b : Builder) (n : Node) : Builder :=
  match b.stack with
  | [] => { b with root := b.root <|> some n }
  | .sequence items start anchor :: outer =>
    { b with stack := .sequence (n :: items) start anchor :: outer }
  | .mapping entries none start anchor :: outer =>
    { b with stack := .mapping entries (some n) start anchor :: outer }
  | .mapping entries (some key) start anchor :: outer =>
    { b with stack := .mapping ((key, n) :: entries) none start anchor :: outer }

def remember (b : Builder) (anchor : Nat) (n : Node) : Builder :=
  if anchor > 0 then { b with anchors := (anchor, n, n.size) :: b.anchors } else b

/-- The node under an anchor; null if there is none or the budget is spent. -/
def copy (b : Builder) (anchor : Nat) (mark : Mark) : Node × Builder :=
  let null := Node.scalar .null ⟨mark, mark⟩
  if b.exhausted.isSome then (null, b)
  else
    match b.anchors.lookup anchor with
    | none => (null, b)
    | some (n, size) =>
      if b.copied + size > copyBudget then (null, { b with exhausted := some mark })
      else (n, { b with copied := b.copied + size })

/-- Tags that make a scalar text, whatever it looks like. -/
def forcesText (tag : Option Tag) : Bool :=
  match tag with
  | some t => ["str", "timestamp", "binary"].contains t.suffix
  | none => false

/-- Scalars end after as many columns as their value has characters. -/
def scalarNode (text : String) (style : ScalarStyle) (tag : Option Tag) (mark : Mark) : Node :=
  let value := if forcesText tag || style != .plain then Scalar.text text else Scalar.ofPlain text
  .scalar value ⟨mark, ⟨mark.line, mark.column + text.length⟩⟩

/-- The completed collection and its anchor. -/
def closeFrame (stop : Mark) : Frame → Node × Nat
  | .sequence items start anchor => (.sequence items.reverse ⟨start, stop⟩, anchor)
  | .mapping entries _ start anchor => (.mapping entries.reverse ⟨start, stop⟩, anchor)

def feed (b : Builder) (e : Event) : Builder :=
  match e.kind with
  | .scalar text style anchor tag =>
    let n := scalarNode text style tag e.mark
    (b.remember anchor n).add n
  | .sequenceStart anchor _ => { b with stack := .sequence [] e.mark anchor :: b.stack }
  | .mappingStart anchor _ => { b with stack := .mapping [] none e.mark anchor :: b.stack }
  | .sequenceEnd | .mappingEnd =>
    match b.stack with
    | [] => b
    | frame :: outer =>
      let (n, anchor) := closeFrame e.mark frame
      ({ b with stack := outer }.remember anchor n).add n
  | .anchorUse anchor =>
    let (n, b) := b.copy anchor e.mark
    b.add n

def feedAll (b : Builder) (events : List Event) : Builder :=
  events.foldl feed b

end Builder

/-- Why a text has no tree. -/
inductive ReadFault where
  | syntaxFault (fault : SyntaxFault)
  | copyLimit (mark : Mark)
  | empty

/-- The tree of the first document of a text. -/
def Node.ofSource (source : String) : Except ReadFault Node := do
  let events ← (documentEvents source).mapError .syntaxFault
  let built := Builder.feedAll {} events
  match built.exhausted, built.root with
  | some mark, _ => throw (.copyLimit mark)
  | none, none => throw .empty
  | none, some root => return root

end ApiLint.Yaml
