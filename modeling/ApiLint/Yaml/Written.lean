import ApiLint.Yaml.Grammar

/-!
# Trees as written

A tree that keeps what was written: the text, the style and the tag of every scalar, and the uses
of anchors in their places. `WrittenDocument.ofSource?` reads a text that holds one document, or
none.
-/

set_option autoImplicit false

namespace ApiLint.Yaml

inductive Written where
  | scalar (text : String) (style : ScalarStyle) (tag : Option Tag)
  | sequence (items : List Written) (tag : Option Tag)
  | mapping (entries : List (Written × Written)) (tag : Option Tag)
  | anchorUse (anchor : Nat)
  deriving Inhabited

namespace Written

/-- Nothing stands in this place. -/
def isBlank : Written → Bool
  | scalar text style _ => text.isEmpty && style == .plain
  | _ => false

end Written

/-- A document; its root is missing if the text holds nothing. -/
structure WrittenDocument where
  root : Option Written := none
  /-- The nodes with anchors. -/
  anchors : List (Nat × Written) := []
  /-- The number of scalars, anchor uses and ends of collections. -/
  size : Nat := 0

/-- A collection whose end has not been met; its nodes latest first. -/
structure OpenCollection where
  nodes : List Written := []
  anchor : Nat
  close : List Written → Written

namespace WrittenDocument

/-- Every second node belongs to the one before it. -/
def pairs : List Written → List (Written × Written)
  | key :: value :: rest => (key, value) :: pairs rest
  | _ => []

/-- A document in the making. -/
structure Draft where
  document : WrittenDocument := {}
  stack : List OpenCollection := []

namespace Draft

/-- Puts a completed node in its place. -/
def add (b : Draft) (anchor : Nat) (node : Written) : Draft :=
  let anchors := if anchor > 0 then (anchor, node) :: b.document.anchors else b.document.anchors
  match b.stack with
  | [] => { b with document := { b.document with root := some node, anchors } }
  | inner :: outer =>
    { document := { b.document with anchors }
      stack := { inner with nodes := node :: inner.nodes } :: outer }

def feed (b : Draft) (e : Event) : Draft :=
  let b := { b with document := { b.document with size := b.document.size + 1 } }
  match e.kind with
  | .scalar text style anchor tag => b.add anchor (.scalar text style tag)
  | .anchorUse anchor => b.add 0 (.anchorUse anchor)
  | .sequenceStart anchor tag =>
    { b with stack := { anchor, close := fun nodes => .sequence nodes tag } :: b.stack }
  | .mappingStart anchor tag =>
    { b with stack := { anchor, close := fun nodes => .mapping (pairs nodes) tag } :: b.stack }
  | .sequenceEnd | .mappingEnd =>
    match b.stack with
    | [] => b
    | inner :: outer => { b with stack := outer }.add inner.anchor (inner.close inner.nodes.reverse)

end Draft

def ofEvents (events : List Event) : WrittenDocument :=
  (events.foldl Draft.feed {}).document

/-- The document of a text, which must be the only one. -/
def ofSource? (source : String) : Option WrittenDocument :=
  (soleDocumentEvents? source).map ofEvents

/-- The node that is meant: of an anchor use, the node with the anchor. -/
def meaning? (d : WrittenDocument) : Written → Option Written
  | .anchorUse anchor => d.anchors.lookup anchor
  | node => some node

end WrittenDocument

end ApiLint.Yaml
