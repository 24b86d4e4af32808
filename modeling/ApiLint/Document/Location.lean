import ApiLint.Text.Blank

/-!
# Locations

The address of a node as the steps that lead to it from the root. A location is written in two
ways: as a path in bracket form, `$.paths['/pets'].get`, and as a JSON pointer,
`#/paths/~1pets/get`.
-/

set_option autoImplicit false

namespace ApiLint

/-- One step from a node to a child. -/
inductive Segment where
  /-- A field whose name the specification fixes. -/
  | field (name : String)
  /-- An entry of a map with free names. -/
  | key (name : String)
  | index (position : Nat)
  deriving Repr, DecidableEq

namespace Segment

/-- The text that addresses the step: a name, or the digits of a position. -/
def text : Segment → String
  | field name | key name => name
  | index position => toString position

def escapeQuote (c : Char) : List Char :=
  if c == '\x27' then ['\\', '\x27'] else [c]

def path : Segment → List Char
  | field name => '.' :: name.toList
  | key name => '[' :: '\x27' :: name.toList.flatMap escapeQuote ++ ['\x27', ']']
  | index position => '[' :: Nat.toDigits 10 position ++ [']']

/-- A tilde is written `~0`, a slash `~1`. -/
def escapePointer (c : Char) : List Char :=
  if c == '~' then ['~', '0'] else if c == '/' then ['~', '1'] else [c]

def pointer (s : Segment) : List Char :=
  '/' :: s.text.toList.flatMap escapePointer

end Segment

structure Location where
  segments : List Segment := []
  deriving Repr, DecidableEq

namespace Location

def root : Location := {}

def child (l : Location) (s : Segment) : Location :=
  ⟨l.segments ++ [s]⟩

def field (l : Location) (name : String) : Location := l.child (.field name)

def key (l : Location) (name : String) : Location := l.child (.key name)

def index (l : Location) (position : Nat) : Location := l.child (.index position)

def isRoot (l : Location) : Bool := l.segments.isEmpty

def path (l : Location) : String :=
  String.ofList ('$' :: l.segments.flatMap Segment.path)

def pointer (l : Location) : String :=
  String.ofList ('#' :: l.segments.flatMap Segment.pointer)

/-- `base` is the location itself or one above it. -/
def isWithin (l base : Location) : Bool :=
  base.segments.isPrefixOf l.segments

/-- The location with `base` at its front replaced; nothing if `base` is not there. -/
def rebased? (l base replacement : Location) : Option Location :=
  (base.segments.isPrefixOf? l.segments).map fun rest => ⟨replacement.segments ++ rest⟩

end Location

end ApiLint
