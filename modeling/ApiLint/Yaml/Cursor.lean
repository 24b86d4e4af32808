import ApiLint.Yaml.Fault
import ApiLint.Yaml.Token

/-!
# Reading positions

A cursor is the text still to be read and the position reached. Every step drops characters from
the front and moves the position accordingly: characters move the column, line breaks the line,
and a carriage return followed by a line feed is one break.
-/

set_option autoImplicit false

namespace ApiLint.Yaml

open CharClass

structure Cursor where
  rest : List Char
  position : Position := {}
  /-- Nothing but white space has been read since the last line break. -/
  atLineStart : Bool := true
  /-- More than the characters of the whole text, so that no loop over what is left of it takes as
  many steps. -/
  bound : Nat
  deriving Inhabited

/-- What a scanning step returns. -/
abbrev Scan (α : Type) := Except SyntaxFault α

def fail {α : Type} (position : Position) (cause : SyntaxCause) : Scan α :=
  .error ⟨cause, position⟩

namespace Cursor

/-- At the start of a text. -/
def ofText (text : String) : Cursor where
  rest := text.toList
  bound := text.length + 1

def head (c : Cursor) : Char :=
  c.rest.headD endOfText

def peek (c : Cursor) (n : Nat) : Char :=
  c.rest.getD n endOfText

def column (c : Cursor) : Nat :=
  c.position.column

/-- Reads `n` characters of one line. -/
def move (c : Cursor) (n : Nat) : Cursor :=
  { c with
    rest := c.rest.drop n
    position :=
      { c.position with index := c.position.index + n, column := c.position.column + n } }

/-- Reads `n` characters of content. -/
def advance (c : Cursor) (n : Nat) : Cursor :=
  { c.move n with atLineStart := false }

/-- Reads a line break; elsewhere stays. -/
def newline (c : Cursor) : Cursor :=
  let past (n : Nat) (rest : List Char) : Cursor :=
    { c with
      rest, atLineStart := true
      position := ⟨c.position.index + n, c.position.line + 1, 0⟩ }
  match c.rest with
  | '\r' :: '\n' :: rest => past 2 rest
  | '\n' :: rest => past 1 rest
  | '\r' :: rest => past 1 rest
  | _ => c

/-- Reads the longest run of content characters that satisfy `p`. -/
def takeContent (p : Char → Bool) (c : Cursor) : List Char × Cursor :=
  let run := c.rest.takeWhile p
  (run, if run.isEmpty then c else c.advance run.length)

/-- Reads the longest run of white space that satisfies `p`. -/
def skipBlanks (p : Char → Bool) (c : Cursor) : Cursor :=
  c.move (c.rest.takeWhile p).length

/-- Reads up to the end of the line. -/
def skipLine (c : Cursor) : Cursor :=
  (c.takeContent (fun ch => !isBreakOrEnd ch)).2

/-- `---` or `...` followed by a gap. -/
def isMarker (c : Cursor) (dash : Char) : Bool :=
  c.head == dash && c.peek 1 == dash && c.peek 2 == dash && isGap (c.peek 3)

def isDocumentStart (c : Cursor) : Bool := c.isMarker '-'

def isDocumentEnd (c : Cursor) : Bool := c.isMarker '.'

def isDocumentMarker (c : Cursor) : Bool :=
  c.column == 0 && (c.isDocumentStart || c.isDocumentEnd)

end Cursor

/-! ## Gaps within a line -/

/-- What stood between a token and the rest of its line. -/
structure LineGap where
  cursor : Cursor
  tab : Bool
  space : Bool

/-- Reads blanks and a comment. Tabs count as blanks if `tabs`. A comment needs a blank before
it. -/
def skipLineGap (tabs : Bool) (c : Cursor) : Scan LineGap :=
  let run := c.rest.takeWhile fun ch => ch == ' ' || (tabs && ch == '\t')
  let after := c.move run.length
  let tab := run.contains '\t'
  let space := run.contains ' '
  if after.head != '#' then .ok ⟨after, tab, space⟩
  else if tab || space then .ok ⟨after.skipLine, tab, space⟩
  else fail after.position .commentWithoutBlank

/-- Reads blanks and a comment and returns where they end. -/
def skipToEndOfLine (c : Cursor) : Scan Cursor :=
  return (← skipLineGap true c).cursor

end ApiLint.Yaml
