import ApiLint.Yaml.Cursor

/-!
# Scalars

Readers of the three written forms of a scalar: plain, quoted and block. Line breaks inside plain
and quoted scalars fold: the first one turns into a blank unless more follow, and those that
follow stand for themselves.
-/

set_option autoImplicit false

namespace ApiLint.Yaml

open CharClass

/-! ## Folding -/

/-- White space met between two runs of content, not yet written. -/
structure Pending where
  /-- Blanks before any line break, latest first. -/
  blanks : List Char := []
  /-- A line break that turns into a blank unless others follow. -/
  fold : Bool := false
  /-- Line breaks that stand for themselves. -/
  breaks : Nat := 0

/-- What the white space is written as, if a line break is among it. -/
def Pending.folded (p : Pending) : List Char :=
  if p.fold && p.breaks == 0 then [' '] else List.replicate p.breaks '\n'

/-! ## Plain scalars -/

/-- `c` before `next` may not be part of a plain scalar. -/
def endsPlain (inFlow : Bool) (c next : Char) : Bool :=
  if c == ':' && (isGap next || (inFlow && isFlow next)) then true
  else inFlow && isFlow c

/-- The longest run of plain characters without white space. -/
def plainRun (inFlow : Bool) : List Char → List Char
  | [] => []
  | c :: rest =>
    if isGap c || endsPlain inFlow c (rest.headD endOfText) then []
    else c :: plainRun inFlow rest

/-- White space after a run of plain content. Tabs may indent only lines without content. -/
def plainGap (indent : Int) (start : Position) :
    Nat → Cursor → Pending → Scan (Cursor × Pending)
  | 0, c, p => .ok (c, p)
  | fuel + 1, c, p =>
    if isBlank c.head then
      if !c.atLineStart then
        plainGap indent start fuel (c.move 1) { p with blanks := c.head :: p.blanks }
      else if (c.column : Int) < indent && c.head == '\t' then do
        let after ← skipToEndOfLine c
        if !isBreakOrEnd after.head then fail start .plainTab
        else plainGap indent start fuel after p
      else plainGap indent start fuel (c.move 1) p
    else if isBreak c.head then
      if c.atLineStart then plainGap indent start fuel c.newline { p with breaks := p.breaks + 1 }
      else plainGap indent start fuel c.newline { p with blanks := [], fold := true }
    else .ok (c, p)

/-- The rest of a plain scalar; `text` is what has been read, latest first. -/
def plainRest (inFlow : Bool) (indent : Int) (start : Position) :
    Nat → Cursor → Pending → List Char → Scan (List Char × Cursor)
  | 0, c, _, text => .ok (text, c)
  | fuel + 1, c, p, text =>
    if c.isDocumentMarker || c.head == '#' then .ok (text, c)
    else if inFlow && c.head == '-' && isFlow (c.peek 1) then fail c.position .plainDash
    else
      let run := plainRun inFlow c.rest
      let joined := if c.atLineStart then p.folded else p.blanks.reverse
      let (text, c, p) :=
        if run.isEmpty then (text, c, p)
        else (run.reverse ++ joined.reverse ++ text, c.advance run.length, {})
      if !isBlankOrBreak c.head then .ok (text, c)
      else do
        let (c, p) ← plainGap indent start c.bound c p
        if !inFlow && (c.column : Int) < indent then .ok (text, c)
        else plainRest inFlow indent start fuel c p text

/-- Reads a plain scalar that is to be indented by `indent` columns at least. -/
def plainScalar (inFlow : Bool) (indent : Int) (c : Cursor) : Scan (String × Cursor) := do
  if inFlow && (c.column : Int) < indent then fail c.position .plainFlowIndentation
  else
    let (text, after) ← plainRest inFlow indent c.position c.bound c {} []
    return (String.ofList text.reverse, after)

/-! ## Quoted scalars -/

/-- The characters that a backslash and a letter stand for. -/
def escapedChar? (c : Char) : Option Char :=
  match c with
  | '0' => some '\x00'
  | 'a' => some '\x07'
  | 'b' => some '\x08'
  | 't' | '\t' => some '\t'
  | 'n' => some '\n'
  | 'v' => some '\x0b'
  | 'f' => some '\x0c'
  | 'r' => some '\r'
  | 'e' => some '\x1b'
  | ' ' => some ' '
  | '/' => some '/'
  | '\\' => some '\\'
  | 'N' => some '\u0085'
  | '_' => some '\u00a0'
  | 'L' => some '\u2028'
  | 'P' => some '\u2029'
  | c => if c == '\x22' then some c else none

/-- How many hexadecimal digits follow a backslash and this letter. -/
def escapeLength? (c : Char) : Option Nat :=
  match c with
  | 'x' => some 2
  | 'u' => some 4
  | 'U' => some 8
  | _ => none

def hexValue (digits : List Char) : Nat :=
  digits.foldl (fun value c => value * 16 + ((if c.isDigit then c.toNat - 48
    else if 'a' ≤ c then c.toNat - 87 else c.toNat - 55))) 0

/-- The character with a code point, if there is one. -/
def charOfNat? (n : Nat) : Option Char :=
  if n.isValidChar then some (Char.ofNat n) else none

/-- Reads an escape sequence at its backslash. -/
def escapeSequence (start : Position) (c : Cursor) : Scan (Char × Cursor) :=
  match escapedChar? (c.peek 1), escapeLength? (c.peek 1) with
  | some ch, _ => .ok (ch, c.advance 2)
  | none, none => fail start .escapeUnknown
  | none, some n =>
    let digits := (c.rest.drop 2).take n
    if digits.length < n || !digits.all isHex then fail start .escapeHexExpected
    else
      match charOfNat? (hexValue digits) with
      | some ch => .ok (ch, c.advance (n + 2))
      | none => fail start .escapeCodePoint

/-- Reads quoted content up to white space, the closing quote or an escaped line break; the flag
says that it was the last of these. -/
def quotedRun (single : Bool) (start : Position) :
    Nat → Cursor → List Char → Scan (List Char × Cursor × Bool)
  | 0, c, text => .ok (text, c, false)
  | fuel + 1, c, text =>
    let ch := c.head
    if isGap ch then .ok (text, c, false)
    else if single && ch == '\x27' && c.peek 1 == '\x27' then
      quotedRun single start fuel (c.advance 2) ('\x27' :: text)
    else if ch == (if single then '\x27' else '\x22') then .ok (text, c, false)
    else if !single && ch == '\\' && isBreak (c.peek 1) then
      .ok (text, (c.advance 1).newline, true)
    else if !single && ch == '\\' then do
      let (escaped, after) ← escapeSequence start c
      quotedRun single start fuel after (escaped :: text)
    else quotedRun single start fuel (c.advance 1) (ch :: text)

/-- White space inside quotes. `folding` says that a line break came before. -/
def quotedGap (indent : Int) :
    Nat → Cursor → Bool → Pending → Scan (Cursor × Bool × Pending)
  | 0, c, folding, p => .ok (c, folding, p)
  | fuel + 1, c, folding, p =>
    if isBlank c.head then
      if !folding then
        quotedGap indent fuel (c.move 1) folding { p with blanks := c.head :: p.blanks }
      else if c.head == '\t' && (c.column : Int) < indent then fail c.position .quotedTab
      else quotedGap indent fuel (c.move 1) folding p
    else if isBreak c.head then
      if folding then
        quotedGap indent fuel c.newline folding { p with breaks := p.breaks + 1 }
      else quotedGap indent fuel c.newline true { p with blanks := [], fold := true }
    else .ok (c, folding, p)

/-- The rest of a quoted scalar; `text` is what has been read, latest first. -/
def quotedRest (single : Bool) (indent : Int) (start : Position) :
    Nat → Cursor → List Char → Scan (List Char × Cursor)
  | 0, c, text => .ok (text, c)
  | fuel + 1, c, text =>
    if c.isDocumentMarker then fail start .quotedDocumentMarker
    else if isEnd c.head then fail start .quotedEndOfStream
    else if (c.column : Int) < indent then fail start .quotedIndentation
    else do
      let (text, c, escapedBreak) ← quotedRun single start c.bound c text
      if c.head == (if single then '\x27' else '\x22') then .ok (text, c)
      else
        let (c, folding, p) ← quotedGap indent c.bound c escapedBreak {}
        let joined := if folding then p.folded else p.blanks.reverse
        quotedRest single indent start fuel c (joined.reverse ++ text)

/-- Reads a quoted scalar at its opening quote. What follows the closing quote has to be the end
of the line, a colon where a key may end, or, inside a flow collection, its punctuation. -/
def quotedScalar (single inFlow : Bool) (indent : Int) (c : Cursor) : Scan (String × Cursor) := do
  let (text, closing) ←
    quotedRest single indent c.position c.bound (c.advance 1) []
  let after ← skipToEndOfLine (closing.advance 1)
  let next := after.head
  let allowed :=
    isBreakOrEnd next ||
      (inFlow && (next == ',' || next == '\x7d' || next == ']' || next == ':')) ||
      (next == ':' && c.position.line == after.position.line)
  if allowed then return (String.ofList text.reverse, after)
  else fail after.position .quotedTrailing

/-! ## Block scalars -/

inductive Chomping where
  | strip
  | clip
  | keep
  deriving DecidableEq

def chomping? (c : Char) : Option Chomping :=
  if c == '+' then some .keep else if c == '-' then some .strip else none

/-- An indentation indicator; zero means that there is none. -/
def indentIndicator (start : Position) (c : Cursor) : Scan (Nat × Cursor) :=
  if !c.head.isDigit then .ok (0, c)
  else if c.head == '0' then fail start .blockIndentZero
  else .ok (c.head.toNat - 48, c.advance 1)

/-- The indicators after `|` or `>`, in either order. -/
def blockHeader (start : Position) (c : Cursor) : Scan (Chomping × Nat × Cursor) :=
  match chomping? c.head with
  | some chomp => do
    let (increment, c) ← indentIndicator start (c.advance 1)
    return (chomp, increment, c)
  | none => do
    let (increment, c) ← indentIndicator start c
    match if increment > 0 then chomping? c.head else none with
    | some chomp => return (chomp, increment, c.advance 1)
    | none => return (.clip, increment, c)

/-- Reads blank lines before the first line of content; returns how many, and the widest
indentation met. -/
def leadingLines : Nat → Cursor → Nat → Nat → Cursor × Nat × Nat
  | 0, c, widest, breaks => (c, widest, breaks)
  | fuel + 1, c, widest, breaks =>
    let c := c.skipBlanks (· == ' ')
    let widest := max widest c.column
    if isBreak c.head then leadingLines fuel c.newline widest (breaks + 1)
    else (c, widest, breaks)

/-- Reads indentation up to a column, and blank lines. -/
def indentedLines (indent : Nat) : Nat → Cursor → Nat → Cursor × Nat
  | 0, c, breaks => (c, breaks)
  | fuel + 1, c, breaks =>
    let blanks := ((c.rest.take (indent - c.column)).takeWhile (· == ' ')).length
    let c := c.move blanks
    if isBreak c.head then indentedLines indent fuel c.newline (breaks + 1) else (c, breaks)

/-- The lines of a block scalar while they are read. -/
structure BlockLines where
  cursor : Cursor
  /-- The content read, latest first. -/
  text : List Char
  /-- The last line read has ended in a break that is not yet written. -/
  leadingBreak : Bool
  /-- Blank lines not yet written. -/
  breaks : Nat
  /-- The last line read began with a blank. -/
  leadingBlank : Bool

def blockLines (literal : Bool) (indent : Nat) : Nat → BlockLines → BlockLines
  | 0, b => b
  | fuel + 1, b =>
    let c := b.cursor
    if c.column != indent || isEnd c.head || (indent == 0 && c.isDocumentEnd) then b
    else
      let blank := isBlank c.head
      let joined :=
        if !literal && b.leadingBreak && !b.leadingBlank && !blank then
          if b.breaks == 0 then [' '] else List.replicate b.breaks '\n'
        else (if b.leadingBreak then ['\n'] else []) ++ List.replicate b.breaks '\n'
      let line := c.rest.takeWhile fun ch => !isBreakOrEnd ch
      let c := c.move line.length
      let text := line.reverse ++ joined.reverse ++ b.text
      if isEnd c.head then
        { cursor := c, text, leadingBreak := false, breaks := 0, leadingBlank := blank }
      else
        let (c, breaks) := indentedLines indent c.bound c.newline 0
        blockLines literal indent fuel
          { cursor := c, text, leadingBreak := true, breaks, leadingBlank := blank }

/-- Reads a block scalar at its indicator, inside a block indented by `parent` columns. Returns
where its content starts, the content, and where it ends. -/
def blockScalar (literal : Bool) (parent : Int) (c : Cursor) :
    Scan (Position × String × Cursor) := do
  let start := c.position
  let (chomp, increment, c) ← blockHeader start (c.advance 1)
  let c ← skipToEndOfLine c
  if !isBreakOrEnd c.head then fail start .blockHeaderTrailing
  else
    let headerBreak := isBreak c.head
    let c := c.newline
    if c.head == '\t' then fail start .blockStartsWithTab
    else
      let (c, indent, breaks) :=
        if increment > 0 then
          let indent := if parent ≥ 0 then parent.toNat + increment else increment
          let (c, breaks) := indentedLines indent c.bound c 0
          (c, indent, breaks)
        else
          let (c, widest, breaks) := leadingLines c.bound c 0 0
          let indent := max widest (parent + 1).toNat
          (c, if parent > 0 then max indent 1 else indent, breaks)
      if isEnd c.head then
        let newlines :=
          if chomp == .strip || c.position.line == start.line then 0
          else
            let header := if headerBreak then 1 else 0
            if chomp == .keep && breaks > 0 then breaks else header
        return (start, String.ofList (List.replicate newlines '\n'), c)
      else if c.column < indent && (c.column : Int) > parent then
        fail c.position .blockIndentation
      else
        let lines := blockLines literal indent c.bound
          { cursor := c, text := [], leadingBreak := false, breaks, leadingBlank := false }
        let last := lines.cursor
        let tail :=
          if chomp == .strip then []
          else
            (if lines.leadingBreak then ['\n'] else []) ++
              (if isEnd last.head && last.column ≥ max indent 1 then ['\n'] else [])
        let kept := if chomp == .keep then List.replicate lines.breaks '\n' else []
        return (c.position, String.ofList (lines.text.reverse ++ tail ++ kept), last)

end ApiLint.Yaml
