import ApiLint.Yaml.Lexer.Property

/-!
# The lexer

Cuts a text into tokens. A key is only known as one when its colon is met, so tokens wait in the
list while one of them may still turn out to start a key; block collections are opened and closed
by indentation. `Lexer.tokens` runs it to the end: the tokens handed out, and the fault that
stopped it, if any.
-/

set_option autoImplicit false

namespace ApiLint.Yaml

open CharClass

/-- A token that turns into a key if a colon follows it. -/
structure SimpleKey where
  possible : Bool := false
  /-- Without a colon the text is at fault. -/
  required : Bool := false
  /-- The number of the token. -/
  token : Nat := 0
  position : Position := ⟨0, 0, 0⟩

/-- An indentation that was left for a deeper one. -/
structure Indent where
  column : Int
  /-- The deeper one opened a block collection. -/
  isBlock : Bool

structure Lexer where
  cursor : Cursor
  /-- All tokens found, those handed out included. -/
  found : Array Token := #[]
  /-- How many tokens have been handed out. -/
  taken : Nat := 0
  key : SimpleKey := {}
  /-- The key candidates of the enclosing flow levels, innermost first. -/
  outerKeys : List SimpleKey := []
  keyAllowed : Bool := true
  indent : Int := -1
  indents : List Indent := []
  flowLevel : Nat := 0
  /-- A flow mapping has been opened, or an explicit key met, and not closed implicitly since. -/
  flowMapping : Bool := false
  /-- For each open flow sequence, whether a mapping without braces is open in it. -/
  implicitMappings : List Bool := []
  /-- Where a colon needs no white space after it. -/
  adjacentValueAt : Nat := 0

namespace Lexer

/-- The deepest nesting of flow collections. -/
def maxFlowLevel : Nat := 255

def inFlow (lx : Lexer) : Bool := lx.flowLevel > 0

def position (lx : Lexer) : Position := lx.cursor.position

def at_ (lx : Lexer) (c : Cursor) : Lexer := { lx with cursor := c }

def push (lx : Lexer) (position : Position) (kind : TokenKind) : Lexer :=
  { lx with found := lx.found.push { position, kind } }

/-- Puts a token before the one with the given number. -/
def insert (lx : Lexer) (number : Nat) (position : Position) (kind : TokenKind) : Lexer :=
  { lx with found := lx.found.insertIdxIfInBounds number { position, kind } }

def allowKey (lx : Lexer) (allowed : Bool) : Lexer := { lx with keyAllowed := allowed }

/-! ## Indentation -/

/-- Opens a block collection if `column` is deeper than the current one; its token goes before
the one with the given number, or to the end. -/
def rollIndent (lx : Lexer) (column : Nat) (number : Option Nat) (kind : TokenKind)
    (position : Position) : Lexer :=
  if lx.inFlow then lx
  else
    let lx := match lx.indents with
      | i :: outer =>
        if lx.indent ≤ (column : Int) && !i.isBlock then
          { lx with indent := i.column, indents := outer }
        else lx
      | [] => lx
    if lx.indent < (column : Int) then
      let lx := { lx with indents := ⟨lx.indent, true⟩ :: lx.indents, indent := column }
      match number with
      | some n => lx.insert n position kind
      | none => lx.push position kind
    else lx

/-- Indents by one column without opening a collection, inside a block collection. -/
def rollOneColumn (lx : Lexer) : Lexer :=
  match lx.indents with
  | i :: _ =>
    if !lx.inFlow && i.isBlock then
      { lx with indents := ⟨lx.indent, false⟩ :: lx.indents, indent := lx.indent + 1 }
    else lx
  | [] => lx

def unrollIndents (column : Int) (position : Position) :
    Int → List Indent → Array Token → Int × List Indent × Array Token
  | indent, [], found => (indent, [], found)
  | indent, i :: outer, found =>
    if indent > column then
      unrollIndents column position i.column outer
        (if i.isBlock then found.push { position, kind := .blockEnd } else found)
    else (indent, i :: outer, found)

/-- Closes the collections that are deeper than `column`. -/
def unrollIndent (lx : Lexer) (column : Int) : Lexer :=
  if lx.inFlow then lx
  else
    let (indent, indents, found) :=
      unrollIndents column lx.position lx.indent lx.indents lx.found
    { lx with indent, indents, found }

def dropOneColumns : Int → List Indent → Int × List Indent
  | indent, [] => (indent, [])
  | indent, i :: outer =>
    if i.isBlock then (indent, i :: outer) else dropOneColumns i.column outer

/-- Takes back the indentations that opened no collection. -/
def unrollOneColumns (lx : Lexer) : Lexer :=
  let (indent, indents) := dropOneColumns lx.indent lx.indents
  { lx with indent, indents }

/-! ## Keys -/

/-- The next token may be a key. -/
def saveKey (lx : Lexer) : Lexer :=
  if lx.keyAllowed then
    let required :=
      !lx.inFlow && lx.indent == (lx.position.column : Int) &&
        (match lx.indents with | i :: _ => i.isBlock | [] => false)
    { lx with key := ⟨true, required, lx.found.size, lx.position⟩ }
  else lx

def removeKey (lx : Lexer) : Scan Lexer :=
  if lx.key.possible && lx.key.required then fail lx.position .keyExpected
  else .ok { lx with key := { lx.key with possible := false } }

/-- Outside flow collections a key ends on its line and within 1024 characters. -/
def staleKey (lx : Lexer) : Scan Lexer :=
  let k := lx.key
  if k.possible && !lx.inFlow &&
      (k.position.line < lx.position.line || k.position.index + 1024 < lx.position.index) then
    if k.required then fail lx.position .keyWithoutColon
    else .ok { lx with key := { k with possible := false } }
  else .ok lx

/-- The next token to hand out may still become a key. -/
def mayBecomeKey (lx : Lexer) : Bool :=
  (lx.key :: lx.outerKeys).any fun k => k.possible && k.token == lx.taken

/-! ## Gaps between tokens -/

/-- Reads white space, line breaks and comments up to the next token. -/
def skipGap : Nat → Lexer → Scan Lexer
  | 0, lx => .ok lx
  | fuel + 1, lx =>
    let c := lx.cursor
    let inIndentation := !lx.indents.isEmpty && c.atLineStart && (c.column : Int) < lx.indent
    if c.head == '\t' && inIndentation then do
      let after ← skipToEndOfLine c
      if !isBreakOrEnd after.head then fail after.position .tabIndentation
      else skipGap fuel (lx.at_ after)
    else if isBlank c.head then skipGap fuel (lx.at_ (c.move 1))
    else if isBreak c.head then
      skipGap fuel { lx with cursor := c.newline, keyAllowed := lx.keyAllowed || !lx.inFlow }
    else if c.head == '#' then skipGap fuel (lx.at_ c.skipLine)
    else .ok lx

def skipToToken (lx : Lexer) : Scan Lexer :=
  skipGap (2 * lx.cursor.bound) lx

/-- After a question mark: blanks but no tabs, line breaks and comments; `needed` until white
space has been met. -/
def skipKeyGap : Nat → Lexer → Bool → Lexer × Bool
  | 0, lx, needed => (lx, needed)
  | fuel + 1, lx, needed =>
    let c := lx.cursor
    if c.head == ' ' then skipKeyGap fuel (lx.at_ (c.move 1)) false
    else if isBreak c.head then
      skipKeyGap fuel { lx with cursor := c.newline, keyAllowed := lx.keyAllowed || !lx.inFlow }
        false
    else if c.head == '#' then skipKeyGap fuel (lx.at_ c.skipLine) needed
    else (lx, needed)

/-! ## Documents -/

def fetchStreamEnd (lx : Lexer) : Scan Lexer := do
  let p := lx.position
  let p := if p.column == 0 then p else ⟨p.index, p.line + 1, 0⟩
  let lx := { lx with cursor := { lx.cursor with position := p } }
  if (lx.key :: lx.outerKeys).any fun k => k.possible && k.required then fail p .keyExpected
  else
    let close (k : SimpleKey) : SimpleKey := { k with possible := false }
    let lx := { lx with key := close lx.key, outerKeys := lx.outerKeys.map close }
    return ((lx.unrollIndent (-1)).allowKey false).push p .streamEnd

def fetchDirective (lx : Lexer) : Scan Lexer := do
  let lx ← (lx.unrollIndent (-1)).removeKey
  let (kind, c) ← directive lx.cursor
  return ((lx.allowKey false).push lx.position kind).at_ c

def fetchMarker (lx : Lexer) (kind : TokenKind) : Scan Lexer := do
  let lx ← (lx.unrollIndent (-1)).removeKey
  return ((lx.allowKey false).push lx.position kind).at_ (lx.cursor.advance 3)

def fetchDocumentEnd (lx : Lexer) : Scan Lexer := do
  let lx ← lx.fetchMarker .documentEnd
  let c ← skipToEndOfLine lx.cursor
  if isBreakOrEnd c.head then return lx.at_ c else fail c.position .contentAfterDocumentEnd

/-! ## Flow collections -/

/-- Closes a mapping without braces, if one is open in the innermost flow sequence. -/
def endImplicitMapping (lx : Lexer) : Lexer :=
  match lx.implicitMappings with
  | true :: outer =>
    ({ lx with flowMapping := false, implicitMappings := false :: outer }).push lx.position
      .flowMappingEnd
  | _ => lx

def fetchFlowStart (lx : Lexer) (isMapping : Bool) : Scan Lexer := do
  let lx := lx.saveKey.rollOneColumn
  if lx.flowLevel ≥ maxFlowLevel then fail lx.position .tooDeep
  else
    let start := lx.position
    let lx := { lx with
      key := {}, outerKeys := lx.key :: lx.outerKeys, flowLevel := lx.flowLevel + 1,
      keyAllowed := true,
      flowMapping := lx.flowMapping || isMapping,
      implicitMappings := if isMapping then lx.implicitMappings else false :: lx.implicitMappings }
    let c ← skipToEndOfLine (lx.cursor.advance 1)
    return (lx.push start (if isMapping then .flowMappingStart else .flowSequenceStart)).at_ c

def fetchFlowEnd (lx : Lexer) (isMapping : Bool) : Scan Lexer := do
  let lx ← lx.removeKey
  let lx := match lx.flowLevel, lx.outerKeys with
    | level + 1, key :: outer => { lx with flowLevel := level, key, outerKeys := outer }
    | _, _ => lx
  let lx := lx.allowKey false
  let lx :=
    if isMapping then lx
    else
      let lx := lx.endImplicitMapping
      { lx with implicitMappings := lx.implicitMappings.drop 1 }
  let start := lx.position
  let c ← skipToEndOfLine (lx.cursor.advance 1)
  let lx := lx.push start (if isMapping then .flowMappingEnd else .flowSequenceEnd)
  return { lx with
    cursor := c
    adjacentValueAt := if lx.inFlow then c.position.index else lx.adjacentValueAt }

def fetchFlowEntry (lx : Lexer) : Scan Lexer := do
  let lx ← lx.removeKey
  let lx := (lx.allowKey true).endImplicitMapping
  let c ← skipToEndOfLine (lx.cursor.advance 1)
  return (lx.push lx.position .flowEntry).at_ c

/-! ## Block collections -/

def fetchBlockEntry (lx : Lexer) : Scan Lexer := do
  if lx.inFlow then fail lx.position .entryInFlow
  else if !lx.keyAllowed then fail lx.position .entryNotAllowed
  else
    let dangling := match lx.found[lx.found.size - 1]? with
      | some ⟨p, .anchor _, _⟩ | some ⟨p, .tag _ _, _⟩ =>
        if lx.taken < lx.found.size && lx.position.column == 0 && p.column == 0 && lx.indent > -1
        then some p else none
      | _ => none
    match dangling with
    | some p => fail p .anchorIndentation
    | none =>
      let start := lx.position
      let lx := lx.at_ (lx.cursor.advance 1)
      let lx := lx.rollIndent start.column none .blockSequenceStart start
      let gap ← skipLineGap true lx.cursor
      let c := gap.cursor
      if gap.tab && c.head == '-' && isGap (c.peek 1) then fail c.position .entryWithoutBlank
      else
        let c := (← skipLineGap false c).cursor
        let lx := lx.at_ c
        let lx := if isBreak c.head || isFlow c.head then lx.rollOneColumn else lx
        let lx ← lx.removeKey
        return (lx.allowKey true).push lx.position .blockEntry

def fetchKey (lx : Lexer) : Scan Lexer := do
  let start := lx.position
  let lx ←
    if lx.inFlow then pure { lx with flowMapping := true }
    else if !lx.keyAllowed then fail start .keyNotAllowed
    else pure (lx.rollIndent start.column none .blockMappingStart start)
  let lx ← lx.removeKey
  let lx := (lx.allowKey !lx.inFlow).at_ (lx.cursor.advance 1)
  let (lx, needed) := skipKeyGap (2 * lx.cursor.bound) lx true
  if needed then fail lx.position .whitespaceExpected
  else if lx.cursor.head == '\t' then fail lx.position .tabAfterKey
  else return lx.push start .key

/-- A colon: the token before it becomes a key, or it follows an explicit key. -/
def fetchValue (lx : Lexer) : Scan Lexer := do
  let key := lx.key
  let start := lx.position
  let implicit := !lx.implicitMappings.isEmpty && !lx.flowMapping
  let lx :=
    if implicit then { lx with implicitMappings := true :: lx.implicitMappings.drop 1 } else lx
  let c := lx.cursor.advance 1
  let c ←
    if c.head == '\t' then do
      let gap ← skipLineGap true c
      let next := gap.cursor.head
      if !gap.space && (next == '-' || isWord next) then
        fail gap.cursor.position .valueWithoutBlank
      else pure gap.cursor
    else pure c
  let lx := lx.at_ c
  if key.possible then
    let lx := lx.insert key.token key.position .key
    if implicit && key.position.line < start.line then fail start .misplacedColon
    else
      let lx := if implicit then lx.insert key.token lx.position .flowMappingStart else lx
      let lx := lx.rollIndent key.position.column (some key.token) .blockMappingStart start
      let lx := lx.rollOneColumn
      let lx := { lx with key := { lx.key with possible := false }, keyAllowed := false }
      return lx.push start .value
  else
    let lx := if implicit then lx.push lx.position .flowMappingStart else lx
    if !lx.inFlow && !lx.keyAllowed then fail start .valueNotAllowed
    else
      let lx := if lx.inFlow then lx
        else lx.rollIndent start.column none .blockMappingStart start
      let lx := lx.rollOneColumn
      return (lx.allowKey !lx.inFlow).push start .value

/-! ## Nodes -/

def fetchTag (lx : Lexer) : Scan Lexer := do
  let lx := lx.saveKey.allowKey false
  let (kind, c) ← tag lx.inFlow lx.cursor
  return (lx.push lx.position kind).at_ c

def fetchAnchor (lx : Lexer) (kind : String → TokenKind) : Scan Lexer := do
  let lx := lx.saveKey.allowKey false
  let (name, c) ← anchorName lx.cursor
  return (lx.push lx.position (kind name)).at_ c

def fetchBlockScalar (lx : Lexer) (literal : Bool) : Scan Lexer := do
  let lx := (lx.saveKey.allowKey true).unrollOneColumns
  let (start, text, c) ← blockScalar literal lx.indent lx.cursor
  return (lx.push start (.scalar (if literal then .literal else .folded) text)).at_ c

def fetchQuoted (lx : Lexer) (single : Bool) : Scan Lexer := do
  let start := lx.position
  let lx := lx.saveKey.allowKey false
  let (text, c) ← quotedScalar single lx.inFlow lx.indent lx.cursor
  let lx ← (lx.at_ c).skipToToken
  let lx := { lx with adjacentValueAt := lx.position.index }
  return lx.push start (.scalar (if single then .singleQuoted else .doubleQuoted) text)

def fetchPlain (lx : Lexer) : Scan Lexer := do
  let start := lx.position
  let lx := (lx.saveKey.allowKey false).unrollOneColumns
  let (text, c) ← plainScalar lx.inFlow (lx.indent + 1) lx.cursor
  let lx := lx.push start (.scalar .plain text)
  return { lx with cursor := c, keyAllowed := lx.keyAllowed || c.atLineStart }

/-- Reads the token at the cursor, by its first characters. -/
def fetchNode (lx : Lexer) : Scan Lexer :=
  let c := lx.cursor
  let next := c.peek 1
  let colonEnds :=
    isGap next || (lx.inFlow && (isFlow next || lx.position.index == lx.adjacentValueAt))
  match c.head with
  | '[' => lx.fetchFlowStart false
  | '\x7b' => lx.fetchFlowStart true
  | ']' => lx.fetchFlowEnd false
  | '\x7d' => lx.fetchFlowEnd true
  | ',' => lx.fetchFlowEntry
  | '-' => if isGap next then lx.fetchBlockEntry else lx.fetchPlain
  | '?' => if isGap next then lx.fetchKey else lx.fetchPlain
  | ':' => if colonEnds then lx.fetchValue else lx.fetchPlain
  | '*' => lx.fetchAnchor .anchorUse
  | '&' => lx.fetchAnchor .anchor
  | '!' => lx.fetchTag
  | '|' => if lx.inFlow then lx.fetchPlain else lx.fetchBlockScalar true
  | '>' => if lx.inFlow then lx.fetchPlain else lx.fetchBlockScalar false
  | '\x27' => lx.fetchQuoted true
  | '\x22' => lx.fetchQuoted false
  | '%' | '@' | '\x60' => fail lx.position (.unexpectedCharacter c.head)
  | _ => lx.fetchPlain

/-- Reads one token more. -/
def fetch (lx : Lexer) : Scan Lexer := do
  let lx ← lx.skipToToken
  let lx ← lx.staleKey
  let lx := lx.unrollIndent lx.position.column
  let c := lx.cursor
  if isEnd c.head then lx.fetchStreamEnd
  else if c.column == 0 && c.head == '%' then lx.fetchDirective
  else if c.column == 0 && c.isDocumentStart then lx.fetchMarker .documentStart
  else if c.column == 0 && c.isDocumentEnd then lx.fetchDocumentEnd
  else if (c.column : Int) < lx.indent then fail c.position .invalidIndentation
  else lx.fetchNode

/-! ## The whole text -/

/-- The tokens of a text up to the fault that stopped it; without one they end with the end of
the stream. -/
structure Outcome where
  tokens : Array Token
  fault : Option SyntaxFault

def start (source : String) : Lexer :=
  { cursor := .ofText source, found := #[{ position := {}, kind := .streamStart }] }

/-- Hands tokens out, reading on while the next one may become a key. -/
def run : Nat → Lexer → Array Token → Outcome
  | 0, lx, out => ⟨out, some ⟨.noToken, lx.position⟩⟩
  | fuel + 1, lx, out =>
    let settled := if lx.taken < lx.found.size then lx.staleKey else .ok lx
    match settled with
    | .error fault => ⟨out, some fault⟩
    | .ok lx =>
      match if lx.mayBecomeKey then none else lx.found[lx.taken]? with
      | some token =>
        let out := out.push { token with reach := lx.position }
        if token.kind == .streamEnd then ⟨out, none⟩
        else run fuel { lx with taken := lx.taken + 1 } out
      | none =>
        match lx.fetch with
        | .error fault => ⟨out, some fault⟩
        | .ok lx => run fuel lx out

/-- The tokens of a text. A character starts at most one token and ends at most as many blocks as
tokens have opened, which bounds the number of steps. -/
def tokens (source : String) : Outcome :=
  run (8 * source.length + 64) (start source) #[]

end Lexer

end ApiLint.Yaml
