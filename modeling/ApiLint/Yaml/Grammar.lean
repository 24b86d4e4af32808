import ApiLint.Yaml.Event
import ApiLint.Yaml.Lexer

/-!
# From tokens to events

The grammar of a YAML document over its tokens, as a machine that emits one event a step. A stack
holds the places to return to after a nested node. `documentEvents` runs it over the first
document of a text.
-/

set_option autoImplicit false

namespace ApiLint.Yaml

/-- What the grammar expects next. -/
inductive Expectation where
  | documentContent
  | documentEnd
  | blockNode
  | blockMappingFirstKey
  | blockMappingKey
  | blockMappingValue
  | blockSequenceFirstEntry
  | blockSequenceEntry
  | indentlessSequenceEntry
  | flowSequenceFirstEntry
  | flowSequenceEntry
  | flowPairKey
  | flowPairValue
  | flowPairEnd
  | flowMappingFirstKey
  | flowMappingKey
  | flowMappingValue
  | flowMappingEmptyValue
  deriving Repr, DecidableEq

structure Grammar where
  tokens : List Token
  /-- What stops the reading after the last token. -/
  fault : SyntaxFault
  /-- How far the text had been read when the last token was looked at. -/
  reach : Position
  expect : Expectation
  returnTo : List Expectation
  /-- Anchor names, latest first. -/
  anchors : List (String × Nat)
  nextAnchor : Nat
  /-- What the tag directive of the document gives to its handle. -/
  handles : List (String × String)

namespace Grammar

abbrev Emitted := Scan (Option Event × Grammar)

/-- The next token, which stays. -/
def peek (g : Grammar) : Scan (Token × Grammar) :=
  match g.tokens with
  | token :: _ => .ok (token, { g with reach := token.reach })
  | [] => .error g.fault

def skip (g : Grammar) : Grammar :=
  { g with tokens := g.tokens.drop 1 }

def expecting (g : Grammar) (e : Expectation) : Grammar :=
  { g with expect := e }

def thenExpect (g : Grammar) (e : Expectation) : Grammar :=
  { g with returnTo := e :: g.returnTo }

/-- The node is complete. -/
def back (g : Grammar) : Grammar :=
  match g.returnTo with
  | e :: outer => { g with expect := e, returnTo := outer }
  | [] => { g with expect := .documentEnd }

def emit (g : Grammar) (kind : EventKind) (position : Position) : Emitted :=
  .ok (some ⟨kind, position.mark⟩, g)

/-- A node that is not written. -/
def emptyScalar : EventKind := .scalar "" .plain 0 none

/-! ## Nodes -/

def resolveTag (g : Grammar) (position : Position) (handle suffix : String) : Scan Tag :=
  match g.handles.lookup handle with
  | some expansion => .ok ⟨expansion, suffix⟩
  | none =>
    if handle == "!!" then .ok ⟨"tag:yaml.org,2002:", suffix⟩
    else if handle.length ≥ 2 && handle.startsWith "!" && handle.endsWith "!" then
      fail position .undeclaredHandle
    else .ok ⟨handle, suffix⟩

def registerAnchor (g : Grammar) (name : String) : Nat × Grammar :=
  (g.nextAnchor,
    { g with anchors := (name, g.nextAnchor) :: g.anchors, nextAnchor := g.nextAnchor + 1 })

/-- Reads the anchor and the tag of a node, in either order. -/
def properties (g : Grammar) : Scan (Nat × Option Tag × Grammar) := do
  let (token, g) ← g.peek
  match token.kind with
  | .anchor name =>
    let (anchor, g) := g.skip.registerAnchor name
    let (next, g) ← g.peek
    match next.kind with
    | .tag handle suffix =>
      return (anchor, some (← g.resolveTag token.position handle suffix), g.skip)
    | _ => return (anchor, none, g)
  | .tag handle suffix =>
    let tag ← g.resolveTag token.position handle suffix
    let (next, g) ← g.skip.peek
    match next.kind with
    | .anchor name =>
      let (anchor, g) := g.skip.registerAnchor name
      return (anchor, some tag, g)
    | _ => return (0, some tag, g)
  | _ => return (0, none, g)

/-- Reads a node or the start of one. `block` allows block collections, `indentless` a sequence
at the column of its key. -/
def node (g : Grammar) (block indentless : Bool) : Emitted := do
  let (token, g) ← g.peek
  match token.kind with
  | .anchorUse name =>
    match g.anchors.lookup name with
    | some anchor => g.back.skip.emit (.anchorUse anchor) token.position
    | none => fail token.position .unknownAnchor
  | _ =>
    let (anchor, tag, g) ← g.properties
    let (token, g) ← g.peek
    let empty : Emitted :=
      if tag.isSome || anchor > 0 then
        g.back.emit (.scalar "" .plain anchor tag) token.position
      else fail token.position .nodeExpected
    match token.kind with
    | .blockEntry =>
      if indentless then
        (g.expecting .indentlessSequenceEntry).emit (.sequenceStart anchor tag) token.position
      else empty
    | .scalar style text =>
      g.back.skip.emit (.scalar text style anchor tag) token.position
    | .flowSequenceStart =>
      (g.expecting .flowSequenceFirstEntry).emit (.sequenceStart anchor tag) token.position
    | .flowMappingStart =>
      (g.expecting .flowMappingFirstKey).emit (.mappingStart anchor tag) token.position
    | .blockSequenceStart =>
      if block then
        (g.expecting .blockSequenceFirstEntry).emit (.sequenceStart anchor tag) token.position
      else empty
    | .blockMappingStart =>
      if block then
        (g.expecting .blockMappingFirstKey).emit (.mappingStart anchor tag) token.position
      else empty
    | _ => empty

/-- Reads a node, and afterwards expects `next`. -/
def nodeThen (g : Grammar) (next : Expectation) (block indentless : Bool) : Emitted :=
  (g.thenExpect next).node block indentless

/-- A node that is not written before the token at hand. -/
def emptyThen (g : Grammar) (next : Expectation) (position : Position) : Emitted :=
  (g.expecting next).emit emptyScalar position

/-! ## Block collections -/

def blockMappingKey (g : Grammar) : Emitted := do
  let (token, g) ← g.peek
  match token.kind with
  | .key =>
    let (next, g) ← g.skip.peek
    match next.kind with
    | .key | .value | .blockEnd => g.emptyThen .blockMappingValue next.position
    | _ => g.nodeThen .blockMappingValue true true
  | .value => g.emptyThen .blockMappingValue token.position
  | .blockEnd => g.back.skip.emit .mappingEnd token.position
  | _ => fail token.position .blockKeyExpected

def blockMappingValue (g : Grammar) : Emitted := do
  let (token, g) ← g.peek
  match token.kind with
  | .value =>
    let (next, g) ← g.skip.peek
    match next.kind with
    | .key | .value | .blockEnd => g.emptyThen .blockMappingKey next.position
    | _ => g.nodeThen .blockMappingKey true true
  | _ => g.emptyThen .blockMappingKey token.position

def blockSequenceEntry (g : Grammar) : Emitted := do
  let (token, g) ← g.peek
  match token.kind with
  | .blockEnd => g.back.skip.emit .sequenceEnd token.position
  | .blockEntry =>
    let (next, g) ← g.skip.peek
    match next.kind with
    | .blockEntry | .blockEnd => g.emptyThen .blockSequenceEntry next.position
    | _ => g.nodeThen .blockSequenceEntry true false
  | _ => fail token.position .blockEntryExpected

def indentlessSequenceEntry (g : Grammar) : Emitted := do
  let (token, g) ← g.peek
  match token.kind with
  | .blockEntry =>
    let (next, g) ← g.skip.peek
    match next.kind with
    | .blockEntry | .key | .value | .blockEnd =>
      g.emptyThen .indentlessSequenceEntry next.position
    | _ => g.nodeThen .indentlessSequenceEntry true false
  | _ => g.back.emit .sequenceEnd token.position

/-! ## Flow collections -/

def flowSequenceItem (g : Grammar) : Emitted := do
  let (token, g) ← g.peek
  match token.kind with
  | .flowSequenceEnd => g.back.skip.emit .sequenceEnd token.position
  | .key => (g.expecting .flowPairKey).skip.emit (.mappingStart 0 none) token.position
  | _ => g.nodeThen .flowSequenceEntry false false

def flowSequenceEntry (g : Grammar) (first : Bool) : Emitted := do
  let (token, g) ← g.peek
  match token.kind with
  | .flowSequenceEnd => g.back.skip.emit .sequenceEnd token.position
  | .flowEntry => if first then g.flowSequenceItem else g.skip.flowSequenceItem
  | _ => if first then g.flowSequenceItem else fail token.position .flowSequenceSeparator

def flowPairKey (g : Grammar) : Emitted := do
  let (token, g) ← g.peek
  match token.kind with
  | .value | .flowEntry | .flowSequenceEnd => g.skip.emptyThen .flowPairValue token.position
  | _ => g.nodeThen .flowPairValue false false

def flowPairValue (g : Grammar) : Emitted := do
  let (token, g) ← g.peek
  match token.kind with
  | .value =>
    let (next, g) ← g.skip.peek
    match next.kind with
    | .flowEntry | .flowSequenceEnd => g.emptyThen .flowPairEnd next.position
    | _ => g.nodeThen .flowPairEnd false false
  | _ => g.emptyThen .flowPairEnd token.position

def flowMappingItem (g : Grammar) (endPosition : Position) : Emitted := do
  let (token, g) ← g.peek
  match token.kind with
  | .key =>
    let (next, g) ← g.skip.peek
    match next.kind with
    | .value | .flowEntry | .flowMappingEnd => g.emptyThen .flowMappingValue next.position
    | _ => g.nodeThen .flowMappingValue false false
  | .value => g.emptyThen .flowMappingValue token.position
  | .flowMappingEnd => g.back.skip.emit .mappingEnd endPosition
  | _ => g.nodeThen .flowMappingEmptyValue false false

def flowMappingKey (g : Grammar) (first : Bool) : Emitted := do
  let (token, g) ← g.peek
  match token.kind with
  | .flowMappingEnd => g.back.skip.emit .mappingEnd token.position
  | .flowEntry => (if first then g else g.skip).flowMappingItem token.position
  | _ =>
    if first then g.flowMappingItem token.position
    else fail token.position .flowMappingSeparator

def flowMappingValue (g : Grammar) : Emitted := do
  let (token, g) ← g.peek
  match token.kind with
  | .value =>
    let (next, g) ← g.skip.peek
    match next.kind with
    | .flowEntry | .flowMappingEnd => g.emptyThen .flowMappingKey token.position
    | _ => g.nodeThen .flowMappingKey false false
  | _ => g.emptyThen .flowMappingKey token.position

/-! ## Documents -/

def documentContent (g : Grammar) : Emitted := do
  let (token, g) ← g.peek
  match token.kind with
  | .versionDirective | .tagDirective _ _ | .documentStart | .documentEnd | .streamEnd =>
    g.back.emit emptyScalar token.position
  | _ => g.node true false

/-- One step; no event at the end of the document. -/
def step (g : Grammar) : Emitted := do
  match g.expect with
  | .documentContent => g.documentContent
  | .documentEnd =>
    let (token, g) ← g.peek
    match token.kind with
    | .versionDirective | .tagDirective _ _ => fail token.position .documentEndExpected
    | .documentEnd =>
      return (none, g.skip)
    | _ => return (none, g)
  | .blockNode => g.node true false
  | .blockMappingFirstKey =>
    let (_, g) ← g.peek
    g.skip.blockMappingKey
  | .blockMappingKey => g.blockMappingKey
  | .blockMappingValue => g.blockMappingValue
  | .blockSequenceFirstEntry =>
    let (_, g) ← g.peek
    g.skip.blockSequenceEntry
  | .blockSequenceEntry => g.blockSequenceEntry
  | .indentlessSequenceEntry => g.indentlessSequenceEntry
  | .flowSequenceFirstEntry =>
    let (_, g) ← g.peek
    g.skip.flowSequenceEntry true
  | .flowSequenceEntry => g.flowSequenceEntry false
  | .flowPairKey => g.flowPairKey
  | .flowPairValue => g.flowPairValue
  | .flowPairEnd => (g.expecting .flowSequenceEntry).emit .mappingEnd g.reach
  | .flowMappingFirstKey =>
    let (_, g) ← g.peek
    g.skip.flowMappingKey true
  | .flowMappingKey => g.flowMappingKey false
  | .flowMappingValue => g.flowMappingValue
  | .flowMappingEmptyValue =>
    let (token, g) ← g.peek
    g.emptyThen .flowMappingKey token.position

/-- The directives before a document: the last one decides the handles. -/
def directives : Nat → Grammar → Bool → Scan Grammar
  | 0, g, _ => .ok g
  | fuel + 1, g, versionMet => do
    let (token, g) ← g.peek
    match token.kind with
    | .versionDirective =>
      if versionMet then fail token.position .versionRepeated
      else directives fuel { g.skip with handles := [] } true
    | .tagDirective handle expansion =>
      directives fuel { g.skip with handles := [(handle, expansion)] } versionMet
    | _ => return g

def skipDocumentEnds : List Token → List Token
  | [] => []
  | token :: rest => if token.kind == .documentEnd then skipDocumentEnds rest else token :: rest

/-- Reads up to the content of the first document; nothing if the stream has none. -/
def begin (g : Grammar) : Scan (Option Grammar) := do
  let g := { g.skip with tokens := skipDocumentEnds (g.tokens.drop 1) }
  let (token, g) ← g.peek
  match token.kind with
  | .streamEnd => return none
  | .versionDirective | .tagDirective _ _ | .documentStart =>
    let g ← g.directives (g.tokens.length + 1) false
    let (token, g) ← g.peek
    match token.kind with
    | .documentStart => return some ((g.skip.expecting .documentContent).thenExpect .documentEnd)
    | _ => fail token.position .documentMarkerExpected
  | _ => return some ((g.expecting .blockNode).thenExpect .documentEnd)

/-- All events up to the end of the document, oldest last. -/
def run : Nat → Grammar → List Event → Scan (List Event × Grammar)
  | 0, g, out => .ok (out, g)
  | fuel + 1, g, out => do
    match ← g.step with
    | (some event, g) => run fuel g (event :: out)
    | (none, g) => return (out, g)

end Grammar

/-- The grammar before the first token of a text. -/
def Grammar.ofSource (source : String) : Grammar :=
  let outcome := Lexer.tokens source
  { tokens := outcome.tokens.toList
    fault := outcome.fault.getD ⟨.noToken, {}⟩
    reach := {}
    expect := .blockNode
    returnTo := []
    anchors := []
    nextAnchor := 1
    handles := [] }

/-- The events of the first document, and the grammar behind it. A token gives rise to at most
three events, which bounds the number of steps. -/
def Grammar.document (g : Grammar) : Scan (List Event × Grammar) := do
  match ← g.begin with
  | none => return ([], { g with tokens := skipDocumentEnds (g.tokens.drop 1) })
  | some g =>
    let (events, g) ← g.run (4 * g.tokens.length + 16) []
    return (events.reverse, g)

/-- The events of the first document of a text; none if it holds no document. -/
def documentEvents (source : String) : Scan (List Event) := do
  let (events, _) ← (Grammar.ofSource source).document
  return events

/-- The events of a text that holds at most one document. Nothing else may stand before the
document or behind it, and an end mark needs a document before it. -/
def soleDocumentEvents? (source : String) : Option (List Event) := do
  let g := Grammar.ofSource source
  guard ((g.tokens.drop 1).head?.any fun token => token.kind != .documentEnd)
  let (events, g) ← g.document.toOption
  let (token, _) ← { g with tokens := Grammar.skipDocumentEnds g.tokens }.peek.toOption
  guard (token.kind == .streamEnd)
  return events

end ApiLint.Yaml
