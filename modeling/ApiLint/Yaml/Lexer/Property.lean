import ApiLint.Yaml.Lexer.Scalar

/-!
# Tags, anchors and directives

Readers of what may stand before a node or a document: `!tag`, `&anchor`, `*anchor` and
`%DIRECTIVE`.
-/

set_option autoImplicit false

namespace ApiLint.Yaml

open CharClass

/-! ## Text of tags -/

/-- One byte written as a percent sign and two hexadecimal digits. -/
def escapedByte (start : Position) (c : Cursor) : Scan (Nat × Cursor) :=
  if c.head == '%' && isHex (c.peek 1) && isHex (c.peek 2) then
    .ok (hexValue [c.peek 1, c.peek 2], c.advance 3)
  else fail start .uriEscape

/-- The bytes that continue a sequence, shifted onto `code`. -/
def escapedTail (start : Position) : Nat → Nat → Cursor → Scan (Nat × Cursor)
  | 0, code, c => .ok (code, c)
  | n + 1, code, c => do
    let (byte, c) ← escapedByte start c
    if byte / 64 != 2 then fail start .uriTrailingByte
    else escapedTail start n (code * 256 + byte) c

/-- The bytes of one character, read as one number. -/
def escapedChar (start : Position) (c : Cursor) : Scan (Char × Cursor) := do
  let (byte, c) ← escapedByte start c
  let tail ←
    if byte < 0x80 then pure 0
    else if byte / 32 == 6 then pure 1
    else if byte / 16 == 14 then pure 2
    else if byte / 8 == 30 then pure 3
    else fail start .uriLeadingByte
  let (code, c) ← escapedTail start tail byte c
  match charOfNat? (code % 0x100000000) with
  | some ch => return (ch, c)
  | none => fail start .uriCodePoint

/-- The longest run of characters in the class, escapes decoded, latest first. -/
def uriRun (p : Char → Bool) (start : Position) :
    Nat → Cursor → List Char → Scan (List Char × Cursor)
  | 0, c, text => .ok (text, c)
  | fuel + 1, c, text =>
    if !p c.head then .ok (text, c)
    else if c.head == '%' then do
      let (ch, after) ← escapedChar start c
      uriRun p start fuel after (ch :: text)
    else uriRun p start fuel (c.advance 1) (c.head :: text)

/-- `!`, `!!` or `!name!`; without a directive also the start of a local tag. -/
def tagHandle (directive : Bool) (start : Position) (c : Cursor) : Scan (List Char × Cursor) :=
  if c.head != '!' then fail start .tagStart
  else
    let (name, c) := (c.advance 1).takeContent isWord
    if c.head == '!' then .ok ('!' :: name ++ ['!'], c.advance 1)
    else if directive && !name.isEmpty then fail start .tagDirectiveHandle
    else .ok ('!' :: name, c)

/-- `!<…>` -/
def verbatimTag (start : Position) (c : Cursor) : Scan (String × Cursor) := do
  let (text, c) ← uriRun isUri start c.bound (c.advance 2) []
  if c.head == '>' then return (String.ofList text.reverse, c.advance 1)
  else fail start .verbatimTagEnd

/-- A tag as handle and suffix. A lone `!` has the empty handle. -/
def tag (inFlow : Bool) (c : Cursor) : Scan (TokenKind × Cursor) := do
  let start := c.position
  let (handle, suffix, c) ←
    if c.peek 1 == '<' then do
      let (suffix, c) ← verbatimTag start c
      pure ("", suffix, c)
    else do
      let (handle, c) ← tagHandle false start c
      let named := handle.length ≥ 2 && handle.getLast? == some '!'
      let local_ := if named then [] else handle.drop 1
      let (text, after) ← uriRun isTag start c.bound c local_.reverse
      let suffix := String.ofList text.reverse
      if named then
        if text.isEmpty then fail start .tagSuffixExpected
        else pure (String.ofList handle, suffix, after)
      else if text.isEmpty then pure ("", "!", after)
      else pure ("!", suffix, after)
  if isGap c.head || (inFlow && isFlow c.head) then return (.tag handle suffix, c)
  else fail start .tagTrailing

/-! ## Anchors -/

/-- The name after `&` or `*`. -/
def anchorName (c : Cursor) : Scan (String × Cursor) :=
  let (name, after) := (c.advance 1).takeContent isAnchor
  if name.isEmpty then fail c.position .anchorNameExpected
  else .ok (String.ofList name, after)

/-! ## Directives -/

def versionNumber (start : Position) (c : Cursor) : Scan Cursor :=
  let (digits, after) := c.takeContent Char.isDigit
  if digits.length > 9 then fail start .versionTooLong
  else if digits.isEmpty then fail start .versionExpected
  else .ok after

def versionDirective (start : Position) (c : Cursor) : Scan (TokenKind × Cursor) := do
  let c ← versionNumber start (c.skipBlanks isBlank)
  if c.head != '.' then fail start .versionDotExpected
  else return (.versionDirective, ← versionNumber start (c.advance 1))

/-- The expansion that a `%TAG` directive gives to a handle. -/
def tagExpansion (start : Position) (c : Cursor) : Scan (List Char × Cursor) := do
  let fuel := c.bound
  if c.head == '!' then uriRun isUri start fuel (c.advance 1) ['!']
  else if !isTag c.head then fail start .tagPrefixCharacter
  else uriRun isUri start fuel c []

def tagDirective (start : Position) (c : Cursor) : Scan (TokenKind × Cursor) := do
  let (handle, c) ← tagHandle true start (c.skipBlanks isBlank)
  let (expansion, c) ← tagExpansion start (c.skipBlanks isBlank)
  if isGap c.head then
    return (.tagDirective (String.ofList handle) (String.ofList expansion.reverse), c)
  else fail start .tagDirectiveTrailing

/-- A directive at its percent sign. One with an unknown name binds the empty handle. -/
def directive (c : Cursor) : Scan (TokenKind × Cursor) := do
  let start := c.position
  let (name, after) := (c.advance 1).takeContent isWord
  if name.isEmpty then fail (c.advance 1).position .directiveNameExpected
  else if !isGap after.head then fail (c.advance 1).position .directiveNameCharacter
  else
    let (kind, after) ←
      if name == ['Y', 'A', 'M', 'L'] then versionDirective start after
      else if name == ['T', 'A', 'G'] then tagDirective start after
      else pure (.tagDirective "" "", after.skipLine)
    let after ← skipToEndOfLine after
    if isBreakOrEnd after.head then return (kind, after.newline)
    else fail start .directiveTrailing

end ApiLint.Yaml
