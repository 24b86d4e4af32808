import ApiLint.Yaml.Position

/-!
# YAML tokens

What the lexer hands to the event grammar, and the character classes both are written in.
-/

set_option autoImplicit false

namespace ApiLint.Yaml

inductive ScalarStyle where
  | plain
  | singleQuoted
  | doubleQuoted
  | literal
  | folded
  deriving Repr, DecidableEq

inductive TokenKind where
  | streamStart
  | streamEnd
  | versionDirective
  | tagDirective (handle expansion : String)
  | documentStart
  | documentEnd
  | blockSequenceStart
  | blockMappingStart
  | blockEnd
  | flowSequenceStart
  | flowSequenceEnd
  | flowMappingStart
  | flowMappingEnd
  | blockEntry
  | flowEntry
  | key
  | value
  | anchorUse (name : String)
  | anchor (name : String)
  | tag (handle suffix : String)
  | scalar (style : ScalarStyle) (text : String)
  deriving Repr, DecidableEq

structure Token where
  position : Position
  kind : TokenKind
  /-- How far the lexer had read when it handed the token out. -/
  reach : Position := {}
  deriving Repr, DecidableEq

/-! ## Character classes -/

namespace CharClass

/-- The end of the text reads as this character. -/
def endOfText : Char := '\x00'

def isEnd (c : Char) : Bool := c == endOfText

def isBreak (c : Char) : Bool := c == '\n' || c == '\r'

def isBreakOrEnd (c : Char) : Bool := isBreak c || isEnd c

def isBlank (c : Char) : Bool := c == ' ' || c == '\t'

def isBlankOrBreak (c : Char) : Bool := isBlank c || isBreak c

def isGap (c : Char) : Bool := isBlank c || isBreakOrEnd c

/-- Letters, digits, low line and hyphen, ASCII only. -/
def isWord (c : Char) : Bool := c.isAlphanum || c == '_' || c == '-'

def isFlow (c : Char) : Bool :=
  c == ',' || c == '[' || c == ']' || c == '\x7b' || c == '\x7d'

def isHex (c : Char) : Bool :=
  c.isDigit || ('a' ≤ c && c ≤ 'f') || ('A' ≤ c && c ≤ 'F')

def isAnchor (c : Char) : Bool :=
  !isGap c && !isFlow c && c != '\ufeff'

def isUri (c : Char) : Bool :=
  (isWord c && c != '_') || "#;/?:@&=+$,_.!~*'()[]%".toList.contains c

def isTag (c : Char) : Bool :=
  isUri c && !isFlow c && c != '!'

end CharClass

end ApiLint.Yaml
