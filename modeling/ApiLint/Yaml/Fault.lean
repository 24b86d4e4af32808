import ApiLint.Yaml.Position

/-!
# Syntax faults

Every way in which a text fails to be a YAML document, and the sentence that tells it.
-/

set_option autoImplicit false

namespace ApiLint.Yaml

inductive SyntaxCause where
  -- Structure
  | keyWithoutColon
  | keyExpected
  | tabIndentation
  | whitespaceExpected
  | commentWithoutBlank
  | contentAfterDocumentEnd
  | invalidIndentation
  | unexpectedCharacter (c : Char)
  | tooDeep
  | entryInFlow
  | entryNotAllowed
  | anchorIndentation
  | entryWithoutBlank
  | keyNotAllowed
  | tabAfterKey
  | valueNotAllowed
  | valueWithoutBlank
  | misplacedColon
  | noToken
  -- Directives
  | directiveTrailing
  | versionDotExpected
  | directiveNameExpected
  | directiveNameCharacter
  | versionTooLong
  | versionExpected
  | tagDirectiveTrailing
  -- Tags and anchors
  | tagTrailing
  | tagStart
  | tagDirectiveHandle
  | tagPrefixCharacter
  | verbatimTagEnd
  | tagSuffixExpected
  | uriEscape
  | uriLeadingByte
  | uriTrailingByte
  | uriCodePoint
  | anchorNameExpected
  -- Scalars
  | blockIndentZero
  | blockHeaderTrailing
  | blockStartsWithTab
  | blockIndentation
  | quotedDocumentMarker
  | quotedEndOfStream
  | quotedIndentation
  | quotedTab
  | quotedTrailing
  | escapeUnknown
  | escapeHexExpected
  | escapeCodePoint
  | plainFlowIndentation
  | plainDash
  | plainTab
  -- Documents and nodes
  | streamStartExpected
  | documentStartExpected
  | documentMarkerExpected
  | versionRepeated
  | tagRepeated
  | documentEndExpected
  | unknownAnchor
  | nodeExpected
  | blockKeyExpected
  | flowMappingSeparator
  | flowSequenceSeparator
  | blockEntryExpected
  | undeclaredHandle
  deriving Repr, DecidableEq

def SyntaxCause.message : SyntaxCause → String
  | .keyWithoutColon => "simple key expect ':'"
  | .keyExpected => "simple key expected"
  | .tabIndentation => "tabs disallowed within this context (block indentation)"
  | .whitespaceExpected => "expected whitespace"
  | .commentWithoutBlank => "comments must be separated from other tokens by whitespace"
  | .contentAfterDocumentEnd => "invalid content after document end marker"
  | .invalidIndentation => "invalid indentation"
  | .unexpectedCharacter c => "unexpected character: \x60" ++ String.singleton c ++ "'"
  | .tooDeep => "recursion limit exceeded"
  | .entryInFlow => "\"-\" is only valid inside a block"
  | .entryNotAllowed => "block sequence entries are not allowed in this context"
  | .anchorIndentation => "invalid indentation for anchor"
  | .entryWithoutBlank => "'-' must be followed by a valid YAML whitespace"
  | .keyNotAllowed => "mapping keys are not allowed in this context"
  | .tabAfterKey => "tabs disallowed in this context"
  | .valueNotAllowed => "mapping values are not allowed in this context"
  | .valueWithoutBlank => "':' must be followed by a valid YAML whitespace"
  | .misplacedColon => "illegal placement of ':' indicator"
  | .noToken => "did not find expected next token"
  | .directiveTrailing =>
    "while scanning a directive, did not find expected comment or line break"
  | .versionDotExpected =>
    "while scanning a YAML directive, did not find expected digit or '.' character"
  | .directiveNameExpected =>
    "while scanning a directive, could not find expected directive name"
  | .directiveNameCharacter =>
    "while scanning a directive, found unexpected non-alphabetical character"
  | .versionTooLong =>
    "while scanning a YAML directive, found extremely long version number"
  | .versionExpected =>
    "while scanning a YAML directive, did not find expected version number"
  | .tagDirectiveTrailing =>
    "while scanning TAG, did not find expected whitespace or line break"
  | .tagTrailing => "while scanning a tag, did not find expected whitespace or line break"
  | .tagStart => "while scanning a tag, did not find expected '!'"
  | .tagDirectiveHandle => "while parsing a tag directive, did not find expected '!'"
  | .tagPrefixCharacter => "invalid global tag character"
  | .verbatimTagEnd => "while scanning a verbatim tag, did not find the expected '>'"
  | .tagSuffixExpected => "while parsing a tag, did not find expected tag URI"
  | .uriEscape => "while parsing a tag, found an invalid escape sequence"
  | .uriLeadingByte => "while parsing a tag, found an incorrect leading UTF-8 byte"
  | .uriTrailingByte => "while parsing a tag, found an incorrect trailing UTF-8 byte"
  | .uriCodePoint => "while parsing a tag, found an invalid UTF-8 codepoint"
  | .anchorNameExpected =>
    "while scanning an anchor or alias, did not find expected alphabetic or numeric character"
  | .blockIndentZero =>
    "while scanning a block scalar, found an indentation indicator equal to 0"
  | .blockHeaderTrailing =>
    "while scanning a block scalar, did not find expected comment or line break"
  | .blockStartsWithTab => "a block scalar content cannot start with a tab"
  | .blockIndentation => "wrongly indented line in block scalar"
  | .quotedDocumentMarker =>
    "while scanning a quoted scalar, found unexpected document indicator"
  | .quotedEndOfStream => "while scanning a quoted scalar, found unexpected end of stream"
  | .quotedIndentation => "invalid indentation in quoted scalar"
  | .quotedTab => "tab cannot be used as indentation"
  | .quotedTrailing => "invalid trailing content after double-quoted scalar"
  | .escapeUnknown => "while parsing a quoted scalar, found unknown escape character"
  | .escapeHexExpected =>
    "while parsing a quoted scalar, did not find expected hexadecimal number"
  | .escapeCodePoint =>
    "while parsing a quoted scalar, found invalid Unicode character escape code"
  | .plainFlowIndentation => "invalid indentation in flow construct"
  | .plainDash => "plain scalar cannot start with '-' followed by ,[]\x7b\x7d"
  | .plainTab => "while scanning a plain scalar, found a tab"
  | .streamStartExpected => "did not find expected <stream-start>"
  | .documentStartExpected => "did not find expected <document-start>"
  | .documentMarkerExpected => "did not find expected <document start>"
  | .versionRepeated => "duplicate version directive"
  | .tagRepeated =>
    "the TAG directive must only be given at most once per handle in the same document"
  | .documentEndExpected => "missing explicit document end marker before directive"
  | .unknownAnchor => "while parsing node, found unknown anchor"
  | .nodeExpected => "while parsing a node, did not find expected node content"
  | .blockKeyExpected => "while parsing a block mapping, did not find expected key"
  | .flowMappingSeparator =>
    "while parsing a flow mapping, did not find expected ',' or '\x7d'"
  | .flowSequenceSeparator => "while parsing a flow sequence, expected ',' or ']'"
  | .blockEntryExpected =>
    "while parsing a block collection, did not find expected '-' indicator"
  | .undeclaredHandle => "the handle wasn't declared"

structure SyntaxFault where
  cause : SyntaxCause
  position : Position
  deriving Repr, DecidableEq

/-- The sentence with its place: characters before it, line and column. -/
def SyntaxFault.message (f : SyntaxFault) : String :=
  f.cause.message ++ " at byte " ++ toString f.position.index ++ " line " ++
    toString f.position.line ++ " column " ++ toString (f.position.column + 1)

end ApiLint.Yaml
