import PipelineExpansion.Yaml.Mark

/-!
# What can be wrong with the text of a document

`Fault` lists the ways in which a text fails to be a YAML document; `Fault.message` words each of them.
A fault is reported at a mark.
-/

namespace PipelineExpansion.Yaml

/-- A way in which a text fails to be a YAML document. -/
inductive Fault where
  | blockTab
  | whitespaceExpected
  | commentNotSeparated
  | keyWithoutColon
  | keyExpected
  | afterDocumentEnd
  | indentation
  | unexpectedCharacter (c : Char)
  | directiveTail
  | directiveName
  | directiveNameCharacter
  | versionPoint
  | versionLong
  | versionMissing
  | tagBang
  | tagDirectiveBang
  | tagDirectiveTail
  | tagStart
  | tagVerbatimClose
  | tagAddress
  | tagEscape
  | tagLeadingByte
  | tagTrailingByte
  | tagCodePoint
  | tagTail
  | anchorName
  | nesting
  | flowHyphen
  | entryNotAllowed
  | anchorIndentation
  | entryTab
  | blockIndicatorZero
  | blockHeaderTail
  | blockTabStart
  | blockIndentation
  | quotedDocumentIndicator
  | quotedUnclosed
  | quotedIndentation
  | quotedTab
  | quotedEscape
  | quotedHex
  | quotedCodePoint
  | quotedTail
  | keyNotAllowed
  | keyTab
  | valueTab
  | colonPlacement
  | valueNotAllowed
  | flowIndentation
  | plainHyphen
  | plainTab
  | plainEmpty
  | tokenExpected
  | endReached
  | documentStartExpected
  | directiveTwice
  | directiveWithoutEnd
  | anchorUnknown
  | handleUndeclared
  | nodeExpected
  | blockKeyExpected
  | flowMappingClose
  | flowSequenceClose
  | blockEntryExpected
deriving DecidableEq, Repr

/-- The wording of a fault. -/
def Fault.message : Fault → String
  | blockTab => "tabs disallowed within this context (block indentation)"
  | whitespaceExpected => "expected whitespace"
  | commentNotSeparated => "comments must be separated from other tokens by whitespace"
  | keyWithoutColon => "simple key expect ':'"
  | keyExpected => "simple key expected"
  | afterDocumentEnd => "invalid content after document end marker"
  | indentation => "invalid indentation"
  | unexpectedCharacter c => "unexpected character: `" ++ c.toString ++ "'"
  | directiveTail => "while scanning a directive, did not find expected comment or line break"
  | directiveName => "while scanning a directive, could not find expected directive name"
  | directiveNameCharacter =>
      "while scanning a directive, found unexpected non-alphabetical character"
  | versionPoint =>
      "while scanning a YAML directive, did not find expected digit or '.' character"
  | versionLong => "while scanning a YAML directive, found extremely long version number"
  | versionMissing => "while scanning a YAML directive, did not find expected version number"
  | tagBang => "while scanning a tag, did not find expected '!'"
  | tagDirectiveBang => "while parsing a tag directive, did not find expected '!'"
  | tagDirectiveTail => "while scanning TAG, did not find expected whitespace or line break"
  | tagStart => "invalid global tag character"
  | tagVerbatimClose => "while scanning a verbatim tag, did not find the expected '>'"
  | tagAddress => "while parsing a tag, did not find expected tag URI"
  | tagEscape => "while parsing a tag, did not find URI escaped octet"
  | tagLeadingByte => "while parsing a tag, found an incorrect leading UTF-8 octet"
  | tagTrailingByte => "while parsing a tag, found an incorrect trailing UTF-8 octet"
  | tagCodePoint => "while parsing a tag, found an invalid UTF-8 codepoint"
  | tagTail => "while scanning a tag, did not find expected whitespace or line break"
  | anchorName =>
      "while scanning an anchor or alias, did not find expected alphabetic or numeric character"
  | nesting => "recursion limit exceeded"
  | flowHyphen => "\"-\" is only valid inside a block"
  | entryNotAllowed => "block sequence entries are not allowed in this context"
  | anchorIndentation => "invalid indentation for anchor"
  | entryTab => "'-' must be followed by a valid YAML whitespace"
  | blockIndicatorZero =>
      "while scanning a block scalar, found an indentation indicator equal to 0"
  | blockHeaderTail =>
      "while scanning a block scalar, did not find expected comment or line break"
  | blockTabStart => "a block scalar content cannot start with a tab"
  | blockIndentation => "wrongly indented line in block scalar"
  | quotedDocumentIndicator =>
      "while scanning a quoted scalar, found unexpected document indicator"
  | quotedUnclosed => "while scanning a quoted scalar, found unexpected end of stream"
  | quotedIndentation => "invalid indentation in quoted scalar"
  | quotedTab => "tab cannot be used as indentation"
  | quotedEscape => "while parsing a quoted scalar, found unknown escape character"
  | quotedHex =>
      "while parsing a quoted scalar, did not find expected hexadecimal number"
  | quotedCodePoint =>
      "while parsing a quoted scalar, found invalid Unicode character escape code"
  | quotedTail => "invalid trailing content after double-quoted scalar"
  | keyNotAllowed => "mapping keys are not allowed in this context"
  | keyTab => "tabs disallowed in this context"
  | valueTab => "':' must be followed by a valid YAML whitespace"
  | colonPlacement => "illegal placement of ':' indicator"
  | valueNotAllowed => "mapping values are not allowed in this context"
  | flowIndentation => "invalid indentation in flow construct"
  | plainHyphen => "plain scalar cannot start with '-' followed by ,[]\x7b\x7d"
  | plainTab => "while scanning a plain scalar, found a tab"
  | plainEmpty => "unexpected end of plain scalar"
  | tokenExpected => "did not find expected next token"
  | endReached => "unexpected eof"
  | documentStartExpected => "did not find expected <document start>"
  | directiveTwice => "duplicate version directive"
  | directiveWithoutEnd => "missing explicit document end marker before directive"
  | anchorUnknown => "while parsing node, found unknown anchor"
  | handleUndeclared => "the handle wasn't declared"
  | nodeExpected => "while parsing a node, did not find expected node content"
  | blockKeyExpected => "while parsing a block mapping, did not find expected key"
  | flowMappingClose => "while parsing a flow mapping, did not find expected ',' or '\x7d'"
  | flowSequenceClose => "while parsing a flow sequence, expected ',' or ']'"
  | blockEntryExpected =>
      "while parsing a block collection, did not find expected '-' indicator"

/-- A fault, at the position where it was noticed. -/
structure FaultAt where
  fault : Fault
  mark : Mark
deriving DecidableEq, Repr

end PipelineExpansion.Yaml
