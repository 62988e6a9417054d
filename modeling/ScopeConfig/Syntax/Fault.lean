import ScopeConfig.Syntax.Token

/-!
# Faults of the notation

What can be wrong with a text before any block is looked at, and the words for it. The first group
is found while reading tokens, the second while reading attributes and blocks.
-/

namespace ScopeConfig.Syntax

/-- A reason for which a text is not a configuration file. -/
inductive Fault where
  | openComment
  | strayCharacter (c : Char)
  | openString
  | openEscape
  | openTemplate
  | heredocMarker
  | openHeredoc (marker : String)
  | expectedEntry (next : Option Token)
  | redefined (name : String) (first : SourceRange)
  | templateLabel
  | expectedHeader (next : Option Token)
  | openBlock (blockType : String)
  | expectedNewline (next : Option Token)
  | openBracket
  | strayClosing (s : Symbol)
  | missingExpression
deriving DecidableEq, Repr

/-- The words for a fault. -/
def Fault.message : Fault → String
  | openComment => "unterminated block comment"
  | strayCharacter c => s!"unexpected character '{c}'"
  | openString => "unterminated string literal"
  | openEscape => "unterminated escape in string"
  | openTemplate => "unterminated template sequence"
  | heredocMarker => "invalid heredoc: expected marker followed by newline"
  | openHeredoc marker => s!"unterminated heredoc, missing '{marker}'"
  | expectedEntry next => s!"expected attribute or block, got {shownNext next}"
  | redefined name first =>
    s!"attribute {Text.quote name} redefined (first defined at {first.text})"
  | templateLabel => "template sequences are not allowed in block labels"
  | expectedHeader next => "expected '=', a block label or '\x7b', got " ++ shownNext next
  | openBlock blockType => s!"unclosed block {Text.quote blockType}"
  | expectedNewline next => s!"expected newline after item, got {shownNext next}"
  | openBracket => "unclosed bracket in expression"
  | strayClosing s => s!"unexpected {s.label} in expression"
  | missingExpression => "expected an expression"

end ScopeConfig.Syntax
