import ScopeConfig.Text.Visible
import ScopeConfig.Source.Position

/-!
# Tokens

The tokens of the configuration notation. Words are identifiers and keywords alike; numbers keep
their spelling; a string holds its value and whether it is a template, that is, has `${...}` or
`%{...}` sequences left in it. A newline is a token because it ends an attribute.

A token stream is the tokens with the places where they stand, and the place where the text ends.
-/

namespace ScopeConfig.Syntax

/-- Punctuation and operators. -/
inductive Symbol where
  | lbrace | rbrace | lbracket | rbracket | lparen | rparen
  | assign | comma | dot | ellipsis | colon | question | fatArrow
  | eq | neq | lt | lte | gt | gte
  | plus | minus | star | slash | percent
  | and | or | bang
deriving DecidableEq, Repr

/-- The name that messages give a symbol. -/
def Symbol.label : Symbol → String
  | lbrace => "LBrace"
  | rbrace => "RBrace"
  | lbracket => "LBracket"
  | rbracket => "RBracket"
  | lparen => "LParen"
  | rparen => "RParen"
  | assign => "Assign"
  | comma => "Comma"
  | dot => "Dot"
  | ellipsis => "Ellipsis"
  | colon => "Colon"
  | question => "Question"
  | fatArrow => "FatArrow"
  | eq => "Eq"
  | neq => "Neq"
  | lt => "Lt"
  | lte => "Lte"
  | gt => "Gt"
  | gte => "Gte"
  | plus => "Plus"
  | minus => "Minus"
  | star => "Star"
  | slash => "Slash"
  | percent => "Percent"
  | and => "And"
  | or => "Or"
  | bang => "Bang"

/-- Whether a symbol opens a bracket. -/
def Symbol.opens : Symbol → Bool
  | lparen | lbracket | lbrace => true
  | _ => false

/-- Whether a symbol closes a bracket. -/
def Symbol.closes : Symbol → Bool
  | rparen | rbracket | rbrace => true
  | _ => false

/-- A token of the notation. -/
inductive Token where
  | word (text : String)
  | number (text : String)
  | str (value : String) (template : Bool)
  | symbol (s : Symbol)
  | newline
deriving DecidableEq, Repr

/-- How messages show a token. -/
def Token.shown : Token → String
  | word text => s!"Ident({Text.quote text})"
  | number text => s!"Number({Text.quote text})"
  | str value template =>
    "Str \x7b value: " ++ Text.quote value ++ ", template: " ++
      (if template then "true" else "false") ++ " \x7d"
  | symbol s => s.label
  | newline => "Newline"

/-- How messages show what comes next: a token, or the end of the text. -/
def shownNext : Option Token → String
  | some t => t.shown
  | none => "Eof"

/-- A token with the places where it starts and stops. -/
structure Located where
  token : Token
  start : Pos
  stop : Pos
deriving DecidableEq, Repr

/-- The range of a token in a file. -/
def Located.range (t : Located) (file : String) : SourceRange :=
  ⟨file, t.start, t.stop⟩

/-- The tokens of a text in order, and the place where the text ends. -/
structure TokenStream where
  tokens : List Located
  stop : Pos
deriving DecidableEq, Repr

end ScopeConfig.Syntax
