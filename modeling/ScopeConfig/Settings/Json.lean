import ScopeConfig.Config.NameSet
import ScopeConfig.Text.Visible

/-!
# Options from JSON

Options are given as an object whose only key, if any, is `experiments`, or as a list whose only
item, if any, is the value of that key. The value is a list of strings. So nothing but marks and
strings can occur in a well-formed text, and it is read in two steps: into marks and strings, and
from those into options.
-/

namespace ScopeConfig.Settings

/-- A mark or a string of a JSON text. -/
inductive JsonToken where
  | openList
  | closeList
  | openRecord
  | closeRecord
  | comma
  | colon
  | text (s : String)
deriving DecidableEq, Repr

namespace Json

/-! ## Marks and strings -/

/-- The mark that a character is. -/
def mark? : Char → Option JsonToken
  | '[' => some .openList
  | ']' => some .closeList
  | '\x7b' => some .openRecord
  | '\x7d' => some .closeRecord
  | ',' => some .comma
  | ':' => some .colon
  | _ => none

/-- Whether a character may stand between marks and strings. -/
def isBlank (c : Char) : Bool :=
  c = ' ' || c = '\t' || c = '\n' || c = '\r'

/-- The character that a letter after a backslash stands for. -/
def escaped? : Char → Option Char
  | '"' => some '"'
  | '\\' => some '\\'
  | '/' => some '/'
  | 'b' => some '\x08'
  | 'f' => some '\x0c'
  | 'n' => some '\n'
  | 'r' => some '\r'
  | 't' => some '\t'
  | _ => none

/-- Whether a UTF-16 unit is the first of a pair. -/
def isLeading (unit : Nat) : Bool :=
  0xD800 ≤ unit && unit < 0xDC00

/-- Whether a UTF-16 unit is the second of a pair. -/
def isTrailing (unit : Nat) : Bool :=
  0xDC00 ≤ unit && unit < 0xE000

/-- The character that a pair of UTF-16 units stands for. -/
def pairChar (leading trailing : Nat) : Char :=
  Char.ofNat (0x10000 + (leading - 0xD800) * 0x400 + (trailing - 0xDC00))

/-- Where the reader of a JSON text is: between tokens, inside a string of which the characters of
`read` were read, last first, or there behind the first unit of a pair. -/
inductive Place where
  | between
  | within (read : List Char)
  | amid (read : List Char) (leading : Nat)

/-- The marks and strings of a text, or `none` if anything else is in it. -/
def tokens? : Place → List Char → Option (List JsonToken)
  | .between, [] => some []
  | .between, c :: cs =>
    match mark? c with
    | some mark => (tokens? .between cs).map (mark :: ·)
    | none =>
      if c = '"' then tokens? (.within []) cs
      else if isBlank c then tokens? .between cs
      else none
  | .within read, '"' :: cs =>
    (tokens? .between cs).map (.text (String.ofList read.reverse) :: ·)
  | .within read, '\\' :: 'u' :: a :: b :: c :: d :: cs =>
    match Text.hexValue? [a, b, c, d] with
    | none => none
    | some unit =>
      if isLeading unit then tokens? (.amid read unit) cs
      else if isTrailing unit then none
      else tokens? (.within (Char.ofNat unit :: read)) cs
  | .within read, '\\' :: c :: cs =>
    match escaped? c with
    | none => none
    | some d => tokens? (.within (d :: read)) cs
  | .within read, c :: cs =>
    if c.toNat < 0x20 then none else tokens? (.within (c :: read)) cs
  | .within _, [] => none
  | .amid read leading, '\\' :: 'u' :: a :: b :: c :: d :: cs =>
    match Text.hexValue? [a, b, c, d] with
    | none => none
    | some unit =>
      if isTrailing unit then tokens? (.within (pairChar leading unit :: read)) cs else none
  | .amid _ _, _ => none

/-! ## Options -/

/-- The strings that follow one in a list, and the tokens after the list. -/
def moreTexts? : List JsonToken → Option (List String × List JsonToken)
  | .closeList :: rest => some ([], rest)
  | .comma :: .text s :: rest => (moreTexts? rest).map fun (texts, rest) => (s :: texts, rest)
  | _ => none

/-- The strings of a list whose opening bracket was read, and the tokens after the list. -/
def texts? : List JsonToken → Option (List String × List JsonToken)
  | .closeList :: rest => some ([], rest)
  | .text s :: rest => (moreTexts? rest).map fun (texts, rest) => (s :: texts, rest)
  | _ => none

/-- The experiments that the tokens of a text enable. -/
def experiments? : List JsonToken → Option (List String)
  | [.openRecord, .closeRecord] => some []
  | [.openList, .closeList] => some []
  | .openRecord :: .text "experiments" :: .colon :: .openList :: rest =>
    match texts? rest with
    | some (names, [.closeRecord]) => some names
    | _ => none
  | .openList :: .openList :: rest =>
    match texts? rest with
    | some (names, [.closeList]) => some names
    | _ => none
  | _ => none

end Json

/-- The options that a JSON text gives, if it is well formed. -/
def ofJson? (s : String) : Option Options :=
  ((Json.tokens? .between s.toList).bind Json.experiments?).map (Options.enable default)

end ScopeConfig.Settings
