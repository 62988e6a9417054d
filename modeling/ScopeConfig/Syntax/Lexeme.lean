import ScopeConfig.Syntax.Fault
import ScopeConfig.Text.Letter
import ScopeConfig.Text.Split

/-!
# Reading tokens

A reader looks at the front of a text and answers with an outcome and the number of characters it
used, those before a fault included. What it used is the first part of the text and what comes next
is the rest, so places are computed in one spot only, in `tokensFrom`, from the text that was used.

Quoted strings are read by one machine with three modes: in plain text, in a template sequence and
in a string nested in one. Heredocs are read line by line.
-/

namespace ScopeConfig.Syntax

/-- What a reader found at the front of a text, and how many characters it used for that. -/
structure Reading (α : Type) where
  outcome : Except Fault α
  used : Nat

namespace Reading

variable {α β : Type}

/-- A result after `used` characters. -/
def found (value : α) (used : Nat) : Reading α := ⟨.ok value, used⟩

/-- A fault after `used` characters. -/
def fault (f : Fault) (used : Nat) : Reading α := ⟨.error f, used⟩

/-- The reading of a text that has `n` more characters in front, which change the result by `g`. -/
def after (n : Nat) (g : α → β) (r : Reading α) : Reading β := ⟨r.outcome.map g, n + r.used⟩

end Reading

/-! ## Comments -/

/-- Reads a block comment after its opening. -/
def commentEnd : List Char → Reading Unit
  | [] => .fault .openComment 0
  | '*' :: '/' :: _ => .found () 2
  | _ :: cs => (commentEnd cs).after 1 id

/-! ## Numbers -/

/-- The digits at the front of a text. -/
def digits (cs : List Char) : List Char :=
  cs.takeWhile Char.isDigit

/-- The fraction at the front of a text: a point counts only before a digit. -/
def fraction : List Char → List Char
  | '.' :: d :: cs => if d.isDigit then '.' :: digits (d :: cs) else []
  | _ => []

/-- The digits of an exponent, with the sign before them if there is one. -/
def signedDigits : List Char → List Char
  | '+' :: cs => if digits cs = [] then [] else '+' :: digits cs
  | '-' :: cs => if digits cs = [] then [] else '-' :: digits cs
  | cs => digits cs

/-- The exponent at the front of a text: its letter counts only before digits. -/
def exponent : List Char → List Char
  | c :: cs =>
    if (c = 'e' || c = 'E') && signedDigits cs ≠ [] then c :: signedDigits cs else []
  | [] => []

/-- The number at the front of a text. -/
def numeral (cs : List Char) : List Char :=
  let whole := digits cs
  let part := fraction (cs.drop whole.length)
  whole ++ part ++ exponent (cs.drop (whole.length + part.length))

/-! ## Words -/

/-- Whether a word may start with a character. -/
def startsWord (c : Char) : Bool :=
  Text.isLetter c || c = '_'

/-- Whether a word may go on with a character. -/
def continuesWord (c : Char) : Bool :=
  Text.isLetterOrNumber c || c = '_' || c = '-'

/-! ## Quoted strings -/

/-- Where the reader of a quoted string is: in plain text, in a template sequence with so many
braces open, or in a string nested in such a sequence. -/
inductive Mode where
  | plain
  | template (depth : Nat)
  | nested (depth : Nat)
deriving DecidableEq, Repr

/-- What a backslash and the character after it stand for; an unknown escape stays as written. -/
def unescape : Char → List Char
  | '"' => ['"']
  | '\\' => ['\\']
  | 'n' => ['\n']
  | 'r' => ['\r']
  | 't' => ['\t']
  | c => ['\\', c]

/-- Puts characters in front of a string's value. -/
def prepend (cs : List Char) (value : List Char × Bool) : List Char × Bool :=
  (cs ++ value.1, value.2)

/-- Puts the opening of a template sequence in front of a string's value. -/
def prependOpening (c : Char) (value : List Char × Bool) : List Char × Bool :=
  (c :: '\x7b' :: value.1, true)

/-- Whether a character opens a template sequence when a brace follows. -/
def isTemplateMark (c : Char) : Bool :=
  c = '$' || c = '%'

/-- Reads a quoted string after its opening quote, up to and with its closing quote. The result is
its value and whether it is a template. -/
def quotedRest : Mode → List Char → Reading (List Char × Bool)
  | .plain, [] => .fault .openString 0
  | .plain, c :: cs =>
    if c = '"' then .found ([], false) 1
    else if c = '\n' then .fault .openString 0
    else if c = '\\' then
      match cs with
      | [] => .fault .openEscape 1
      | e :: cs => (quotedRest .plain cs).after 2 (prepend (unescape e))
    else if isTemplateMark c then
      match cs with
      | '\x7b' :: cs => (quotedRest (.template 1) cs).after 2 (prependOpening c)
      | d :: '\x7b' :: cs =>
        if d = c then (quotedRest .plain cs).after 3 (prepend [c, '\x7b'])
        else (quotedRest .plain (d :: '\x7b' :: cs)).after 1 (prepend [c])
      | cs => (quotedRest .plain cs).after 1 (prepend [c])
    else (quotedRest .plain cs).after 1 (prepend [c])
  | .template _, [] => .fault .openTemplate 0
  | .template depth, c :: cs =>
    if c = '\x7b' then (quotedRest (.template (depth + 1)) cs).after 1 (prepend [c])
    else if c = '\x7d' then
      if depth ≤ 1 then (quotedRest .plain cs).after 1 (prepend [c])
      else (quotedRest (.template (depth - 1)) cs).after 1 (prepend [c])
    else if c = '"' then (quotedRest (.nested depth) cs).after 1 (prepend [c])
    else if c = '\n' then .fault .openTemplate 1
    else (quotedRest (.template depth) cs).after 1 (prepend [c])
  | .nested _, [] => .fault .openTemplate 0
  | .nested depth, c :: cs =>
    if c = '\\' then
      match cs with
      | [] => .fault .openTemplate 1
      | e :: cs => (quotedRest (.nested depth) cs).after 2 (prepend [c, e])
    else if c = '"' then (quotedRest (.template depth) cs).after 1 (prepend [c])
    else if c = '\n' then .fault .openString 1
    else (quotedRest (.nested depth) cs).after 1 (prepend [c])

/-- The token of a string with this value. -/
def strToken (value : List Char × Bool) : Token :=
  .str (String.ofList value.1) value.2

/-! ## Heredocs -/

/-- Reads the lines of a heredoc up to the line that holds its marker, given all the lines that
follow the opening. -/
def heredocLines (marker : List Char) : List (List Char) → Reading (List (List Char))
  | [] => .fault (.openHeredoc (String.ofList marker)) 0
  | [last] =>
    if Text.trim last = marker then .found [] last.length
    else .fault (.openHeredoc (String.ofList marker)) last.length
  | line :: lines =>
    if Text.trim line = marker then .found [] line.length
    else (heredocLines marker lines).after (line.length + 1) (line :: ·)

/-- The length in bytes of the blanks at the front of a line. -/
def indentBytes (line : List Char) : Nat :=
  (line.takeWhile Text.isBlank).foldr (·.utf8Size + ·) 0

/-- The least indentation of the lines that are not blank. -/
def commonIndent (lines : List (List Char)) : Nat :=
  (((lines.filter fun line => !line.all Text.isBlank).map indentBytes).min?).getD 0

/-- Whether a template sequence opens somewhere in a text. -/
def hasTemplate : List Char → Bool
  | c :: d :: cs => (isTemplateMark c && d = '\x7b') || hasTemplate (d :: cs)
  | _ => false

/-- The value of a heredoc with these lines: each line ends with a newline, and the indented form
drops the common indentation. -/
def heredocValue (indented : Bool) (lines : List (List Char)) : List Char × Bool :=
  let indent := if indented then commonIndent lines else 0
  let lines := lines.map (·.drop indent)
  let value := lines.flatMap (· ++ ['\n'])
  (value, hasTemplate value)

/-- Whether a heredoc's marker may hold a character. -/
def inMarker (c : Char) : Bool :=
  Text.isLetterOrNumber c || c = '_'

/-- Reads a heredoc from its marker on. -/
def heredocFrom (indented : Bool) (cs : List Char) : Reading (List Char × Bool) :=
  let marker := cs.takeWhile inMarker
  match marker, cs.drop marker.length with
  | _ :: _, '\n' :: rest =>
    (heredocLines marker (Text.splitAt '\n' rest)).after (marker.length + 1)
      (heredocValue indented)
  | _, _ => .fault .heredocMarker marker.length

/-- Reads a heredoc after its opening angles. -/
def heredoc : List Char → Reading (List Char × Bool)
  | '-' :: cs => (heredocFrom true cs).after 1 id
  | cs => heredocFrom false cs

/-! ## Symbols -/

/-- The symbol that starts with a character, and how many of the following characters belong to
it. -/
def symbol? (c : Char) (cs : List Char) : Option (Symbol × Nat) :=
  match c, cs with
  | '=', '=' :: _ => some (.eq, 1)
  | '=', '>' :: _ => some (.fatArrow, 1)
  | '!', '=' :: _ => some (.neq, 1)
  | '<', '=' :: _ => some (.lte, 1)
  | '>', '=' :: _ => some (.gte, 1)
  | '&', '&' :: _ => some (.and, 1)
  | '|', '|' :: _ => some (.or, 1)
  | '.', '.' :: '.' :: _ => some (.ellipsis, 2)
  | '=', _ => some (.assign, 0)
  | '!', _ => some (.bang, 0)
  | '<', _ => some (.lt, 0)
  | '>', _ => some (.gt, 0)
  | '\x7b', _ => some (.lbrace, 0)
  | '\x7d', _ => some (.rbrace, 0)
  | '[', _ => some (.lbracket, 0)
  | ']', _ => some (.rbracket, 0)
  | '(', _ => some (.lparen, 0)
  | ')', _ => some (.rparen, 0)
  | ',', _ => some (.comma, 0)
  | '.', _ => some (.dot, 0)
  | ':', _ => some (.colon, 0)
  | '?', _ => some (.question, 0)
  | '+', _ => some (.plus, 0)
  | '-', _ => some (.minus, 0)
  | '*', _ => some (.star, 0)
  | '/', _ => some (.slash, 0)
  | '%', _ => some (.percent, 0)
  | _, _ => none

/-! ## One lexeme -/

/-- Reads the lexeme that starts with the character `c`: a token, or text that is skipped. The
characters it counts are those used after `c`. -/
def lexeme (c : Char) (cs : List Char) : Reading (Option Token) :=
  if c = '#' || (c = '/' && cs.head? = some '/') then
    .found none (cs.takeWhile (· ≠ '\n')).length
  else if c = '/' && cs.head? = some '*' then
    (commentEnd cs.tail).after 1 fun _ => none
  else if c = '\n' then .found (some .newline) 0
  else if Text.isBlank c then .found none 0
  else if c = '"' then (quotedRest .plain cs).after 0 fun value => some (strToken value)
  else if c = '<' && cs.head? = some '<' then
    (heredoc cs.tail).after 1 fun value => some (strToken value)
  else if c.isDigit then
    let text := numeral (c :: cs)
    .found (some (.number (String.ofList text))) (text.length - 1)
  else if startsWord c then
    let rest := cs.takeWhile continuesWord
    .found (some (.word (String.ofList (c :: rest)))) rest.length
  else
    match symbol? c cs with
    | some (s, used) => .found (some (.symbol s)) used
    | none => .fault (.strayCharacter c) 0

/-! ## All tokens of a text -/

/-- A fault with the stretch of text that it was found in. -/
structure LocatedFault where
  fault : Fault
  start : Pos
  stop : Pos
deriving DecidableEq, Repr

/-- The range of a fault in a file. -/
def LocatedFault.range (f : LocatedFault) (file : String) : SourceRange :=
  ⟨file, f.start, f.stop⟩

/-- Puts a token in front of a stream. -/
def TokenStream.push (t : Located) (s : TokenStream) : TokenStream :=
  { s with tokens := t :: s.tokens }

/-- The tokens of a text that starts at a place, or the first fault. -/
def tokensFrom (start : Pos) : List Char → Except LocatedFault TokenStream
  | [] => .ok ⟨[], start⟩
  | c :: cs =>
    let reading := lexeme c cs
    let stop := (start.next c).after (cs.take reading.used)
    match reading.outcome with
    | .error f => .error ⟨f, start, stop⟩
    | .ok none => tokensFrom stop (cs.drop reading.used)
    | .ok (some token) =>
      (tokensFrom stop (cs.drop reading.used)).map (·.push ⟨token, start, stop⟩)
termination_by cs => cs.length
decreasing_by all_goals (simp only [List.length_cons, List.length_drop]; omega)

/-- The tokens of a whole text. -/
def tokens (source : String) : Except LocatedFault TokenStream :=
  tokensFrom .first source.toList

end ScopeConfig.Syntax
