import ScopeConfig.Config.NameSet
import ScopeConfig.Text.Visible

/-!
# Options from a settings file

A settings file is a TOML document whose only key, if any, is `experiments`; its value is an array
of strings. A well-formed file therefore holds comments, line ends, that key with its equals sign,
and an array, and it is read in two steps: into tokens, and from those into options. Strings may be
written in any of the four TOML forms, the key as a word or as a string on one line.
-/

namespace ScopeConfig.Settings

/-- A token of a settings file. `text` is a string that keeps to one line, `lines` one between
triple quotes. -/
inductive TomlToken where
  | word (s : String)
  | text (s : String)
  | lines (s : String)
  | assign
  | openArray
  | closeArray
  | comma
  | newline
deriving DecidableEq, Repr

namespace Toml

/-! ## Tokens -/

/-- Whether a character is a blank within a line. -/
def isBlank (c : Char) : Bool :=
  c = ' ' || c = '\t'

/-- Whether a character may stand in a comment or, unless it ends or escapes there, in a string:
every one but the controls, and the tab. -/
def isPlain (c : Char) : Bool :=
  c = '\t' || (0x20 ≤ c.toNat && c.toNat ≠ 0x7F)

/-- Whether a character may stand in a word. -/
def isWordChar (c : Char) : Bool :=
  c.isAlphanum || c = '_' || c = '-'

/-- The mark that a character is. -/
def mark? : Char → Option TomlToken
  | '=' => some .assign
  | '[' => some .openArray
  | ']' => some .closeArray
  | ',' => some .comma
  | '\n' => some .newline
  | _ => none

/-- The character that a letter after a backslash stands for. -/
def escaped? : Char → Option Char
  | '"' => some '"'
  | '\\' => some '\\'
  | 'b' => some '\x08'
  | 'f' => some '\x0c'
  | 'n' => some '\n'
  | 'r' => some '\r'
  | 't' => some '\t'
  | _ => none

/-- The character that an escape stands for, and the text after the escape, whose backslash was
read. -/
def escape? : List Char → Option (Char × List Char)
  | 'u' :: cs => (Text.hexChar? 4 cs).map (·, cs.drop 4)
  | 'U' :: cs => (Text.hexChar? 8 cs).map (·, cs.drop 8)
  | c :: cs => (escaped? c).map (·, cs)
  | [] => none

/-- Reading an escape leaves less than there was. -/
theorem escape?_length {cs rest : List Char} {c : Char} (h : escape? cs = some (c, rest)) :
    rest.length < cs.length := by
  unfold escape? at h
  split at h
  all_goals first
    | contradiction
    | obtain ⟨_, -, he⟩ := Option.map_eq_some_iff.1 h
      simp only [Prod.mk.injEq] at he
      obtain ⟨-, rfl⟩ := he
      simp only [List.length_drop, List.length_cons]
      omega

/-- Where the reader of a settings file is: between tokens, in a comment, in a word, in a string of
one of the four forms, or behind a backslash that ends a line of a string. The characters read so
far are kept last first; `fresh` says that nothing was read after the opening quotes, and `broken`
that a line end was seen after the backslash. -/
inductive Place where
  | between
  | comment
  | word (read : List Char)
  | basic (read : List Char)
  | literal (read : List Char)
  | basicLines (fresh : Bool) (read : List Char)
  | literalLines (fresh : Bool) (read : List Char)
  | folded (broken : Bool) (read : List Char)

/-- How often a place can be left without taking a character. -/
def Place.rank : Place → Nat
  | word _ => 1
  | folded _ _ => 1
  | _ => 0

/-- The text that was read. -/
def textOf (read : List Char) : String :=
  String.ofList read.reverse

/-- The tokens of a text, or `none` if anything else is in it. -/
def tokens? : Place → List Char → Option (List TomlToken)
  | .between, [] => some []
  | .between, '\r' :: '\n' :: cs => (tokens? .between cs).map (.newline :: ·)
  | .between, '"' :: '"' :: '"' :: cs => tokens? (.basicLines true []) cs
  | .between, '\'' :: '\'' :: '\'' :: cs => tokens? (.literalLines true []) cs
  | .between, c :: cs =>
    match mark? c with
    | some mark => (tokens? .between cs).map (mark :: ·)
    | none =>
      if isBlank c then tokens? .between cs
      else if c = '#' then tokens? .comment cs
      else if c = '"' then tokens? (.basic []) cs
      else if c = '\'' then tokens? (.literal []) cs
      else if isWordChar c then tokens? (.word [c]) cs
      else none
  | .comment, [] => some []
  | .comment, '\n' :: cs => (tokens? .between cs).map (.newline :: ·)
  | .comment, '\r' :: '\n' :: cs => (tokens? .between cs).map (.newline :: ·)
  | .comment, c :: cs => if isPlain c then tokens? .comment cs else none
  | .word read, [] => some [.word (textOf read)]
  | .word read, c :: cs =>
    if isWordChar c then tokens? (.word (c :: read)) cs
    else (tokens? .between (c :: cs)).map (.word (textOf read) :: ·)
  | .basic read, '"' :: cs => (tokens? .between cs).map (.text (textOf read) :: ·)
  | .basic read, '\\' :: cs =>
    match _h : escape? cs with
    | none => none
    | some (c, rest) => tokens? (.basic (c :: read)) rest
  | .basic read, c :: cs => if isPlain c then tokens? (.basic (c :: read)) cs else none
  | .literal read, '\'' :: cs => (tokens? .between cs).map (.text (textOf read) :: ·)
  | .literal read, c :: cs => if isPlain c then tokens? (.literal (c :: read)) cs else none
  | .basicLines true read, '\n' :: cs => tokens? (.basicLines false read) cs
  | .basicLines true read, '\r' :: '\n' :: cs => tokens? (.basicLines false read) cs
  | .basicLines _ read, '"' :: '"' :: '"' :: '"' :: '"' :: cs =>
    (tokens? .between cs).map (.lines (textOf ('"' :: '"' :: read)) :: ·)
  | .basicLines _ read, '"' :: '"' :: '"' :: '"' :: cs =>
    (tokens? .between cs).map (.lines (textOf ('"' :: read)) :: ·)
  | .basicLines _ read, '"' :: '"' :: '"' :: cs =>
    (tokens? .between cs).map (.lines (textOf read) :: ·)
  | .basicLines _ read, '\n' :: cs => tokens? (.basicLines false ('\n' :: read)) cs
  | .basicLines _ read, '\r' :: '\n' :: cs => tokens? (.basicLines false ('\n' :: read)) cs
  | .basicLines _ read, '\\' :: cs =>
    match _h : escape? cs with
    | none => tokens? (.folded false read) cs
    | some (c, rest) => tokens? (.basicLines false (c :: read)) rest
  | .basicLines _ read, c :: cs =>
    if isPlain c then tokens? (.basicLines false (c :: read)) cs else none
  | .folded _ read, '\n' :: cs => tokens? (.folded true read) cs
  | .folded _ read, '\r' :: '\n' :: cs => tokens? (.folded true read) cs
  | .folded broken read, c :: cs =>
    if isBlank c then tokens? (.folded broken read) cs
    else if broken then tokens? (.basicLines false read) (c :: cs)
    else none
  | .literalLines true read, '\n' :: cs => tokens? (.literalLines false read) cs
  | .literalLines true read, '\r' :: '\n' :: cs => tokens? (.literalLines false read) cs
  | .literalLines _ read, '\'' :: '\'' :: '\'' :: '\'' :: '\'' :: cs =>
    (tokens? .between cs).map (.lines (textOf ('\'' :: '\'' :: read)) :: ·)
  | .literalLines _ read, '\'' :: '\'' :: '\'' :: '\'' :: cs =>
    (tokens? .between cs).map (.lines (textOf ('\'' :: read)) :: ·)
  | .literalLines _ read, '\'' :: '\'' :: '\'' :: cs =>
    (tokens? .between cs).map (.lines (textOf read) :: ·)
  | .literalLines _ read, '\n' :: cs => tokens? (.literalLines false ('\n' :: read)) cs
  | .literalLines _ read, '\r' :: '\n' :: cs => tokens? (.literalLines false ('\n' :: read)) cs
  | .literalLines _ read, c :: cs =>
    if isPlain c then tokens? (.literalLines false (c :: read)) cs else none
  | _, [] => none
termination_by place cs => (cs.length, place.rank)
decreasing_by
  all_goals simp only [Prod.lex_def, List.length_cons, Place.rank]
  all_goals first
    | omega
    | have := escape?_length _h; omega
    | simp

/-! ## Options -/

mutual

/-- The strings of an array whose opening bracket or last comma was read, and the tokens after the
array. Line ends do not count. -/
def texts? : List TomlToken → Option (List String × List TomlToken)
  | .closeArray :: rest => some ([], rest)
  | .newline :: rest => texts? rest
  | .text s :: rest => (moreTexts? rest).map fun (texts, rest) => (s :: texts, rest)
  | .lines s :: rest => (moreTexts? rest).map fun (texts, rest) => (s :: texts, rest)
  | _ => none

/-- The strings of an array after one of them, and the tokens after the array. -/
def moreTexts? : List TomlToken → Option (List String × List TomlToken)
  | .closeArray :: rest => some ([], rest)
  | .newline :: rest => moreTexts? rest
  | .comma :: rest => texts? rest
  | _ => none

end

/-- Whether a token is the key for experiments. -/
def isKey (token : TomlToken) : Bool :=
  token = .word "experiments" || token = .text "experiments"

/-- The experiments that the tokens of a file enable. -/
def experiments? (tokens : List TomlToken) : Option (List String) :=
  match tokens.dropWhile (· = .newline) with
  | [] => some []
  | key :: .assign :: .openArray :: rest =>
    match texts? rest with
    | some (names, after) =>
      if isKey key && after.all (· = .newline) then some names else none
    | none => none
  | _ => none

/-- A text without the byte order mark that it may start with. -/
def withoutMark : List Char → List Char
  | '\uFEFF' :: cs => cs
  | cs => cs

end Toml

/-- The options that a settings file gives, if it is well formed. -/
def ofToml? (s : String) : Option Options :=
  ((Toml.tokens? .between (Toml.withoutMark s.toList)).bind Toml.experiments?).map
    (Options.enable default)

end ScopeConfig.Settings
