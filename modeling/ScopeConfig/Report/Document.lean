import ScopeConfig.Text.Visible

/-!
# JSON documents

The values that machine-readable output is made of, and the two ways to write one: on one line, and
laid out with each item and field on its own line. Fields are written in the order they are given
in. Numbers are counts, since nothing else is ever reported.
-/

namespace ScopeConfig

/-- A JSON value. -/
inductive Document where
  | null
  | flag (b : Bool)
  | count (n : Nat)
  | text (s : String)
  | list (items : List Document)
  | record (fields : List (String × Document))
deriving Repr, Inhabited

namespace Document

/-! ## Texts -/

/-- How one character is written inside a JSON string: the quote, the backslash and the controls
are escaped, all else is as it is. -/
def textChar (c : Char) : List Char :=
  if c = '"' then ['\\', '"']
  else if c = '\\' then ['\\', '\\']
  else if c = '\n' then ['\\', 'n']
  else if c = '\r' then ['\\', 'r']
  else if c = '\t' then ['\\', 't']
  else if c = '\x08' then ['\\', 'b']
  else if c = '\x0c' then ['\\', 'f']
  else if c.toNat < 0x20 then
    ['\\', 'u', '0', '0', Nat.digitChar (c.toNat / 16), Nat.digitChar (c.toNat % 16)]
  else [c]

/-- A JSON string. -/
def quote (s : String) : String :=
  String.ofList ('"' :: s.toList.flatMap textChar ++ ['"'])

/-! ## On one line -/

mutual

/-- The document without any blanks. -/
def compact : Document → String
  | null => "null"
  | flag b => if b then "true" else "false"
  | count n => toString n
  | text s => quote s
  | list items => "[" ++ compactItems "" items ++ "]"
  | record fields => "\x7b" ++ compactFields "" fields ++ "\x7d"

/-- The items of a list, the first after `start` and every other one after a comma. -/
def compactItems (start : String) : List Document → String
  | [] => ""
  | d :: ds => start ++ d.compact ++ compactItems "," ds

/-- The fields of a record, the first after `start` and every other one after a comma. -/
def compactFields (start : String) : List (String × Document) → String
  | [] => ""
  | (name, d) :: fields => start ++ quote name ++ ":" ++ d.compact ++ compactFields "," fields

end

/-! ## On many lines -/

/-- The start of a line at a depth: two spaces for each level. -/
def lineStart (depth : Nat) : String :=
  "\n" ++ String.ofList (List.replicate (2 * depth) ' ')

mutual

/-- The document at a depth, every item and field on a line of its own. -/
def layout (depth : Nat) : Document → String
  | null => "null"
  | flag b => if b then "true" else "false"
  | count n => toString n
  | text s => quote s
  | list [] => "[]"
  | list (d :: ds) =>
    "[" ++ lineStart (depth + 1) ++ d.layout (depth + 1) ++ layoutItems (depth + 1) ds ++
      lineStart depth ++ "]"
  | record [] => "\x7b\x7d"
  | record ((name, d) :: fields) =>
    "\x7b" ++ lineStart (depth + 1) ++ quote name ++ ": " ++ d.layout (depth + 1) ++
      layoutFields (depth + 1) fields ++ lineStart depth ++ "\x7d"

/-- The items of a list after the first. -/
def layoutItems (depth : Nat) : List Document → String
  | [] => ""
  | d :: ds => "," ++ lineStart depth ++ d.layout depth ++ layoutItems depth ds

/-- The fields of a record after the first. -/
def layoutFields (depth : Nat) : List (String × Document) → String
  | [] => ""
  | (name, d) :: fields =>
    "," ++ lineStart depth ++ quote name ++ ": " ++ d.layout depth ++ layoutFields depth fields

end

/-- The document on many lines. -/
def pretty (d : Document) : String :=
  d.layout 0

/-! ## Building -/

/-- The document of an optional value, `null` if there is none. -/
def orNull {α : Type} (encode : α → Document) : Option α → Document
  | some a => encode a
  | none => .null

/-- A field that is left out if there is no value. -/
def fieldIfSome {α : Type} (name : String) (encode : α → Document) :
    Option α → List (String × Document)
  | some a => [(name, encode a)]
  | none => []

/-- The document of a list. -/
def ofList {α : Type} (encode : α → Document) (items : List α) : Document :=
  .list (items.map encode)

/-- The document of a list of texts. -/
def texts (items : List String) : Document :=
  ofList .text items

end Document

end ScopeConfig
