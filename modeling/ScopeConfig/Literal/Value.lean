import ScopeConfig.Literal.Double
import ScopeConfig.Text.Visible

/-!
# Values of literal expressions

What an expression can be known to mean without an evaluation context: the null value, truth
values, numbers, texts, and lists and objects of those. Object fields keep the order in which they
were written.
-/

namespace ScopeConfig.Literal

/-- A value known from the text of its expression alone. -/
inductive Value where
  | null
  | bool (b : Bool)
  | number (d : Double)
  | text (s : String)
  | list (items : List Value)
  | object (fields : List (String × Value))
deriving Repr, Inhabited

/-- The kinds of values. -/
inductive ValueKind where
  | null | bool | number | text | list | object
deriving DecidableEq, Repr

/-- The name that messages give a kind of values. -/
def ValueKind.label : ValueKind → String
  | null => "null"
  | bool => "bool"
  | number => "number"
  | text => "string"
  | list => "list"
  | object => "object"

/-- The kind of a value. -/
def Value.kind : Value → ValueKind
  | null => .null
  | bool _ => .bool
  | number _ => .number
  | text _ => .text
  | list _ => .list
  | object _ => .object

/-- The text, if the value is one. -/
def Value.text? : Value → Option String
  | text s => some s
  | _ => none

/-- Why an expression has no value that is known from its text. -/
inductive Fault where
  | notStatic (text : String)
  | duplicateKey (key : String)
deriving DecidableEq, Repr

/-- The words for a fault. -/
def Fault.message : Fault → String
  | notStatic text => s!"expression {Text.quote text} cannot be evaluated statically"
  | duplicateKey key => s!"duplicate object key {Text.quote key}"

end ScopeConfig.Literal
