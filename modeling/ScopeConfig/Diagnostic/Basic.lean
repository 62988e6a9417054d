import ScopeConfig.Diagnostic.Cause

/-!
# Diagnostics

An error is a cause with the range that it is reported at, if it has one. Every stage reports all
the errors it finds, so results come as lists of diagnostics in the order in which they were found;
the empty list is success.
-/

namespace ScopeConfig

/-- A reported error. -/
structure Diagnostic where
  cause : Cause
  range : Option SourceRange
deriving DecidableEq, Repr

namespace Diagnostic

/-- A malformed text. -/
def malformed (fault : Syntax.Fault) (range : SourceRange) : Diagnostic :=
  ⟨.malformed fault, some range⟩

/-- A violation of the rules for blocks. -/
def schema (fault : SchemaFault) (range : SourceRange) : Diagnostic :=
  ⟨.schema fault, some range⟩

/-- An import that is not followed. -/
def importing (fault : ImportFault) (range : SourceRange) : Diagnostic :=
  ⟨.importing fault, some range⟩

/-- A second declaration. -/
def redeclared (again : Redeclaration) (range : SourceRange) : Diagnostic :=
  ⟨.redeclared again, some range⟩

/-- The kind of an error. -/
def kind (d : Diagnostic) : ErrorKind :=
  d.cause.kind

/-- The message of an error. -/
def message (d : Diagnostic) : String :=
  d.cause.message

/-- An error on one line: where, what kind, and the message. -/
def text (d : Diagnostic) : String :=
  match d.range with
  | some r => s!"{r.text}: {d.kind.title}: {d.message}"
  | none => s!"{d.kind.title}: {d.message}"

/-- A list of errors, one after the other. -/
def textOfAll (ds : List Diagnostic) : String :=
  "\n".intercalate (ds.map text)

/-- The kinds that occur in a list of errors, in their customary order. -/
def kindsOf (ds : List Diagnostic) : List ErrorKind :=
  ErrorKind.all.filter fun k => ds.any (·.kind = k)

/-- The only error, if there is exactly one. -/
def only? : List Diagnostic → Option Diagnostic
  | [d] => some d
  | _ => none

/-- A list of errors as a result: success when it is empty. -/
def toResult (ds : List Diagnostic) : Except (List Diagnostic) Unit :=
  if ds.isEmpty then .ok () else .error ds

/-- The errors of a result. -/
def ofResult {α : Type} : Except (List Diagnostic) α → List Diagnostic
  | .ok _ => []
  | .error ds => ds

/-- A success has no errors. -/
@[simp] theorem ofResult_ok {α : Type} (a : α) : ofResult (.ok a) = [] := rfl

/-- A failure has the errors that it reports. -/
@[simp] theorem ofResult_error {α : Type} (ds : List Diagnostic) :
    ofResult (.error ds : Except (List Diagnostic) α) = ds := rfl

/-- The errors of a list as a result are those of the list. -/
@[simp] theorem ofResult_toResult (ds : List Diagnostic) : ofResult (toResult ds) = ds := by
  cases ds <;> simp [toResult]

end Diagnostic

end ScopeConfig
