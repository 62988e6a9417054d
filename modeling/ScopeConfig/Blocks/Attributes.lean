import ScopeConfig.Config.Basic
import ScopeConfig.Literal.Evaluation

/-!
# Rules for attributes

A block allows some attributes, each with a demand on its expression. `attributeFaults` reports, in
the order of the attributes, every one that is not allowed and every demand that is not met;
`missingFaults` reports the required ones that are absent. The readers (`textOf` and so on) give the
value of an attribute that meets its demand, and what is wrong with one that does not.
-/

namespace ScopeConfig.Blocks

open Syntax

/-! ## Literal values -/

/-- The literal value of an attribute. -/
def valueOf (a : Attribute) : Except Diagnostic Literal.Value :=
  match Literal.evaluate a.expr with
  | .ok value => .ok value
  | .error fault => .error (.schema (.notLiteral a.name fault) a.expr.range)

/-- The text that an attribute is. -/
def textOf (a : Attribute) : Except Diagnostic String :=
  match valueOf a with
  | .error d => .error d
  | .ok (.text s) => .ok s
  | .ok value => .error (.schema (.wrongShape a.name .text value.kind) a.expr.range)

/-- The truth value that an attribute is. -/
def boolOf (a : Attribute) : Except Diagnostic Bool :=
  match valueOf a with
  | .error d => .error d
  | .ok (.bool b) => .ok b
  | .ok value => .error (.schema (.wrongShape a.name .bool value.kind) a.expr.range)

/-- The texts in a list of values, or the kind of the first value that is none. -/
def textItems : List Literal.Value → Except Literal.ValueKind (List String)
  | [] => .ok []
  | .text s :: values => (textItems values).map (s :: ·)
  | value :: _ => .error value.kind

/-- The list of texts that an attribute is. -/
def textListOf (a : Attribute) : Except Diagnostic (List String) :=
  match valueOf a with
  | .error d => .error d
  | .ok (.list values) =>
    match textItems values with
    | .ok texts => .ok texts
    | .error kind => .error (.schema (.nonTextItem a.name kind) a.expr.range)
  | .ok value => .error (.schema (.wrongShape a.name .textList value.kind) a.expr.range)

/-- The first text of a list that stands in it, or in `seen`, before. -/
def firstRepeated? (seen : List String) : List String → Option String
  | [] => none
  | s :: rest => if s ∈ seen then some s else firstRepeated? (s :: seen) rest

/-- The texts of a list that stand in it, or in `seen`, before, once for each time. -/
def repeated (seen : List String) : List String → List String
  | [] => []
  | s :: rest => if s ∈ seen then s :: repeated seen rest else repeated (s :: seen) rest

/-- The set of texts that an attribute is: a list without repetition. -/
def textSetOf (a : Attribute) : Except Diagnostic NameSet :=
  match textListOf a with
  | .error d => .error d
  | .ok texts =>
    match firstRepeated? [] texts with
    | some s => .error (.schema (.duplicateItem a.name s) a.expr.range)
    | none => .ok (.ofList texts)

/-! ## Demands -/

/-- What an attribute's expression has to be. -/
inductive Demand where
  | expression
  | text
  | bool
  | textList
  | textSet
  | experiments
  | filename
  | backendType
  | iterator
deriving DecidableEq, Repr

/-- What a reader has against an attribute. -/
def readFaults {α : Type} (outcome : Except Diagnostic α) : List Diagnostic :=
  match outcome with
  | .ok _ => []
  | .error d => [d]

/-- What speaks against an attribute under a demand. -/
def Demand.faults (demand : Demand) (a : Attribute) : List Diagnostic :=
  match demand with
  | expression => []
  | text => readFaults (textOf a)
  | bool => readFaults (boolOf a)
  | textList => readFaults (textListOf a)
  | textSet => readFaults (textSetOf a)
  | experiments =>
    match textListOf a with
    | .error d => [d]
    | .ok names =>
      (repeated [] names).map fun name => .schema (.duplicateExperiment name) a.expr.range
  | filename =>
    match textOf a with
    | .error d => [d]
    | .ok s => if s = "" then [.schema .emptyFilename a.expr.range] else []
  | backendType =>
    if a.expr.keyword? = some BackendType.terraform.keyword then []
    else [.schema (.unknownBackend a.expr.text) a.expr.range]
  | iterator => if a.expr.keyword?.isSome then [] else [.schema .mapIterator a.expr.range]

/-- The attributes that a block allows, each with what is demanded of it. -/
abbrev AttributeRules := List (String × Demand)

/-- What speaks against one attribute of the block that messages call `owner`. -/
def attributeFault (owner : String) (rules : AttributeRules) (a : Attribute) : List Diagnostic :=
  match rules.lookup a.name with
  | some demand => demand.faults a
  | none => [.schema (.unknownAttribute owner a.name) a.nameRange]

/-- What speaks against the attributes of the block that messages call `owner`. -/
def attributeFaults (owner : String) (rules : AttributeRules) (t : AttributeTable) :
    List Diagnostic :=
  t.entries.flatMap (attributeFault owner rules)

/-- The required attributes that are absent, reported at `range`. -/
def missingFaults (owner : String) (required : List String) (t : AttributeTable)
    (range : SourceRange) : List Diagnostic :=
  (required.filter fun name => !t.has name).map fun name =>
    .schema (.missingAttribute owner name) range

/-! ## Values of allowed attributes -/

/-- What a reader makes of the attribute of this name, if there is one and it meets its demand. -/
def read? {α : Type} (reader : Attribute → Except Diagnostic α) (t : AttributeTable)
    (name : String) : Option α :=
  match t.find? name with
  | some a =>
    match reader a with
    | .ok value => some value
    | .error _ => none
  | none => none

/-- The set that the attribute of this name is, empty if there is none. -/
def setOr (t : AttributeTable) (name : String) : NameSet :=
  (read? textSetOf t name).getD .empty

end ScopeConfig.Blocks
