import ScopeConfig.Diagnostic.Basic
import ScopeConfig.Merge.Entity

/-!
# Rules for labels and inner blocks

What the kinds of blocks have in common: no labels, exactly one label, no inner blocks but those of
some types, and names that are declared once.
-/

namespace ScopeConfig.Blocks

open Syntax

/-- Reports an inner block that its parent does not allow. -/
def unknownBlock (parent : String) (b : Block) : Diagnostic :=
  .schema (.unknownBlock b.blockType parent) b.header

/-- Reports the labels of a block that takes none. -/
def noLabels (b : Block) : List Diagnostic :=
  match b.labelsRange? with
  | some range => [.schema (.labelsForbidden b.blockType) range]
  | none => []

/-- Reports the labels of every origin of a merged block that takes none. -/
def mergedNoLabels (m : MergedBlock) : List Diagnostic :=
  m.origins.flatMap noLabels

/-- The label of a block with exactly one. -/
def label? (b : Block) : Option String :=
  match b.labelTexts with
  | [label] => some label
  | _ => none

/-- Reports a number of labels other than one. -/
def oneLabel (b : Block) : List Diagnostic :=
  match label? b with
  | some _ => []
  | none => [.schema (.oneLabel b.blockType b.labels.length) b.labelsOrHeader]

/-- Reports every inner block of a merged block whose type is not allowed. -/
def unknownChildren (allowed : List String) (m : MergedBlock) : List Diagnostic :=
  (m.rawChildren.filter fun b => b.blockType ∉ allowed).map (unknownBlock m.blockType)

/-- Reports every name that was declared before, with its first declaration. `seen` holds the first
declarations so far. -/
def repeatedNames (kind : String) (seen : List (String × SourceRange)) :
    List (String × SourceRange) → List Diagnostic
  | [] => []
  | (name, range) :: rest =>
    match seen.lookup name with
    | some first => .redeclared (.named kind name first) range :: repeatedNames kind seen rest
    | none => repeatedNames kind (seen ++ [(name, range)]) rest

/-- Reports the names that are declared more than once. -/
def uniqueNames (kind : String) (entries : List (String × SourceRange)) : List Diagnostic :=
  repeatedNames kind [] entries

/-- Reports a fault at a range, if there is a range. -/
def at? (range : Option SourceRange) (fault : SchemaFault) : List Diagnostic :=
  range.toList.map (.schema fault)

end ScopeConfig.Blocks
