import ScopeConfig.Blocks.Attributes
import ScopeConfig.Blocks.Kind
import ScopeConfig.Blocks.Structure

/-!
# The map rule, globals and lets

Globals and lets hold any attributes, and `map` blocks as their only inner blocks. Globals are
merged by their labels; scripts and generated files may have `lets` among their inner blocks, which
are fused into one that takes no labels. A map has one
label, the attributes `for_each` and `key`, at most an `iterator` besides, and its value, either as
an attribute or as one `value` block; a `value` block is free again to hold attributes and maps.

The rule is checked on merged blocks, so the parts of a map may stand in several places.
-/

namespace ScopeConfig.Blocks

open Syntax

/-! ## Maps -/

/-- The attributes of a map. -/
def mapAttributes : AttributeRules :=
  [("for_each", .expression), ("key", .expression), ("value", .expression), ("iterator", .iterator)]

/-- Reports the origins of a map that have not exactly one label. -/
def mapLabels (m : MergedBlock) : List Diagnostic :=
  (m.origins.filter fun b => b.labels.length ≠ 1).map fun b => .schema .mapLabel b.labelsOrHeader

/-- Reports an inner block of a map that is no `value` block, or the labels of one that is. -/
def mapChild (b : Block) : List Diagnostic :=
  if b.blockType = "value" then (b.labelsRange?.toList).map (.schema .valueLabels)
  else [unknownBlock "map" b]

/-- Reports a value that is given twice or not at all. -/
def mapValue (m : MergedBlock) : List Diagnostic :=
  let blocks := (m.rawChildren.filter (·.blockType = "value")).length
  (if blocks > 1 then at? m.header? .manyValueBlocks else []) ++
    (if m.attributes.has "value" && blocks > 0 then at? m.header? .bothValues
    else if !m.attributes.has "value" && blocks = 0 then at? m.header? .noValue
    else [])

/-- Everything wrong with a map, apart from what is inside its value. -/
def mapOwnFaults (m : MergedBlock) : List Diagnostic :=
  mapLabels m ++ attributeFaults "map" mapAttributes m.attributes ++
    (m.header?.toList.flatMap fun range =>
      missingFaults "map" ["for_each", "key"] m.attributes range) ++
    m.rawChildren.flatMap mapChild ++ mapValue m

mutual

/-- Everything wrong with the inner blocks of a block that is free to hold attributes and maps. -/
def freeFaults : MergedBlock → List Diagnostic
  | m@⟨_, _, _, children⟩ => unknownChildren ["map"] m ++ mapsFaults children

/-- Everything wrong with the maps among some merged blocks. -/
def mapsFaults : List MergedBlock → List Diagnostic
  | [] => []
  | m :: rest => (if m.blockType = "map" then mapFaults m else []) ++ mapsFaults rest

/-- Everything wrong with a map. -/
def mapFaults : MergedBlock → List Diagnostic
  | m@⟨_, _, _, children⟩ => mapOwnFaults m ++ valuesFaults children

/-- Everything wrong with what is inside the values among some merged blocks. -/
def valuesFaults : List MergedBlock → List Diagnostic
  | [] => []
  | m :: rest => (if m.blockType = "value" then freeFaults m else []) ++ valuesFaults rest

end

/-! ## Globals -/

/-- The kind of the `globals` blocks. -/
def globalsKind : BlockKind where
  name := "globals"
  policy := .mergeByLabel
  importAllowed := true
  read _ c
    | .raw _ => (c, .ok ())
    | .merged m => acceptIf (freeFaults m) c { c with globals := c.globals ++ [m] }
  check _ _ := .ok ()

/-! ## Lets -/

/-- Goes through the inner blocks of a block: fuses the `lets` blocks into `lets` and has `other`
look at the rest. The errors come in the order of the blocks. -/
def withLets (other : Block → List Diagnostic) (lets : List MergedBlock) :
    List Block → List MergedBlock × List Diagnostic
  | [] => (lets, [])
  | b :: blocks =>
    let (lets, faults) :=
      if b.blockType = "lets" then MergedBlock.absorbAll lets [b] else (lets, other b)
    let (lets, more) := withLets other lets blocks
    (lets, faults ++ more)

/-- Everything wrong with merged `lets`. -/
def letsFaults (lets : List MergedBlock) : List Diagnostic :=
  lets.flatMap fun m => mergedNoLabels m ++ freeFaults m

end ScopeConfig.Blocks
