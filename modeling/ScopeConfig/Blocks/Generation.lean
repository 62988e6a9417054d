import ScopeConfig.Blocks.MapRule

/-!
# Generated files

A `generate_hcl` block generates a configuration file from its `content` block, a `generate_file`
block a file of any sort from its `content` attribute. The label is the name of the file: it is not
empty, and unique over both types together.
-/

namespace ScopeConfig.Blocks

open Syntax

/-- Reports a label that is missing, empty or not the only one. -/
def fileLabelFaults (b : Block) : List Diagnostic :=
  match label? b with
  | some label => if label = "" then [.schema (.emptyLabel b.blockType) b.labelsOrHeader] else []
  | none => oneLabel b

/-! ## Configuration files -/

/-- The attributes of `generate_hcl`. -/
def hclAttributes : AttributeRules :=
  [("condition", .expression)]

/-- Whether a block is the content of a configuration file. -/
def isContent (b : Block) : Bool :=
  b.blockType = "content"

/-- What speaks against an inner block of `generate_hcl` that is no `lets`. -/
def hclChild (b : Block) : List Diagnostic :=
  if isContent b then noLabels b else [unknownBlock "generate_hcl" b]

/-- The merged `lets` of a `generate_hcl` block, and what is wrong with its inner blocks. -/
def hclChildren (b : Block) : List MergedBlock × List Diagnostic :=
  withLets hclChild [] b.blocks

/-- Reports a number of `content` blocks other than one. -/
def contentFaults (b : Block) : List Diagnostic :=
  let given := (b.blocks.filter isContent).length
  if given = 1 then [] else [.schema (.contentBlocks given) b.braceRange]

/-- Everything wrong with a `generate_hcl` block. -/
def hclFaults (b : Block) : List Diagnostic :=
  fileLabelFaults b ++ attributeFaults "generate_hcl" hclAttributes b.attributes ++
    (hclChildren b).2 ++ contentFaults b ++ letsFaults (hclChildren b).1

/-- The configuration file that a block generates. -/
def generatedHcl? (b : Block) : Option GeneratedHcl :=
  match label? b, b.blocks.filter isContent with
  | some label, [content] =>
    some { label
           condition := b.attributes.expr? "condition"
           lets := (hclChildren b).1.getLast?
           content
           range := b.range }
  | _, _ => none

/-- Reports the labels that are used twice over both types. -/
def fileLabelsCheck (c : Config) : List Diagnostic :=
  uniqueNames "generate label"
    ((c.generatedHcls.map fun x => (x.label, x.range)) ++
      c.generatedFiles.map fun x => (x.label, x.range))

/-- The kind of the `generate_hcl` blocks. -/
def hclKind : BlockKind where
  name := "generate_hcl"
  policy := .append
  importAllowed := true
  read _ c
    | .raw b =>
      acceptIf (hclFaults b) c
        (((generatedHcl? b).map fun x =>
          { c with generatedHcls := c.generatedHcls ++ [x] }).getD c)
    | .merged _ => (c, .ok ())
  check _ c := Diagnostic.toResult (fileLabelsCheck c)

/-! ## Files of any sort -/

/-- The attributes of `generate_file`. -/
def fileAttributes : AttributeRules :=
  [("content", .expression), ("condition", .expression)]

/-- Everything wrong with a `generate_file` block. -/
def fileFaults (b : Block) : List Diagnostic :=
  fileLabelFaults b ++ attributeFaults "generate_file" fileAttributes b.attributes ++
    b.blocks.map (unknownBlock "generate_file") ++
    missingFaults "generate_file" ["content"] b.attributes b.range

/-- The file that a block generates. -/
def generatedFile? (b : Block) : Option GeneratedFile := do
  let label ← label? b
  let content ← b.attributes.expr? "content"
  return { label, condition := b.attributes.expr? "condition", content, range := b.range }

/-- The kind of the `generate_file` blocks. -/
def fileKind : BlockKind where
  name := "generate_file"
  policy := .append
  importAllowed := true
  read _ c
    | .raw b =>
      acceptIf (fileFaults b) c
        (((generatedFile? b).map fun x =>
          { c with generatedFiles := c.generatedFiles ++ [x] }).getD c)
    | .merged _ => (c, .ok ())
  check _ _ := .ok ()

end ScopeConfig.Blocks
