import ScopeConfig.Blocks.Attributes
import ScopeConfig.Blocks.Kind
import ScopeConfig.Blocks.Structure

/-!
# Stacks

The `stack` block makes its directory a stack. A directory has at most one, and never an imported
one.
-/

namespace ScopeConfig.Blocks

open Syntax

/-- The attributes of `stack`. -/
def stackAttributes : AttributeRules :=
  [("id", .text), ("name", .text), ("description", .text), ("tags", .textSet), ("after", .textSet),
   ("before", .textSet), ("wants", .textSet), ("wanted_by", .textSet), ("watch", .textSet)]

/-- Everything wrong with a `stack` block. -/
def stackFaults (b : Block) : List Diagnostic :=
  noLabels b ++ attributeFaults "stack" stackAttributes b.attributes ++
    b.blocks.map (unknownBlock "stack")

/-- The stack that a block declares. -/
def stackOf (b : Block) : Stack where
  id := read? textOf b.attributes "id"
  name := read? textOf b.attributes "name"
  description := read? textOf b.attributes "description"
  tags := setOr b.attributes "tags"
  after := setOr b.attributes "after"
  before := setOr b.attributes "before"
  wants := setOr b.attributes "wants"
  wantedBy := setOr b.attributes "wanted_by"
  watch := setOr b.attributes "watch"
  range := b.range

/-- The kind of the `stack` blocks. -/
def stackKind : BlockKind where
  name := "stack"
  policy := .uniqueByLabel
  importAllowed := false
  read _ c
    | .raw b => acceptIf (stackFaults b) c { c with stack := some (stackOf b) }
    | .merged _ => (c, .ok ())
  check _ _ := .ok ()

end ScopeConfig.Blocks
