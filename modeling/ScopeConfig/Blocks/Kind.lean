import ScopeConfig.Config.Basic
import ScopeConfig.Merge.Table

/-!
# Kinds of blocks

A kind is what is known about one type of block: how its occurrences are merged, whether it may come
from imported files, how one block is checked and recorded in the configuration, and what is checked
once all blocks are recorded. A block comes in the form that the policy of its kind calls for; a
kind does nothing with the other form.

What a kind does with a block ends in a configuration and in success or a list of errors, and the
one says nothing about the other: a kind may record a block and report errors all the same.
-/

namespace ScopeConfig

open Syntax

/-- A block as a kind is given it: as it was written, or fused with the others of its identity. -/
inductive Form where
  | raw (b : Block)
  | merged (m : MergedBlock)

/-- What is known about one type of block. `read` gives the configuration after a block, and success
or what is wrong with the block; `check` gives success or what is wrong with the configuration as a
whole. -/
structure BlockKind where
  name : String
  policy : MergePolicy
  importAllowed : Bool
  read : Options → Config → Form → Config × Except (List Diagnostic) Unit
  check : Options → Config → Except (List Diagnostic) Unit

namespace Blocks

/-- Goes on to the configuration `next` if nothing is wrong, and stays at `c` otherwise. -/
def acceptIf (faults : List Diagnostic) (c next : Config) :
    Config × Except (List Diagnostic) Unit :=
  if faults.isEmpty then (next, .ok ()) else (c, .error faults)

/-- Reports a block of a type that needs an experiment which is not enabled. -/
def gate (options : Options) (c : Config) (experiment blockType : String) (range : SourceRange) :
    List Diagnostic :=
  if c.hasExperiment options experiment then []
  else [.schema (.experimentNeeded blockType experiment) range]

end Blocks

end ScopeConfig
