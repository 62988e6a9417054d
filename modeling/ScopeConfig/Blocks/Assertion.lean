import ScopeConfig.Blocks.Attributes
import ScopeConfig.Blocks.Kind
import ScopeConfig.Blocks.Structure

/-!
# Assertions

An `assert` block states a condition with the message for when it does not hold. Every one counts.
-/

namespace ScopeConfig.Blocks

open Syntax

/-- The attributes of `assert`. -/
def assertAttributes : AttributeRules :=
  [("assertion", .expression), ("message", .expression), ("warning", .expression)]

/-- Everything wrong with an `assert` block. -/
def assertFaults (b : Block) : List Diagnostic :=
  noLabels b ++ attributeFaults "assert" assertAttributes b.attributes ++
    b.blocks.map (unknownBlock "assert") ++
    missingFaults "assert" ["assertion", "message"] b.attributes b.range

/-- The condition that a block states. -/
def assertion? (b : Block) : Option Assertion := do
  let assertion ← b.attributes.expr? "assertion"
  let message ← b.attributes.expr? "message"
  return { assertion, message, warning := b.attributes.expr? "warning", range := b.range }

/-- The kind of the `assert` blocks. -/
def assertKind : BlockKind where
  name := "assert"
  policy := .append
  importAllowed := true
  read _ c
    | .raw b =>
      acceptIf (assertFaults b) c
        (((assertion? b).map fun x => { c with asserts := c.asserts ++ [x] }).getD c)
    | .merged _ => (c, .ok ())
  check _ _ := .ok ()

end ScopeConfig.Blocks
