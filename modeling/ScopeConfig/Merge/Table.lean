import ScopeConfig.Merge.Entity

/-!
# The merge table of a scope

A policy says how the occurrences of one type of block are combined within a scope. The top-level
attributes and blocks of the files of one scope are combined under a policy for each type of block.
Blocks of a type that is merged by label are fused; all others are kept as they are, in order. Every
operation gives the errors that it found beside the new table, and the next operation goes on from
that table whether there were errors or not.
-/

namespace ScopeConfig

open Syntax

/-! ## Policies -/

/-- What happens to a block whose identity was seen before: `mergeByLabel` fuses the two,
`uniqueByLabel` refuses the second, `append` keeps both, and `override` puts the second in the
place of the first. -/
inductive MergePolicy where
  | mergeByLabel
  | uniqueByLabel
  | append
  | override
deriving DecidableEq, Repr

namespace MergePolicy

/-- The policies. -/
def all : List MergePolicy := [mergeByLabel, uniqueByLabel, append, override]

/-- The name of a policy. -/
def code : MergePolicy → String
  | mergeByLabel => "merge_by_label"
  | uniqueByLabel => "unique_by_label"
  | append => "append"
  | override => "override"

/-- The policy of this name. -/
def ofCode? (s : String) : Option MergePolicy :=
  all.find? (·.code = s)

end MergePolicy

/-! ## Tables -/

/-- What was merged so far. `policies` never changes; of two entries for one type the later
counts. -/
structure MergeTable where
  policies : List (String × MergePolicy)
  attributes : AttributeTable
  merged : List MergedBlock
  unmerged : List Block

namespace MergeTable

/-- The table that nothing was merged into yet. -/
def new (policies : List (String × MergePolicy)) : MergeTable :=
  ⟨policies, .empty, [], []⟩

/-- The policy for a type of block. -/
def policy? (t : MergeTable) (blockType : String) : Option MergePolicy :=
  (t.policies.reverse.find? (·.1 = blockType)).map (·.2)

/-- The place of the first block of an identity among those that are not fused. -/
def place? (t : MergeTable) (identity : BlockIdentity) : Option Nat :=
  t.unmerged.findIdx? (·.identity = identity)

/-- The first block of an identity among those that are not fused. -/
def first? (t : MergeTable) (identity : BlockIdentity) : Option Block :=
  t.unmerged.find? (·.identity = identity)

/-- Keeps a block at the end of those that are not fused. -/
def push (t : MergeTable) (b : Block) : MergeTable :=
  { t with unmerged := t.unmerged ++ [b] }

/-- Merges one block under the policy for its type. -/
def mergeBlock (t : MergeTable) (b : Block) : MergeTable × List Diagnostic :=
  match t.policy? b.blockType with
  | none => (t, [.schema (.unknownTopBlock b.blockType) b.header])
  | some .mergeByLabel =>
    let (merged, faults) := MergedBlock.absorbAll t.merged [b]
    ({ t with merged }, faults)
  | some .append => (t.push b, [])
  | some .uniqueByLabel =>
    match t.first? b.identity with
    | some first => (t, [.redeclared (.block b.identity first.header) b.header])
    | none => (t.push b, [])
  | some .override =>
    match t.place? b.identity with
    | some place => ({ t with unmerged := t.unmerged.set place b }, [])
    | none => (t.push b, [])

/-- Merges blocks, one after the other. -/
def mergeBlocks (t : MergeTable) : List Block → MergeTable × List Diagnostic
  | [] => (t, [])
  | b :: blocks =>
    let (t, faults) := t.mergeBlock b
    let (t, more) := t.mergeBlocks blocks
    (t, faults ++ more)

/-- Merges the attributes of one body. -/
def mergeAttributes (t : MergeTable) (attributes : AttributeTable) :
    MergeTable × List Diagnostic :=
  let (table, faults) := absorbAttributes .topAttribute t.attributes attributes.entries
  ({ t with attributes := table }, faults)

/-- Merges the attributes and the blocks of one body. -/
def mergeBody (t : MergeTable) (body : Body) : MergeTable × List Diagnostic :=
  let (t, faults) := t.mergeAttributes body.attributes
  let (t, more) := t.mergeBlocks body.blocks
  (t, faults ++ more)

/-- The merged blocks of one type, in the order in which they were first seen. -/
def mergedOf (t : MergeTable) (blockType : String) : List MergedBlock :=
  t.merged.filter (·.blockType = blockType)

/-- The kept blocks of one type, in order. -/
def unmergedOf (t : MergeTable) (blockType : String) : List Block :=
  t.unmerged.filter (·.blockType = blockType)

end MergeTable

end ScopeConfig
