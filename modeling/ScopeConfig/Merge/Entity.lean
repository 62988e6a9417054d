import ScopeConfig.Diagnostic.Basic

/-!
# Merged blocks

All the blocks of one identity fused into one: its attributes are those of its blocks, where the
first of a name stays and every later one is reported, its children are the inner blocks of its
blocks, fused in the same way by their own identities, and its origins are the blocks themselves in
the order in which they came.
-/

namespace ScopeConfig

open Syntax

/-- Adds attributes to a table. A name that is taken is reported at the new attribute, in the words
of `describe`. -/
def absorbAttributes (describe : String → SourceRange → Redeclaration) (t : AttributeTable) :
    List Attribute → AttributeTable × List Diagnostic
  | [] => (t, [])
  | a :: rest =>
    match t.find? a.name with
    | some first =>
      let (t, faults) := absorbAttributes describe t rest
      (t, .redeclared (describe a.name first.nameRange) a.nameRange :: faults)
    | none => absorbAttributes describe (t.add a) rest

/-- The one thing that the blocks of an identity declare together. -/
structure MergedBlock where
  identity : BlockIdentity
  attributes : AttributeTable
  origins : List Block
  children : List MergedBlock

instance : Inhabited MergedBlock := ⟨⟨"", []⟩, .empty, [], []⟩

namespace MergedBlock

/-- The merged block that nothing was fused into yet. -/
def new (identity : BlockIdentity) : MergedBlock :=
  ⟨identity, .empty, [], []⟩

/-- The type of the blocks. -/
def blockType (m : MergedBlock) : String :=
  m.identity.blockType

/-- The labels of the blocks. -/
def labels (m : MergedBlock) : List String :=
  m.identity.labels

/-- The head of the first block. -/
def header? (m : MergedBlock) : Option SourceRange :=
  m.origins.head?.map Block.header

/-- The children of one type, in the order in which they were first seen. -/
def childrenOf (m : MergedBlock) (blockType : String) : List MergedBlock :=
  m.children.filter (·.blockType = blockType)

/-- Every inner block of every origin, in order. -/
def rawChildren (m : MergedBlock) : List Block :=
  m.origins.flatMap Block.blocks

/-- The entry of an identity in a list of merged blocks, new if there is none. -/
def find (entities : List MergedBlock) (identity : BlockIdentity) : MergedBlock :=
  (entities.find? (·.identity = identity)).getD (new identity)

/-- Puts a merged block at the place of its identity, at the end if it has none. -/
def put (entities : List MergedBlock) (m : MergedBlock) : List MergedBlock :=
  if entities.any (·.identity = m.identity) then
    entities.map fun e => if e.identity = m.identity then m else e
  else entities ++ [m]

mutual

/-- Fuses one more block into a merged block of its identity, and reports every conflict: those of
its own attributes first, then those of its inner blocks in order. -/
def absorb (m : MergedBlock) : Block → MergedBlock × List Diagnostic
  | b@⟨_, _, attributes, blocks, _, _, _⟩ =>
    let (table, faults) := absorbAttributes (.attributeOf · m.identity ·) m.attributes
      attributes.entries
    let (children, inner) := absorbAll m.children blocks
    (⟨m.identity, table, m.origins ++ [b], children⟩, faults ++ inner)

/-- Fuses blocks, one after the other, into the merged blocks of their identities. -/
def absorbAll (entities : List MergedBlock) : List Block → List MergedBlock × List Diagnostic
  | [] => (entities, [])
  | b :: blocks =>
    let (m, faults) := absorb (find entities b.identity) b
    let (entities, more) := absorbAll (put entities m) blocks
    (entities, faults ++ more)

end

end MergedBlock

end ScopeConfig
