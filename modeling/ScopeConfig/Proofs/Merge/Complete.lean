import ScopeConfig.Proofs.Merge.Grouping
import ScopeConfig.Scope.Assembly

/-!
# Merging without errors keeps everything

A table holds attributes and blocks when nothing of them was left out: all the attributes are in it,
every block has a policy and is fused into the group of its identity or kept, and every group has
the attributes of its blocks. A merge without errors adds what it is given to what a table holds.

## Main statements

* `Holds.mergeFiles`: merging files without errors keeps all their attributes and blocks.
* `Holds.unmergedOf_eq`, `Holds.groups_mergedOf`: the blocks of one type.
-/

namespace ScopeConfig

open Syntax

namespace MergeTable

/-- The policy that a list of policies has for a type of block. -/
def policyFor (policies : List (String × MergePolicy)) (blockType : String) : Option MergePolicy :=
  (policies.reverse.find? (·.1 = blockType)).map (·.2)

/-- The policy that a table knows for a type is that of its list of policies. -/
theorem policy?_eq_policyFor (t : MergeTable) (blockType : String) :
    t.policy? blockType = policyFor t.policies blockType :=
  rfl

/-- What merging one block under a policy for its type gives. -/
inductive MergeCase (t : MergeTable) (b : Block) :
    Option MergePolicy → MergeTable × List Diagnostic → Prop
  | unknown : MergeCase t b none (t, [.schema (.unknownTopBlock b.blockType) b.header])
  | fused : MergeCase t b (some .mergeByLabel)
    ({ t with merged := (MergedBlock.absorbAll t.merged [b]).1 },
      (MergedBlock.absorbAll t.merged [b]).2)
  | appended : MergeCase t b (some .append) (t.push b, [])
  | repeated {first : Block} (h : t.first? b.identity = some first) :
    MergeCase t b (some .uniqueByLabel)
      (t, [.redeclared (.block b.identity first.header) b.header])
  | unique (h : t.first? b.identity = none) :
    MergeCase t b (some .uniqueByLabel) (t.push b, [])
  | replaced {place : Nat} (h : t.place? b.identity = some place) :
    MergeCase t b (some .override) ({ t with unmerged := t.unmerged.set place b }, [])
  | added (h : t.place? b.identity = none) : MergeCase t b (some .override) (t.push b, [])

/-- Merging one block, by cases on the policy for its type and on what is kept of its identity. -/
theorem mergeCase (t : MergeTable) (b : Block) :
    MergeCase t b (t.policy? b.blockType) (t.mergeBlock b) := by
  rw [mergeBlock]
  cases t.policy? b.blockType with
  | none => exact .unknown
  | some policy =>
    cases policy with
    | mergeByLabel => exact .fused
    | append => exact .appended
    | uniqueByLabel =>
      cases hfirst : t.first? b.identity with
      | none => exact .unique hfirst
      | some first => exact .repeated hfirst
    | override =>
      cases hplace : t.place? b.identity with
      | none => exact .added hplace
      | some place => exact .replaced hplace

/-- A table with these policies holds attributes and blocks without leaving anything out. No type of
block is overridden. -/
structure Holds (policies : List (String × MergePolicy)) (attributes : List Attribute)
    (bs : List Block) (t : MergeTable) : Prop where
  policies_eq : t.policies = policies
  attributes_eq : t.attributes.entries = attributes
  known : ∀ b ∈ bs, (policyFor policies b.blockType).isSome = true
  groups : MergedBlock.Groups t.merged
    (bs.filter fun b => policyFor policies b.blockType = some .mergeByLabel)
  gathered : MergedBlock.Gathered t.merged
  unmerged_eq : t.unmerged = bs.filter fun b => policyFor policies b.blockType ≠ some .mergeByLabel

namespace Holds

variable {policies : List (String × MergePolicy)} {attributes : List Attribute} {bs : List Block}
  {t : MergeTable}

theorem new (policies : List (String × MergePolicy)) : Holds policies [] [] (.new policies) where
  policies_eq := rfl
  attributes_eq := rfl
  known := by simp
  groups := .nil
  gathered := .nil
  unmerged_eq := rfl

/-- A merge of attributes without errors adds them. -/
theorem mergeAttributes (h : Holds policies attributes bs t) {more : AttributeTable}
    (hok : (t.mergeAttributes more).2 = []) :
    Holds policies (attributes ++ more.entries) bs (t.mergeAttributes more).1 where
  policies_eq := h.policies_eq
  attributes_eq := by
    show (absorbAttributes .topAttribute t.attributes more.entries).1.entries = _
    rw [entries_absorbAttributes hok, h.attributes_eq]
  known := h.known
  groups := h.groups
  gathered := h.gathered
  unmerged_eq := h.unmerged_eq

/-- Keeping a block that is not fused. -/
theorem push (h : Holds policies attributes bs t) {b : Block} {policy : MergePolicy}
    (hpolicy : policyFor policies b.blockType = some policy) (hne : policy ≠ .mergeByLabel) :
    Holds policies attributes (bs ++ [b]) (t.push b) where
  policies_eq := h.policies_eq
  attributes_eq := h.attributes_eq
  known c hc := by
    rcases List.mem_append.1 hc with hc | hc
    · exact h.known c hc
    · rw [List.mem_singleton.1 hc, hpolicy]
      rfl
  groups := by
    have hgroups := h.groups
    simpa [hpolicy, hne, MergeTable.push] using hgroups
  gathered := h.gathered
  unmerged_eq := by
    simp [MergeTable.push, h.unmerged_eq, hpolicy, hne]

/-- Fusing a block into the group of its identity. -/
theorem fuse (h : Holds policies attributes bs t) {b : Block}
    (hpolicy : policyFor policies b.blockType = some .mergeByLabel)
    (hok : (MergedBlock.absorbAll t.merged [b]).2 = []) :
    Holds policies attributes (bs ++ [b])
      { t with merged := (MergedBlock.absorbAll t.merged [b]).1 } where
  policies_eq := h.policies_eq
  attributes_eq := h.attributes_eq
  known c hc := by
    rcases List.mem_append.1 hc with hc | hc
    · exact h.known c hc
    · rw [List.mem_singleton.1 hc, hpolicy]
      rfl
  groups := by
    have hgroups := h.groups.absorbAll [b]
    simpa [hpolicy] using hgroups
  gathered := h.gathered.absorbAll hok
  unmerged_eq := by
    simp [h.unmerged_eq, hpolicy]

/-- A merge of a block without errors adds it, unless it overrides another one. -/
theorem mergeBlock (h : Holds policies attributes bs t) {b : Block}
    (hover : policyFor policies b.blockType ≠ some .override)
    (hok : (t.mergeBlock b).2 = []) : Holds policies attributes (bs ++ [b]) (t.mergeBlock b).1 := by
  have hcase := t.mergeCase b
  rw [policy?_eq_policyFor, h.policies_eq] at hcase
  generalize hpolicy : policyFor policies b.blockType = policy at hcase hover
  generalize t.mergeBlock b = result at hcase hok ⊢
  cases hcase with
  | unknown => cases hok
  | fused => exact h.fuse hpolicy hok
  | appended => exact h.push hpolicy (by simp)
  | repeated => cases hok
  | unique => exact h.push hpolicy (by simp)
  | replaced => exact (hover rfl).elim
  | added => exact (hover rfl).elim

/-- Blocks that are merged without an error are held in addition to those before. -/
theorem mergeBlocks (h : Holds policies attributes bs t)
    (hover : ∀ blockType, policyFor policies blockType ≠ some .override) {cs : List Block}
    (hok : (t.mergeBlocks cs).2 = []) :
    Holds policies attributes (bs ++ cs) (t.mergeBlocks cs).1 := by
  induction cs generalizing t bs with
  | nil => simpa [MergeTable.mergeBlocks] using h
  | cons c cs ih =>
    simp only [MergeTable.mergeBlocks, List.append_eq_nil_iff] at hok ⊢
    simpa using ih (h.mergeBlock (hover c.blockType) hok.1) hok.2

/-- Merging files without errors keeps all their attributes, and all their blocks apart from the
blocks that import files. -/
theorem mergeFiles (h : Holds policies attributes bs t)
    (hover : ∀ blockType, policyFor policies blockType ≠ some .override) {files : List SourceFile}
    (hok : (t.mergeFiles files).2 = []) :
    Holds policies (attributes ++ files.flatMap (·.body.attributes.entries))
      (bs ++ files.flatMap fun f => f.body.blocks.filter (!isImport ·)) (t.mergeFiles files).1 := by
  induction files generalizing t attributes bs with
  | nil => simpa [MergeTable.mergeFiles] using h
  | cons f files ih =>
    simp only [MergeTable.mergeFiles, mergeFile, mergeBody, List.append_eq_nil_iff] at hok ⊢
    simpa using ih ((h.mergeAttributes hok.1.1).mergeBlocks hover hok.1.2) hok.2

/-- The kept blocks of a type that is not merged by label are all the blocks of the type. -/
theorem unmergedOf_eq (h : Holds policies attributes bs t) {blockType : String}
    (hne : policyFor policies blockType ≠ some .mergeByLabel) :
    t.unmergedOf blockType = bs.filter (·.blockType = blockType) := by
  rw [unmergedOf, h.unmerged_eq, List.filter_filter]
  refine List.filter_congr fun b _ => ?_
  by_cases hb : b.blockType = blockType
  · simp [hb, hne]
  · simp [hb]

/-- The merged blocks of a type that is merged by label are the groups of the blocks of the type. -/
theorem groups_mergedOf (h : Holds policies attributes bs t) {blockType : String}
    (heq : policyFor policies blockType = some .mergeByLabel) :
    MergedBlock.Groups (t.mergedOf blockType) (bs.filter (·.blockType = blockType)) := by
  have hgroups := h.groups.filter (·.blockType = blockType)
  rw [List.filter_filter] at hgroups
  have hfilter : (bs.filter fun b => decide (b.identity.blockType = blockType) &&
      decide (policyFor policies b.blockType = some .mergeByLabel)) =
      bs.filter (·.blockType = blockType) := by
    refine List.filter_congr fun b _ => ?_
    by_cases hb : b.blockType = blockType
    · simp [Block.identity, hb, heq]
    · simp [Block.identity, hb]
  rwa [hfilter] at hgroups

/-- The merged blocks of each type have all the attributes of their origins. -/
theorem gathered_mergedOf (h : Holds policies attributes bs t) (blockType : String) :
    MergedBlock.Gathered (t.mergedOf blockType) :=
  fun m hm => h.gathered m (List.mem_filter.1 hm).1

end Holds

end MergeTable

end ScopeConfig
