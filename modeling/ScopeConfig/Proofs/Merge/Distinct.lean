import ScopeConfig.Proofs.Merge.Reordered

/-!
# When merging finds no errors

Files are merged without errors exactly when nothing is declared twice among all of them: no
top-level attribute, no block of a type that is unique, and no attribute of an entity; and when all
their blocks are of known types. None of this depends on the order of the files.

## Main statements

* `mergeFiles_ok_iff`: when merging files finds no errors.
* `Distinct.perm`: the condition for files in another order.
-/

namespace ScopeConfig

open Syntax

/-! ## Attributes -/

/-- Attributes are absorbed without an error exactly if all names, old and new, are distinct. -/
theorem absorbAttributes_ok_iff {describe : String → SourceRange → Redeclaration}
    {t : AttributeTable} {as : List Attribute} :
    (absorbAttributes describe t as).2 = [] ↔ ((t.entries ++ as).map Attribute.name).Nodup := by
  induction as generalizing t with
  | nil => simpa [absorbAttributes] using t.nodup
  | cons a as ih =>
    unfold absorbAttributes
    cases hfind : t.find? a.name with
    | none =>
      have hnew := AttributeTable.find?_eq_none_iff.1 hfind
      rw [List.append_cons, ← AttributeTable.entries_add_of_not_mem hnew]
      exact ih
    | some first =>
      have htaken : a.name ∈ t.entries.map Attribute.name := by
        have hname : first.name = a.name := by simpa using List.find?_some hfind
        exact hname ▸ List.mem_map_of_mem (List.mem_of_find?_eq_some hfind)
      simp only [List.cons_ne_nil, false_iff, List.map_append, List.nodup_append]
      exact fun h => h.2.2 _ htaken a.name (by simp) rfl

/-- The errors of absorbing attributes in two parts. -/
theorem absorbAttributes_append (describe : String → SourceRange → Redeclaration)
    (t : AttributeTable) (as bs : List Attribute) :
    (absorbAttributes describe t (as ++ bs)).2 =
      (absorbAttributes describe t as).2 ++
        (absorbAttributes describe (absorbAttributes describe t as).1 bs).2 := by
  induction as generalizing t with
  | nil => rfl
  | cons a as ih =>
    simp only [List.cons_append, absorbAttributes]
    split
    · simp [ih]
    · exact ih _

namespace MergedBlock

/-- The errors of fusing blocks, the first one and then the rest. -/
theorem absorbAll_cons (es : List MergedBlock) (b : Block) (bs : List Block) :
    (absorbAll es (b :: bs)).2 =
      (absorbAll es [b]).2 ++ (absorbAll (absorbAll es [b]).1 bs).2 := by
  simp [absorbAll]

end MergedBlock

namespace MergeTable

/-! ## Blocks -/

/-- The blocks of those types that allow one of each identity. -/
def uniqueBlocks (policies : List (String × MergePolicy)) (bs : List Block) : List Block :=
  bs.filter fun b => policyFor policies b.blockType = some .uniqueByLabel

/-- A block finds no other one of its identity among blocks without repetition exactly when there is
still none with it. -/
theorem first?_eq_none_iff {t : MergeTable} {b : Block}
    (hb : policyFor t.policies b.blockType = some .uniqueByLabel) :
    t.first? b.identity = none ↔
      b.identity ∉ (uniqueBlocks t.policies t.unmerged).map Block.identity := by
  rw [first?, List.find?_eq_none]
  constructor
  · intro h hmem
    obtain ⟨c, hc, hid⟩ := List.mem_map.1 hmem
    exact h c (List.mem_filter.1 hc).1 (by simpa using hid)
  · intro h c hc hid
    have heq : c.identity = b.identity := by simpa using hid
    have htype : c.blockType = b.blockType := congrArg BlockIdentity.blockType heq
    refine h (List.mem_map.2 ⟨c, List.mem_filter.2 ⟨hc, ?_⟩, heq⟩)
    simpa [htype] using hb

/-- One more block after blocks without repetition is the first of its identity exactly if there is
no repetition still. -/
theorem nodup_uniqueBlocks_push_iff {t : MergeTable} {b : Block}
    (hb : policyFor t.policies b.blockType = some .uniqueByLabel)
    (hunique : ((uniqueBlocks t.policies t.unmerged).map Block.identity).Nodup) :
    ((uniqueBlocks t.policies (t.unmerged ++ [b])).map Block.identity).Nodup ↔
      t.first? b.identity = none := by
  have hsplit : uniqueBlocks t.policies (t.unmerged ++ [b]) =
      uniqueBlocks t.policies t.unmerged ++ [b] := by
    simp [uniqueBlocks, hb]
  rw [first?_eq_none_iff hb, hsplit, List.map_append, List.map_singleton, ← List.concat_eq_append,
    List.nodup_concat]
  exact and_iff_left hunique

/-- A block whose type does not allow only one of each identity does not count among these. -/
theorem uniqueBlocks_skip {policies : List (String × MergePolicy)} {b : Block}
    (h : policyFor policies b.blockType ≠ some .uniqueByLabel) (before after : List Block) :
    uniqueBlocks policies (before ++ b :: after) = uniqueBlocks policies (before ++ after) := by
  simp [uniqueBlocks, h]

/-- A block whose type is not merged by label is not fused. -/
theorem fusedBlocks_skip {policies : List (String × MergePolicy)} {b : Block}
    (h : policyFor policies b.blockType ≠ some .mergeByLabel) (bs : List Block) :
    fusedBlocks policies (b :: bs) = fusedBlocks policies bs := by
  simp [fusedBlocks, h]

/-- Blocks are merged without errors when all are of known types, when there is nothing to report of
those that are fused, and when there is one of each identity that allows no more: by induction on
the blocks, for whatever was kept and fused before them. -/
theorem mergeBlocks_ok_iff {t : MergeTable} {bs : List Block}
    (hover : ∀ blockType, policyFor t.policies blockType ≠ some .override)
    (hunique : ((uniqueBlocks t.policies t.unmerged).map Block.identity).Nodup) :
    (t.mergeBlocks bs).2 = [] ↔
      (∀ b ∈ bs, (policyFor t.policies b.blockType).isSome = true) ∧
        ((uniqueBlocks t.policies (t.unmerged ++ bs)).map Block.identity).Nodup ∧
        (MergedBlock.absorbAll t.merged (fusedBlocks t.policies bs)).2 = [] := by
  induction bs generalizing t with
  | nil => simpa [mergeBlocks, fusedBlocks, MergedBlock.absorbAll] using hunique
  | cons b bs ih =>
    have hpolicy? : t.policy? b.blockType = policyFor t.policies b.blockType := rfl
    -- a block that is kept leaves the others to be merged after it
    have hpush : ((uniqueBlocks t.policies (t.unmerged ++ [b])).map Block.identity).Nodup →
        policyFor t.policies b.blockType ≠ some .mergeByLabel →
        (((t.push b).mergeBlocks bs).2 = [] ↔
          (∀ c ∈ bs, (policyFor t.policies c.blockType).isSome = true) ∧
            ((uniqueBlocks t.policies (t.unmerged ++ b :: bs)).map Block.identity).Nodup ∧
            (MergedBlock.absorbAll t.merged (fusedBlocks t.policies (b :: bs))).2 = []) := by
      intro hnodup hne
      rw [fusedBlocks_skip hne, List.append_cons]
      exact ih (t := t.push b) hover hnodup
    simp only [mergeBlocks, List.append_eq_nil_iff, List.forall_mem_cons]
    rw [mergeBlock, hpolicy?]
    cases hpolicy : policyFor t.policies b.blockType with
    | none => simp
    | some policy =>
      cases policy with
      | mergeByLabel =>
        have hrest := ih (t := { t with merged := (MergedBlock.absorbAll t.merged [b]).1 })
          hover hunique
        have hfused : fusedBlocks t.policies (b :: bs) = b :: fusedBlocks t.policies bs := by
          simp [fusedBlocks, hpolicy]
        rw [uniqueBlocks_skip (by simp [hpolicy]), hfused,
          MergedBlock.absorbAll_cons t.merged b (fusedBlocks t.policies bs),
          List.append_eq_nil_iff]
        simp only [hrest, Option.isSome_some, true_and]
        tauto
      | append =>
        have hnodup : ((uniqueBlocks t.policies (t.unmerged ++ [b])).map Block.identity).Nodup := by
          rw [uniqueBlocks_skip (by simp [hpolicy]), List.append_nil]
          exact hunique
        simpa using hpush hnodup (by simp [hpolicy])
      | uniqueByLabel =>
        have hfirst := nodup_uniqueBlocks_push_iff hpolicy hunique
        cases hseen : t.first? b.identity with
        | some first =>
          -- the block repeats one that was kept before
          have hrepeated : ¬((uniqueBlocks t.policies (t.unmerged ++ b :: bs)).map
              Block.identity).Nodup := by
            intro hnodup
            have hpart : (t.unmerged ++ [b]).Sublist (t.unmerged ++ b :: bs) :=
              (List.singleton_sublist.2 List.mem_cons_self).append_left _
            have hnone := hfirst.1 (hnodup.sublist ((hpart.filter _).map _))
            simp [hnone] at hseen
          simp [hrepeated]
        | none => simpa using hpush (hfirst.2 hseen) (by simp [hpolicy])
      | override => exact (hover _ hpolicy).elim

/-! ## Files -/

/-- The top-level attributes of files, in order. -/
def scopeAttributes (files : List SourceFile) : List Attribute :=
  files.flatMap (·.body.attributes.entries)

/-- The top-level blocks of files in order, apart from those that import files. -/
def scopeBlocks (files : List SourceFile) : List Block :=
  files.flatMap fun f => f.body.blocks.filter (!isImport ·)

/-- The attributes of a table have no part in merging blocks. -/
theorem mergeBlocks_attributes (t : MergeTable) (x : AttributeTable) (bs : List Block) :
    ({ t with attributes := x }.mergeBlocks bs) =
      ({ (t.mergeBlocks bs).1 with attributes := x }, (t.mergeBlocks bs).2) := by
  have hblock : ∀ (t : MergeTable) (b : Block), ({ t with attributes := x }.mergeBlock b) =
      ({ (t.mergeBlock b).1 with attributes := x }, (t.mergeBlock b).2) := by
    intro t b
    simp only [mergeBlock, policy?, first?, place?, push]
    split
    · rfl
    · rfl
    · rfl
    · split <;> rfl
    · split <;> rfl
  induction bs generalizing t with
  | nil => rfl
  | cons b bs ih => simp only [mergeBlocks, hblock, ih]

/-- Merging blocks in two parts. -/
theorem mergeBlocks_append (t : MergeTable) (bs cs : List Block) :
    t.mergeBlocks (bs ++ cs) = (((t.mergeBlocks bs).1.mergeBlocks cs).1,
      (t.mergeBlocks bs).2 ++ ((t.mergeBlocks bs).1.mergeBlocks cs).2) := by
  induction bs generalizing t with
  | nil => rfl
  | cons b bs ih => simp [mergeBlocks, ih]

/-- Files have no conflicts when neither all their attributes nor all their blocks have any. -/
theorem mergeFiles_eq_nil_iff (t : MergeTable) (files : List SourceFile) :
    (t.mergeFiles files).2 = [] ↔
      (absorbAttributes .topAttribute t.attributes (scopeAttributes files)).2 = [] ∧
        (t.mergeBlocks (scopeBlocks files)).2 = [] := by
  induction files generalizing t with
  | nil => simp [mergeFiles, scopeAttributes, scopeBlocks, absorbAttributes, mergeBlocks]
  | cons f files ih =>
    simp only [mergeFiles, mergeFile, mergeBody, mergeAttributes, mergeBlocks_attributes, ih,
      scopeAttributes, scopeBlocks, List.flatMap_cons, absorbAttributes_append, mergeBlocks_append,
      List.append_eq_nil_iff]
    exact and_and_and_comm

/-- The top-level attributes and blocks of files go together under these policies: no attribute is
declared twice, every block is of a known type and stands alone if its type demands it, and inside
the blocks that are fused no entity has an attribute twice. -/
structure Distinct (policies : List (String × MergePolicy)) (files : List SourceFile) : Prop where
  attributes : ((scopeAttributes files).map Attribute.name).Nodup
  known : ∀ b ∈ scopeBlocks files, (policyFor policies b.blockType).isSome = true
  unique : ((uniqueBlocks policies (scopeBlocks files)).map Block.identity).Nodup
  fused : ((occurrencesAll [] (fusedBlocks policies (scopeBlocks files))).map
    Occurrence.key).Nodup

section Files

variable {policies : List (String × MergePolicy)} {files files' : List SourceFile}

/-- Merging files finds no errors exactly when their declarations go together. -/
theorem mergeFiles_ok_iff (hover : ∀ blockType, policyFor policies blockType ≠ some .override) :
    ((new policies).mergeFiles files).2 = [] ↔ Distinct policies files := by
  rw [mergeFiles_eq_nil_iff, absorbAttributes_ok_iff,
    mergeBlocks_ok_iff (t := new policies) hover .nil]
  have hfused : ((MergedBlock.absorbAll (new policies).merged
      (fusedBlocks policies (scopeBlocks files))).2 = []) ↔
      ((occurrencesAll [] (fusedBlocks policies (scopeBlocks files))).map
        Occurrence.key).Nodup := by
    rw [← redeclarations_eq_nil_iff, ← MergedBlock.absorbAll_reports]
    rfl
  constructor
  · rintro ⟨hattributes, hknown, hunique, hblocks⟩
    exact ⟨hattributes, hknown, hunique, hfused.1 hblocks⟩
  · rintro ⟨hattributes, hknown, hunique, hblocks⟩
    exact ⟨hattributes, hknown, hunique, hfused.2 hblocks⟩

/-- The blocks of a scope do not depend on the order of its files, up to their own order. -/
theorem scopeBlocks_perm (h : files.Perm files') : (scopeBlocks files).Perm (scopeBlocks files') :=
  h.flatMap_right _

/-- Whether declarations go together does not depend on the order of the files. -/
theorem Distinct.perm (hd : Distinct policies files) (h : files.Perm files') :
    Distinct policies files' where
  attributes := ((h.flatMap_right _).map Attribute.name).nodup_iff.1 hd.attributes
  known b hb := hd.known b ((scopeBlocks_perm h).mem_iff.2 hb)
  unique := (((scopeBlocks_perm h).filter _).map Block.identity).nodup_iff.1 hd.unique
  fused :=
    ((occurrencesAll_perm ((scopeBlocks_perm h).filter _) []).map Occurrence.key).nodup_iff.1
      hd.fused

/-- Merging a file is an operation on the table. -/
theorem mergeFiles_eq_applyAll (t : MergeTable) (files : List SourceFile) :
    t.mergeFiles files = t.applyAll (files.map fun f =>
      .body { f.body with blocks := f.body.blocks.filter (!isImport ·) }) := by
  induction files generalizing t with
  | nil => rfl
  | cons f files ih => simp only [mergeFiles, ih, List.map_cons, applyAll, apply, mergeFile]

/-- What merging preserves holds of the blocks of merged files, whatever errors there were. -/
theorem Preserved.mergeFiles {P : List Block → MergeTable → Prop} (hP : Preserved P)
    (hnew : P [] (.new policies)) (files : List SourceFile) :
    P (scopeBlocks files) ((MergeTable.new policies).mergeFiles files).1 := by
  have hall := hP.applyAll hnew (files.map fun f =>
    .body { f.body with blocks := f.body.blocks.filter (!isImport ·) })
  rwa [← mergeFiles_eq_applyAll, List.nil_append, List.flatMap_map] at hall

/-- The blocks of files are merged into a table, with or without errors. -/
theorem Merged.of_files (policies : List (String × MergePolicy)) (files : List SourceFile) :
    Merged policies (scopeBlocks files) ((MergeTable.new policies).mergeFiles files).1 :=
  (Merged.preserved policies).mergeFiles (.new policies) files

end Files

end MergeTable

end ScopeConfig
