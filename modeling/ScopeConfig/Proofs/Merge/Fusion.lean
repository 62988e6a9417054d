import ScopeConfig.Proofs.Merge.Distinct
import ScopeConfig.Proofs.Merge.Kept

/-!
# The table as a function of the blocks

What merging files leaves in a table, and what it has against their blocks' types, can be read off
the list of all their blocks. The merged blocks of one type are one for each identity, in the order
in which the identities occur first, each made of the blocks of its identity alone: other blocks
that came between them make no difference. The same is true of the kept blocks, by `KeptFrom`.

## Main statements

* `MergedBlock.absorbAll_eq_fuse`: fusing blocks fuses those of each identity on their own.
* `MergeTable.mergedOf_mergeFiles`, `MergeTable.unmergedOf_mergeFiles`: the blocks of one type.
* `MergeTable.schemaErrors_mergeFiles`: each block of an unknown type gives one error.
-/

namespace ScopeConfig

open Syntax

/-- Whether an error reports an attribute of an entity that is declared twice. -/
def Diagnostic.IsConflict (d : Diagnostic) : Prop :=
  ∃ name owner first range, d = .redeclared (.attributeOf name owner first) range

/-- A conflict of merging is a redeclaration. -/
theorem Diagnostic.IsConflict.kind {d : Diagnostic} (h : d.IsConflict) : d.kind = .redeclared := by
  obtain ⟨name, owner, first, range, rfl⟩ := h
  rfl

namespace MergedBlock

/-! ## Blocks of one identity -/

/-- Fuses blocks, one after the other, into one merged block. -/
def absorbEach (m : MergedBlock) (bs : List Block) : MergedBlock :=
  bs.foldl (fun m b => (m.absorb b).1) m

/-- The merged block that blocks of one identity make. -/
def fuse (i : BlockIdentity) (bs : List Block) : MergedBlock :=
  (new i).absorbEach bs

section AbsorbEach

variable (m : MergedBlock) (bs : List Block)

/-- Fusing blocks keeps the identity of the merged block. -/
@[simp] theorem identity_absorbEach : (m.absorbEach bs).identity = m.identity := by
  induction bs generalizing m with
  | nil => rfl
  | cons b bs ih => exact (ih _).trans (identity_absorb m b)

/-- Fusing blocks adds them to the origins. -/
@[simp] theorem origins_absorbEach : (m.absorbEach bs).origins = m.origins ++ bs := by
  induction bs generalizing m with
  | nil => exact (List.append_nil _).symm
  | cons b bs ih =>
    show ((m.absorb b).1.absorbEach bs).origins = _
    rw [ih, origins_absorb, List.append_assoc, List.singleton_append]

end AbsorbEach

@[simp] theorem identity_fuse (i : BlockIdentity) (bs : List Block) : (fuse i bs).identity = i :=
  identity_absorbEach _ _

/-- Blocks fused into an empty one are the origins of what comes of it. -/
@[simp] theorem origins_fuse (i : BlockIdentity) (bs : List Block) : (fuse i bs).origins = bs :=
  origins_absorbEach _ _

/-! ## Blocks of all identities -/

/-- Fusing a list of blocks, the first one and then the rest. -/
theorem absorbAll_fst_cons (es : List MergedBlock) (b : Block) (bs : List Block) :
    (absorbAll es (b :: bs)).1 =
      (absorbAll (put es ((find es b.identity).absorb b).1) bs).1 := by
  simp [absorbAll]

/-- Fusing two lists of blocks, one after the other. -/
theorem absorbAll_fst_append (es : List MergedBlock) (bs cs : List Block) :
    (absorbAll es (bs ++ cs)).1 = (absorbAll (absorbAll es bs).1 cs).1 := by
  induction bs generalizing es with
  | nil => simp [absorbAll]
  | cons b bs ih => rw [List.cons_append, absorbAll_fst_cons, ih, absorbAll_fst_cons]

/-- The entry of an identity is made of the blocks of this identity alone: by induction on the
blocks, for whatever is in the list before them. -/
theorem find_absorbAll (es : List MergedBlock) (bs : List Block) (i : BlockIdentity) :
    find (absorbAll es bs).1 i = (find es i).absorbEach (bs.filter (·.identity = i)) := by
  induction bs generalizing es with
  | nil => simp [absorbAll, absorbEach]
  | cons b bs ih =>
    rw [absorbAll_fst_cons, ih, find_put, identity_absorb, identity_find]
    by_cases hi : b.identity = i
    · subst hi
      simp [absorbEach]
    · simp [hi, Ne.symm hi]

/-- Merged blocks of distinct identities are their identities, each with its entry. -/
theorem eq_map_find {es : List MergedBlock} (h : (es.map identity).Nodup) :
    es = (es.map identity).map (find es) := by
  rw [List.map_map]
  refine (List.map_id es).symm.trans (List.map_congr_left fun m hm => ?_)
  rcases find_cases es m.identity with ⟨hmem, hid⟩ | ⟨-, hnone⟩
  · exact (List.inj_on_of_nodup_map h hmem hm hid).symm
  · exact (hnone (List.mem_map_of_mem hm)).elim

/-- Fusing blocks fuses those of each identity on their own. -/
theorem absorbAll_eq_fuse (bs : List Block) :
    (absorbAll [] bs).1 = (identitiesOf bs).map fun i => fuse i (bs.filter (·.identity = i)) := by
  have hids : ((absorbAll [] bs).1).map identity = identitiesOf bs :=
    (Groups.nil.absorbAll bs).identities
  rw [eq_map_find (Groups.nil.absorbAll bs).nodup_identities, hids]
  exact List.map_congr_left fun i _ => find_absorbAll [] bs i

/-- Blocks of one identity have that as their only identity. -/
theorem identitiesOf_eq_singleton {bs : List Block} {i : BlockIdentity} (hne : bs ≠ [])
    (hids : ∀ b ∈ bs, b.identity = i) : identitiesOf bs = [i] := by
  refine List.perm_singleton.1
    ((List.perm_ext_iff_of_nodup (nodup_identitiesOf bs) (List.nodup_singleton i)).2 fun j => ?_)
  rw [identitiesOf, List.mem_eraseDups, List.mem_map, List.mem_singleton]
  constructor
  · rintro ⟨b, hb, rfl⟩
    exact hids b hb
  · rintro rfl
    obtain ⟨b, hb⟩ := List.exists_mem_of_ne_nil bs hne
    exact ⟨b, hb, hids b hb⟩

/-- Blocks of one identity are fused into one. -/
theorem absorbAll_eq_singleton {bs : List Block} {i : BlockIdentity} (hne : bs ≠ [])
    (hids : ∀ b ∈ bs, b.identity = i) : (absorbAll [] bs).1 = [fuse i bs] := by
  have hall : bs.filter (·.identity = i) = bs :=
    List.filter_eq_self.2 fun b hb => decide_eq_true (hids b hb)
  rw [absorbAll_eq_fuse, identitiesOf_eq_singleton hne hids, List.map_singleton, hall]

/-! ## Errors -/

/-- Adding attributes reports those whose name is taken, in the words of `describe`. -/
theorem exists_of_mem_absorbAttributes {describe : String → SourceRange → Redeclaration}
    {t : AttributeTable} {as : List Attribute} {d : Diagnostic}
    (h : d ∈ (absorbAttributes describe t as).2) :
    ∃ name first range, d = .redeclared (describe name first) range := by
  induction as generalizing t with
  | nil => simp [absorbAttributes] at h
  | cons a as ih =>
    unfold absorbAttributes at h
    split at h
    · rcases List.mem_cons.1 h with rfl | h
      · exact ⟨_, _, _, rfl⟩
      · exact ih h
    · exact ih h

/-- Fusing blocks reports nothing but attributes that are declared twice. -/
theorem conflicts_absorb_and_absorbAll :
    (∀ (m : MergedBlock) (b : Block), ∀ d ∈ (m.absorb b).2, d.IsConflict) ∧
      ∀ (es : List MergedBlock) (bs : List Block), ∀ d ∈ (absorbAll es bs).2, d.IsConflict := by
  apply absorb.mutual_induct (fun m b => ∀ d ∈ (m.absorb b).2, d.IsConflict)
    (fun es bs => ∀ d ∈ (absorbAll es bs).2, d.IsConflict)
  · intro m blockType labels attributes blocks range typeRange braceRange t faults _ children
      inner _ ih d hd
    rw [faults_absorb, List.mem_append] at hd
    rcases hd with hd | hd
    · obtain ⟨name, first, range, rfl⟩ := exists_of_mem_absorbAttributes hd
      exact ⟨name, _, first, range, rfl⟩
    · exact ih d hd
  · intro es d hd
    simp [absorbAll] at hd
  · intro es b blocks m faults hm children inner _ ihBlock ihRest d hd
    simp only [absorbAll, List.mem_append] at hd
    rcases hd with hd | hd
    · exact ihBlock d hd
    · refine ihRest d ?_
      rwa [hm] at hd

end MergedBlock

namespace MergeTable

/-! ## The merged blocks of a table -/

/-- A table with these policies whose merged blocks are made of the given blocks. -/
structure FusedFrom (policies : List (String × MergePolicy)) (given : List Block)
    (t : MergeTable) : Prop where
  policies_eq : t.policies = policies
  merged_eq : t.merged = (MergedBlock.absorbAll [] (fusedBlocks policies given)).1

namespace FusedFrom

variable {policies : List (String × MergePolicy)} {given : List Block} {t : MergeTable} {b : Block}

theorem new (policies : List (String × MergePolicy)) : FusedFrom policies [] (.new policies) :=
  ⟨rfl, by simp [MergeTable.new, fusedBlocks, MergedBlock.absorbAll]⟩

/-- A block that is not fused leaves the merged blocks as they were. -/
theorem keep (h : FusedFrom policies given t) {t' : MergeTable}
    (hpolicy : policyFor policies b.blockType ≠ some .mergeByLabel)
    (hpolicies : t'.policies = t.policies) (hmerged : t'.merged = t.merged) :
    FusedFrom policies (given ++ [b]) t' where
  policies_eq := hpolicies.trans h.policies_eq
  merged_eq := by
    rw [hmerged, h.merged_eq]
    simp [fusedBlocks, hpolicy]

/-- Merging a block leaves a table whose merged blocks are made of the given blocks and this one. -/
theorem mergeBlock (h : FusedFrom policies given t) (b : Block) :
    FusedFrom policies (given ++ [b]) (t.mergeBlock b).1 := by
  have hcase := t.mergeCase b
  rw [policy?_eq_policyFor, h.policies_eq] at hcase
  generalize hpolicy : policyFor policies b.blockType = policy at hcase
  generalize t.mergeBlock b = result at hcase ⊢
  cases hcase with
  | fused =>
    refine ⟨h.policies_eq, ?_⟩
    simp [fusedBlocks, hpolicy, MergedBlock.absorbAll_fst_append, h.merged_eq]
  | unknown | appended | repeated | unique | replaced | added =>
    exact h.keep (by simp [hpolicy]) rfl rfl

/-- Being made of the given blocks is preserved by every operation. -/
theorem preserved (policies : List (String × MergePolicy)) : Preserved (FusedFrom policies) :=
  ⟨fun _ h => ⟨h.policies_eq, h.merged_eq⟩, fun b h => h.mergeBlock b⟩

end FusedFrom

/-! ## The blocks of one type -/

section Blocks

variable {policies : List (String × MergePolicy)} (files : List SourceFile)

/-- The merged blocks of a type that is merged by label: one for each identity. -/
theorem mergedOf_mergeFiles {blockType : String}
    (hpolicy : policyFor policies blockType = some .mergeByLabel) :
    let bs := (scopeBlocks files).filter (·.blockType = blockType)
    ((new policies).mergeFiles files).1.mergedOf blockType =
      (identitiesOf bs).map fun i => MergedBlock.fuse i (bs.filter (·.identity = i)) := by
  intro bs
  -- the table fuses the blocks of all types together; those of one type can be picked out before or
  -- after, since an identity says what its type is
  set fused := fusedBlocks policies (scopeBlocks files) with hfused
  have hbs : fused.filter (·.blockType = blockType) = bs := by
    rw [hfused, fusedBlocks, List.filter_filter]
    refine List.filter_congr fun b _ => ?_
    by_cases hb : b.blockType = blockType
    · simp [hb, hpolicy]
    · simp [hb]
  have hids : (identitiesOf fused).filter (·.blockType = blockType) = identitiesOf bs := by
    rw [identitiesOf, ← eraseDups_filter, List.filter_map, ← hbs]
    rfl
  have hmerged := ((FusedFrom.preserved policies).mergeFiles (.new policies) files).merged_eq
  rw [mergedOf, hmerged, ← hfused, MergedBlock.absorbAll_eq_fuse, List.filter_map, ← hids]
  have hcomp : (fun m : MergedBlock => decide (m.blockType = blockType)) ∘
      (fun i => MergedBlock.fuse i (fused.filter (·.identity = i))) =
      fun i : BlockIdentity => decide (i.blockType = blockType) := by
    funext i
    simp [MergedBlock.blockType]
  rw [hcomp]
  refine List.map_congr_left fun i hi => ?_
  have htype : i.blockType = blockType := by simpa using (List.mem_filter.1 hi).2
  rw [← hbs, List.filter_filter]
  congr 1
  refine List.filter_congr fun b _ => ?_
  by_cases hb : b.identity = i
  · have : b.blockType = blockType := by rw [← htype, ← hb]; rfl
    simp [hb, this]
  · simp [hb]

/-- The kept blocks of a type: those that its policy lets stand. -/
theorem unmergedOf_mergeFiles (blockType : String) :
    ((new policies).mergeFiles files).1.unmergedOf blockType =
      kept (policyFor policies blockType)
        ((scopeBlocks files).filter (·.blockType = blockType)) :=
  ((KeptFrom.preserved policies).mergeFiles (.new policies) files).unmergedOf_eq blockType

end Blocks

/-! ## Blocks of unknown types -/

/-- One error for each block whose type has no policy. -/
def unknownTypeErrors (policies : List (String × MergePolicy)) (bs : List Block) :
    List Diagnostic :=
  (bs.filter fun b => (policyFor policies b.blockType).isNone).map fun b =>
    .schema (.unknownTopBlock b.blockType) b.header

/-- The errors of unknown types, of two lists one after the other. -/
theorem unknownTypeErrors_append (policies : List (String × MergePolicy)) (bs cs : List Block) :
    unknownTypeErrors policies (bs ++ cs) =
      unknownTypeErrors policies bs ++ unknownTypeErrors policies cs := by
  rw [unknownTypeErrors, List.filter_append, List.map_append]
  rfl

/-- The errors that speak against a block as such, and not against its repetition. -/
def schemaErrors (ds : List Diagnostic) : List Diagnostic :=
  ds.filter (·.kind = .schema)

/-- The schema errors of two lists, one after the other. -/
theorem schemaErrors_append (ds es : List Diagnostic) :
    schemaErrors (ds ++ es) = schemaErrors ds ++ schemaErrors es :=
  List.filter_append ..

/-- Redeclarations have no schema errors among them. -/
theorem schemaErrors_of_redeclared {ds : List Diagnostic}
    (h : ∀ d ∈ ds, d.kind = .redeclared) : schemaErrors ds = [] :=
  List.filter_eq_nil_iff.2 fun d hd => by simp [h d hd]

/-- One block, by cases on the policy for its type. -/
theorem schemaErrors_mergeBlock (t : MergeTable) (b : Block) :
    (t.mergeBlock b).1.policies = t.policies ∧
      schemaErrors (t.mergeBlock b).2 = unknownTypeErrors t.policies [b] := by
  have hcase := t.mergeCase b
  rw [policy?_eq_policyFor] at hcase
  generalize hpolicy : policyFor t.policies b.blockType = policy at hcase
  generalize t.mergeBlock b = result at hcase ⊢
  cases hcase with
  | unknown => exact ⟨rfl, by simp [unknownTypeErrors, hpolicy, schemaErrors, Diagnostic.kind,
      Diagnostic.schema, Cause.kind]⟩
  | fused =>
    refine ⟨rfl, ?_⟩
    rw [schemaErrors_of_redeclared fun d hd =>
      (MergedBlock.conflicts_absorb_and_absorbAll.2 _ _ d hd).kind]
    simp [unknownTypeErrors, hpolicy]
  | repeated h => exact ⟨rfl, by simp [unknownTypeErrors, hpolicy, schemaErrors, Diagnostic.kind,
      Diagnostic.redeclared, Cause.kind]⟩
  | appended | unique | replaced | added =>
    exact ⟨rfl, by simp [unknownTypeErrors, hpolicy, schemaErrors]⟩

/-- Merging blocks keeps the policies, and its schema errors are those of the unknown types. -/
theorem schemaErrors_mergeBlocks (t : MergeTable) (bs : List Block) :
    (t.mergeBlocks bs).1.policies = t.policies ∧
      schemaErrors (t.mergeBlocks bs).2 = unknownTypeErrors t.policies bs := by
  induction bs generalizing t with
  | nil => exact ⟨rfl, rfl⟩
  | cons b bs ih =>
    obtain ⟨hpolicies, hone⟩ := t.schemaErrors_mergeBlock b
    obtain ⟨hrestPolicies, hrest⟩ := ih (t.mergeBlock b).1
    refine ⟨hrestPolicies.trans hpolicies, ?_⟩
    show schemaErrors ((t.mergeBlock b).2 ++ ((t.mergeBlock b).1.mergeBlocks bs).2) = _
    rw [schemaErrors_append, hone, hrest, hpolicies, ← unknownTypeErrors_append]
    rfl

/-- Each block of an unknown type gives one error when files are merged, at its head, and nothing
else is an error of this sort. -/
theorem schemaErrors_mergeFiles (t : MergeTable) (files : List SourceFile) :
    schemaErrors (t.mergeFiles files).2 = unknownTypeErrors t.policies (scopeBlocks files) := by
  induction files generalizing t with
  | nil => rfl
  | cons f files ih =>
    set u := (t.mergeAttributes f.body.attributes).1 with hu
    set bs := f.body.blocks.filter (!isImport ·) with hbs
    obtain ⟨hpolicies, hblocks⟩ := u.schemaErrors_mergeBlocks bs
    have hattributes : schemaErrors (t.mergeAttributes f.body.attributes).2 = [] := by
      refine schemaErrors_of_redeclared fun d hd => ?_
      obtain ⟨name, first, range, rfl⟩ := MergedBlock.exists_of_mem_absorbAttributes hd
      rfl
    calc schemaErrors (t.mergeFiles (f :: files)).2
      _ = schemaErrors ((t.mergeAttributes f.body.attributes).2 ++ (u.mergeBlocks bs).2 ++
          ((u.mergeBlocks bs).1.mergeFiles files).2) := rfl
      _ = unknownTypeErrors t.policies bs ++ unknownTypeErrors t.policies (scopeBlocks files) := by
        rw [schemaErrors_append, schemaErrors_append, hattributes, hblocks, ih, hpolicies]
        rfl
      _ = unknownTypeErrors t.policies (scopeBlocks (f :: files)) :=
        (unknownTypeErrors_append ..).symm

end MergeTable

end ScopeConfig
