import ScopeConfig.Proofs.Blocks.OrderFree
import ScopeConfig.Proofs.Merge.Fusion
import ScopeConfig.Scope.Registry

/-!
# What the rules for blocks report

The rules for one type of block report violations of rules and attributes that are declared twice;
the merging of blocks and the checks of names at the end report other second declarations. That an
experiment is needed is reported by the gate alone: a report of a rule is never mistaken for a
refusal by the gate, nor for an error of reading or importing a file.

## Main statements

* `ofBlock_projectFaults` and its likes: the reports of each kind.
* `ofRule_check`: the reports of the checks at the end.
* `ofRule_mergeFiles`: the reports of merging.
-/

namespace ScopeConfig

open Syntax

/-! ## Sorts of errors -/

namespace Diagnostic

/-- Whether an error says that an experiment is not enabled. -/
def isGate (d : Diagnostic) : Bool :=
  match d.cause with
  | .schema (.experimentNeeded _ _) => true
  | _ => false

/-- An error that a rule for blocks, or the merging of blocks, can report. -/
structure OfRule (d : Diagnostic) : Prop where
  kind : d.kind = .schema ∨ d.kind = .redeclared
  not_gate : d.isGate = false

/-- A schema fault that is not of a gate is one of a rule. -/
theorem ofRule_schema {fault : SchemaFault} {range : SourceRange}
    (h : (schema fault range).isGate = false) : (schema fault range).OfRule :=
  ⟨.inl rfl, h⟩

/-- A redeclaration is a fault of a rule. -/
theorem ofRule_redeclared {d : Diagnostic} (h : d.kind = .redeclared) : d.OfRule := by
  refine ⟨.inr h, ?_⟩
  obtain ⟨cause, range⟩ := d
  cases cause with
  | schema => cases h
  | _ => rfl

/-- An error that the rules for one block can report: that a rule other than the gate's is violated,
or that an attribute of an entity is declared twice. -/
inductive OfBlock : Diagnostic → Prop
  | rule {fault : SchemaFault} {range : SourceRange} (h : (schema fault range).isGate = false) :
    OfBlock (schema fault range)
  | conflict {d : Diagnostic} (h : d.IsConflict) : OfBlock d

theorem OfBlock.schema_or_conflict {d : Diagnostic} (h : d.OfBlock) :
    d.kind = .schema ∨ d.IsConflict := by
  cases h with
  | rule h => exact .inl rfl
  | conflict h => exact .inr h

/-- What is reported of a block is a fault of a rule. -/
theorem OfBlock.ofRule {d : Diagnostic} (h : d.OfBlock) : d.OfRule := by
  cases h with
  | rule h => exact ofRule_schema h
  | conflict h => exact ofRule_redeclared h.kind

/-- All errors of a list are of one sort. -/
def AllOf (sort : Diagnostic → Prop) (ds : List Diagnostic) : Prop :=
  ∀ d ∈ ds, sort d

section AllOf

variable {sort : Diagnostic → Prop} {ds es : List Diagnostic}

@[simp] theorem allOf_nil : AllOf sort [] := by
  simp [AllOf]

@[simp] theorem allOf_cons {d : Diagnostic} : AllOf sort (d :: ds) ↔ sort d ∧ AllOf sort ds :=
  List.forall_mem_cons

@[simp] theorem allOf_append : AllOf sort (ds ++ es) ↔ AllOf sort ds ∧ AllOf sort es :=
  List.forall_mem_append

/-- The diagnostics of a list are of a sort if those of each member are. -/
theorem allOf_flatMap {α : Type} {as : List α} {f : α → List Diagnostic}
    (h : ∀ a ∈ as, AllOf sort (f a)) : AllOf sort (as.flatMap f) := by
  intro d hd
  obtain ⟨a, ha, hd⟩ := List.mem_flatMap.1 hd
  exact h a ha d hd

/-- Diagnostics made one by one are of a sort if each of them is. -/
theorem allOf_map {α : Type} {as : List α} {f : α → Diagnostic} (h : ∀ a, sort (f a)) :
    AllOf sort (as.map f) := by
  intro d hd
  obtain ⟨a, -, rfl⟩ := List.mem_map.1 hd
  exact h a

theorem allOf_ite {p : Prop} [Decidable p] (hd : AllOf sort ds) (he : AllOf sort es) :
    AllOf sort (if p then ds else es) := by
  split
  · exact hd
  · exact he

/-- Diagnostics of blocks are diagnostics of rules. -/
theorem AllOf.ofRule (h : AllOf OfBlock ds) : AllOf OfRule ds :=
  fun d hd => (h d hd).ofRule

end AllOf

/-- Schema faults that are not of a gate are diagnostics of blocks. -/
theorem allOf_map_schema {α : Type} {as : List α} {fault : α → SchemaFault}
    {range : α → SourceRange} (h : ∀ a, (schema (fault a) (range a)).isGate = false) :
    AllOf OfBlock (as.map fun a => schema (fault a) (range a)) :=
  allOf_map fun a => .rule (h a)

end Diagnostic

namespace Blocks

open Diagnostic

/-! ## Labels and inner blocks -/

/-- An unknown block is reported as a fault of a block. -/
@[simp] theorem ofBlock_unknownBlock (parent : String) (b : Block) :
    (unknownBlock parent b).OfBlock :=
  OfBlock.rule rfl

@[simp] theorem ofBlock_unknownBlocks (parent : String) (bs : List Block) :
    AllOf OfBlock (bs.map (unknownBlock parent)) :=
  allOf_map (ofBlock_unknownBlock parent)

@[simp] theorem ofBlock_noLabels (b : Block) : AllOf OfBlock (noLabels b) := by
  unfold noLabels
  split
  · simpa using OfBlock.rule rfl
  · exact allOf_nil

/-- Unwanted labels of a merged block are reported as faults of blocks. -/
@[simp] theorem ofBlock_mergedNoLabels (m : MergedBlock) : AllOf OfBlock (mergedNoLabels m) :=
  allOf_flatMap fun b _ => ofBlock_noLabels b

@[simp] theorem ofBlock_oneLabel (b : Block) : AllOf OfBlock (oneLabel b) := by
  unfold oneLabel
  split
  · exact allOf_nil
  · simpa using OfBlock.rule rfl

/-- Unknown children of a merged block are reported as faults of blocks. -/
@[simp] theorem ofBlock_unknownChildren (allowed : List String) (m : MergedBlock) :
    AllOf OfBlock (unknownChildren allowed m) :=
  ofBlock_unknownBlocks _ _

/-- Names that are not unique are reported by a rule. -/
theorem ofRule_uniqueNames (kind : String) (entries : List (String × SourceRange)) :
    AllOf OfRule (uniqueNames kind entries) := by
  rw [uniqueNames]
  generalize [] = seen
  induction entries generalizing seen with
  | nil => exact allOf_nil
  | cons entry entries ih =>
    rw [repeatedNames]
    split
    · exact allOf_cons.2 ⟨ofRule_redeclared rfl, ih seen⟩
    · exact ih _

/-! ## Attributes -/

/-- A value that cannot be read is a fault of a block. -/
theorem ofBlock_valueOf {a : Attribute} {d : Diagnostic} (h : valueOf a = .error d) :
    d.OfBlock := by
  unfold valueOf at h
  split at h
  · cases h
  · obtain rfl := Except.error.inj h
    exact OfBlock.rule rfl

theorem ofBlock_textOf {a : Attribute} {d : Diagnostic} (h : textOf a = .error d) : d.OfBlock := by
  unfold textOf at h
  split at h
  · rename_i hvalue
    obtain rfl := Except.error.inj h
    exact ofBlock_valueOf hvalue
  · cases h
  · obtain rfl := Except.error.inj h
    exact OfBlock.rule rfl

theorem ofBlock_boolOf {a : Attribute} {d : Diagnostic} (h : boolOf a = .error d) : d.OfBlock := by
  unfold boolOf at h
  split at h
  · rename_i hvalue
    obtain rfl := Except.error.inj h
    exact ofBlock_valueOf hvalue
  · cases h
  · obtain rfl := Except.error.inj h
    exact OfBlock.rule rfl

theorem ofBlock_textListOf {a : Attribute} {d : Diagnostic} (h : textListOf a = .error d) :
    d.OfBlock := by
  unfold textListOf at h
  split at h
  · rename_i hvalue
    obtain rfl := Except.error.inj h
    exact ofBlock_valueOf hvalue
  · split at h
    · cases h
    · obtain rfl := Except.error.inj h
      exact OfBlock.rule rfl
  · obtain rfl := Except.error.inj h
    exact OfBlock.rule rfl

theorem ofBlock_textSetOf {a : Attribute} {d : Diagnostic} (h : textSetOf a = .error d) :
    d.OfBlock := by
  unfold textSetOf at h
  split at h
  · rename_i htexts
    obtain rfl := Except.error.inj h
    exact ofBlock_textListOf htexts
  · split at h
    · obtain rfl := Except.error.inj h
      exact OfBlock.rule rfl
    · cases h

/-- A reading reports faults of a block if its reader does. -/
theorem ofBlock_readFaults {α : Type} {outcome : Except Diagnostic α}
    (h : ∀ d, outcome = .error d → d.OfBlock) : AllOf OfBlock (readFaults outcome) := by
  cases outcome with
  | ok value => exact allOf_nil
  | error d => simpa [readFaults] using h d rfl

/-- Every demand reports faults of a block. -/
theorem ofBlock_demand (demand : Demand) (a : Attribute) : AllOf OfBlock (demand.faults a) := by
  cases demand with
  | expression => exact allOf_nil
  | text => exact ofBlock_readFaults fun _ => ofBlock_textOf
  | bool => exact ofBlock_readFaults fun _ => ofBlock_boolOf
  | textList => exact ofBlock_readFaults fun _ => ofBlock_textListOf
  | textSet => exact ofBlock_readFaults fun _ => ofBlock_textSetOf
  | experiments =>
    simp only [Demand.faults]
    split
    · rename_i htexts
      simpa using ofBlock_textListOf htexts
    · exact allOf_map_schema fun _ => rfl
  | filename =>
    simp only [Demand.faults]
    split
    · rename_i htext
      simpa using ofBlock_textOf htext
    · exact allOf_ite (by simpa using OfBlock.rule rfl) allOf_nil
  | backendType => exact allOf_ite allOf_nil (by simpa using OfBlock.rule rfl)
  | iterator => exact allOf_ite allOf_nil (by simpa using OfBlock.rule rfl)

/-- The rules of attributes report faults of a block. -/
@[simp] theorem ofBlock_attributeFaults (owner : String) (rules : AttributeRules)
    (t : AttributeTable) : AllOf OfBlock (attributeFaults owner rules t) := by
  refine allOf_flatMap fun a _ => ?_
  unfold attributeFault
  split
  · exact ofBlock_demand _ a
  · simpa using OfBlock.rule rfl

/-- Missing attributes are reported as faults of a block. -/
@[simp] theorem ofBlock_missingFaults (owner : String) (required : List String)
    (t : AttributeTable) (range : SourceRange) :
    AllOf OfBlock (missingFaults owner required t range) :=
  allOf_map_schema fun _ => rfl

/-! ## The settings of a project -/

@[simp] theorem ofBlock_gitFaults (m : MergedBlock) : AllOf OfBlock (gitFaults m) := by
  simp [gitFaults]

@[simp] theorem ofBlock_envFaults (m : MergedBlock) : AllOf OfBlock (envFaults m) := by
  simp [envFaults]

@[simp] theorem ofBlock_runFaults (m : MergedBlock) : AllOf OfBlock (runFaults m) := by
  simpa [runFaults] using allOf_flatMap fun c _ => ofBlock_envFaults c

@[simp] theorem ofBlock_rootFaults (m : MergedBlock) : AllOf OfBlock (rootFaults m) := by
  simpa [rootFaults] using
    ⟨allOf_flatMap fun c _ => ofBlock_gitFaults c,
      allOf_flatMap fun c _ => ofBlock_runFaults c⟩

/-- A project block reports faults of blocks. -/
theorem ofBlock_projectFaults (m : MergedBlock) : AllOf OfBlock (projectFaults m) := by
  simpa [projectFaults] using allOf_flatMap fun c _ => ofBlock_rootFaults c

/-! ## The map rule -/

/-- A schema fault at a range that may be absent is a fault of a block. -/
theorem ofBlock_at? (range : Option SourceRange) {fault : SchemaFault}
    (h : ∀ r, (Diagnostic.schema fault r).isGate = false) : AllOf OfBlock (at? range fault) :=
  allOf_map fun r => OfBlock.rule (h r)

theorem ofBlock_mapValue (m : MergedBlock) : AllOf OfBlock (mapValue m) := by
  refine allOf_append.2 ⟨allOf_ite (ofBlock_at? _ fun _ => rfl) allOf_nil, ?_⟩
  exact allOf_ite (ofBlock_at? _ fun _ => rfl)
    (allOf_ite (ofBlock_at? _ fun _ => rfl) allOf_nil)

theorem ofBlock_mapChild (b : Block) : AllOf OfBlock (mapChild b) :=
  allOf_ite (allOf_map fun _ => OfBlock.rule rfl) (by simp)

@[simp] theorem ofBlock_mapOwnFaults (m : MergedBlock) : AllOf OfBlock (mapOwnFaults m) := by
  have hlabels : AllOf OfBlock (mapLabels m) := allOf_map_schema fun _ => rfl
  have hmissing : ∀ ranges : List SourceRange, AllOf OfBlock (ranges.flatMap fun range =>
      missingFaults "map" ["for_each", "key"] m.attributes range) :=
    fun _ => allOf_flatMap fun _ _ => ofBlock_missingFaults _ _ _ _
  have hchildren : AllOf OfBlock (m.rawChildren.flatMap mapChild) :=
    allOf_flatMap fun b _ => ofBlock_mapChild b
  simp [mapOwnFaults, hlabels, hmissing, hchildren, ofBlock_mapValue]

/-- By induction on the merged block: a map and a block that is free in turn. -/
theorem ofBlock_freeFaults_and_mapFaults :
    ∀ m : MergedBlock, AllOf OfBlock (freeFaults m) ∧ AllOf OfBlock (mapFaults m)
  | ⟨_, _, _, children⟩ => by
    have ih : ∀ c ∈ children, AllOf OfBlock (freeFaults c) ∧ AllOf OfBlock (mapFaults c) :=
      fun c hc => ofBlock_freeFaults_and_mapFaults c
    rw [freeFaults_eq, mapFaults_eq]
    simp only [allOf_append, ofBlock_unknownChildren, ofBlock_mapOwnFaults, true_and]
    exact ⟨allOf_flatMap fun c hc => (ih c (List.mem_filter.1 hc).1).2,
      allOf_flatMap fun c hc => (ih c (List.mem_filter.1 hc).1).1⟩

/-- A free block reports faults of blocks at every depth. -/
theorem ofBlock_freeFaults (m : MergedBlock) : AllOf OfBlock (freeFaults m) :=
  (ofBlock_freeFaults_and_mapFaults m).1

/-- The `lets` of a block report faults of blocks. -/
@[simp] theorem ofBlock_letsFaults (lets : List MergedBlock) : AllOf OfBlock (letsFaults lets) :=
  allOf_flatMap fun m _ => by simp [ofBlock_freeFaults]

/-- Merging blocks reports conflicts, which are faults of blocks. -/
theorem ofBlock_absorbAll (es : List MergedBlock) (bs : List Block) :
    AllOf OfBlock (MergedBlock.absorbAll es bs).2 :=
  fun d hd => .conflict (MergedBlock.conflicts_absorb_and_absorbAll.2 es bs d hd)

/-- Blocks beside `lets` report faults of blocks if the other blocks do. -/
theorem ofBlock_withLets {other : Block → List Diagnostic}
    (hother : ∀ b, AllOf OfBlock (other b)) (lets : List MergedBlock) (bs : List Block) :
    AllOf OfBlock (withLets other lets bs).2 := by
  induction bs generalizing lets with
  | nil => exact allOf_nil
  | cons b bs ih =>
    simp only [withLets]
    split
    · exact allOf_append.2 ⟨ofBlock_absorbAll lets [b], ih _⟩
    · exact allOf_append.2 ⟨hother b, ih _⟩

/-! ## The other kinds -/

/-- A `stack` block reports faults of a block. -/
theorem ofBlock_stackFaults (b : Block) : AllOf OfBlock (stackFaults b) := by
  simp [stackFaults]

theorem ofBlock_commandFaults (b : Block) : AllOf OfBlock (commandFaults b) := by
  unfold commandFaults
  split
  · simpa using ⟨OfBlock.rule rfl, OfBlock.rule rfl⟩
  · simpa using OfBlock.rule rfl
  · exact allOf_nil

/-- A script reports faults of blocks. -/
theorem ofBlock_scriptFaults (b : Block) : AllOf OfBlock (scriptFaults b) := by
  have hlabel : AllOf OfBlock
      (if b.labels.isEmpty then [.schema .scriptLabel b.typeRange] else []) :=
    allOf_ite (by simpa using OfBlock.rule rfl) allOf_nil
  have hjob : AllOf OfBlock
      (if b.blocks.any isJob then [] else [.schema .scriptJob b.braceRange]) :=
    allOf_ite allOf_nil (by simpa using OfBlock.rule rfl)
  have hchildren : AllOf OfBlock (scriptChildren b).2 :=
    ofBlock_withLets (fun c => allOf_ite (by simp [jobFaults, ofBlock_commandFaults])
      (by simp)) [] b.blocks
  simp only [scriptFaults, allOf_append, ofBlock_attributeFaults, ofBlock_letsFaults, hlabel,
    hjob, hchildren, and_self]

@[simp] theorem ofBlock_namedFaults (b : Block) : AllOf OfBlock (namedFaults b) := by
  simp [namedFaults]

theorem ofBlock_backendFaults (b : Block) : AllOf OfBlock (backendFaults b) := by
  simp [backendFaults]

theorem ofBlock_inputFaults (b : Block) : AllOf OfBlock (inputFaults b) := by
  simp [inputFaults]

theorem ofBlock_outputFaults (b : Block) : AllOf OfBlock (outputFaults b) := by
  simp [outputFaults]

theorem ofBlock_assertFaults (b : Block) : AllOf OfBlock (assertFaults b) := by
  simp [assertFaults]

@[simp] theorem ofBlock_fileLabelFaults (b : Block) : AllOf OfBlock (fileLabelFaults b) := by
  unfold fileLabelFaults
  split
  · exact allOf_ite (by simpa using OfBlock.rule rfl) allOf_nil
  · exact ofBlock_oneLabel b

/-- A `generate_hcl` block reports faults of blocks. -/
theorem ofBlock_hclFaults (b : Block) : AllOf OfBlock (hclFaults b) := by
  have hcontent : AllOf OfBlock (contentFaults b) :=
    allOf_ite allOf_nil (by simpa using OfBlock.rule rfl)
  have hchildren : AllOf OfBlock (hclChildren b).2 :=
    ofBlock_withLets (fun c => allOf_ite (ofBlock_noLabels c) (by simp)) [] b.blocks
  simp [hclFaults, hcontent, hchildren]

theorem ofBlock_fileFaults (b : Block) : AllOf OfBlock (fileFaults b) := by
  simp [fileFaults]

end Blocks

/-! ## Checks and merging -/

open Diagnostic

/-- The checks at the end report names that are declared twice. -/
theorem ofRule_check {k : BlockKind} (hk : k ∈ Registry.builtinKinds) (options : Options)
    (c : Config) : AllOf OfRule (ofResult (k.check options c)) := by
  simp only [Registry.builtinKinds, List.mem_cons, List.not_mem_nil, or_false] at hk
  -- a kind checks names, or nothing
  rcases hk with rfl | rfl | rfl | rfl | rfl | rfl | rfl | rfl | rfl | rfl
  all_goals first
    | exact allOf_nil
    | exact (ofResult_toResult _).symm ▸ Blocks.ofRule_uniqueNames _ _

/-- Merging reports second declarations, and blocks of a type that nothing is known about. -/
theorem MergeTable.ofRule_mergeBlock (t : MergeTable) (b : Block) :
    AllOf OfRule (t.mergeBlock b).2 := by
  have hcase := t.mergeCase b
  generalize t.policy? b.blockType = policy at hcase
  generalize t.mergeBlock b = result at hcase ⊢
  cases hcase with
  | unknown => simpa using ofRule_schema rfl
  | fused => exact (Blocks.ofBlock_absorbAll _ _).ofRule
  | repeated h => simpa using ofRule_redeclared rfl
  | appended | unique | replaced | added => exact allOf_nil

/-- Merging the blocks of a file reports diagnostics of rules. -/
theorem MergeTable.ofRule_mergeBlocks (t : MergeTable) (bs : List Block) :
    AllOf OfRule (t.mergeBlocks bs).2 := by
  induction bs generalizing t with
  | nil => exact allOf_nil
  | cons b bs ih => exact allOf_append.2 ⟨t.ofRule_mergeBlock b, ih _⟩

/-- Merging files reports diagnostics of rules. -/
theorem MergeTable.ofRule_mergeFiles (t : MergeTable) (files : List SourceFile) :
    AllOf OfRule (t.mergeFiles files).2 := by
  induction files generalizing t with
  | nil => exact allOf_nil
  | cons f files ih =>
    have hattributes : AllOf OfRule (t.mergeAttributes f.body.attributes).2 := by
      intro d hd
      obtain ⟨name, first, range, rfl⟩ := MergedBlock.exists_of_mem_absorbAttributes hd
      exact ofRule_redeclared rfl
    exact allOf_append.2
      ⟨allOf_append.2 ⟨hattributes, MergeTable.ofRule_mergeBlocks _ _⟩, ih _⟩

end ScopeConfig
