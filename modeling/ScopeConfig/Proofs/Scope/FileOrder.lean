import ScopeConfig.Proofs.Blocks.OrderFree
import ScopeConfig.Proofs.Config.Acceptance
import ScopeConfig.Proofs.Merge.Distinct
import ScopeConfig.Proofs.Scope.Complete

/-!
# The order of the files does not matter for success

Files are assembled without errors in one order exactly when they are in every other, and then to
the same configuration up to the order of everything that is listed in it. Each stage is shown to
depend on its input up to order only: merging, by what is declared; recording, by the settings of
the project and by each block alone; and the checks at the end, by the names. Errors are not
compared: which of two conflicting declarations is reported depends on the order.

## Main statements

* `assemble_perm`: success and its result for files in another order.
-/

namespace ScopeConfig

open Syntax Blocks

/-! ## Configurations up to order -/

/-- Two configurations that differ in the order of list entries, of origins and of table entries
only, at every depth. -/
structure Config.Alike (c c' : Config) : Prop where
  dir : c.dir = c'.dir
  attributes : c.attributes.entries.Perm c'.attributes.entries
  project : Option.Rel ProjectSettings.Alike c.project c'.project
  stack : c.stack = c'.stack
  globals : MergedBlock.AlikeAll c.globals c'.globals
  scripts : c.scripts.Perm c'.scripts
  inputs : c.inputs.Perm c'.inputs
  outputs : c.outputs.Perm c'.outputs
  sharingBackends : c.sharingBackends.Perm c'.sharingBackends
  asserts : c.asserts.Perm c'.asserts
  generatedHcls : c.generatedHcls.Perm c'.generatedHcls
  generatedFiles : c.generatedFiles.Perm c'.generatedFiles

/-- The checks at the end do not see the order. -/
theorem Config.Alike.check {options : Options} {c c' : Config} (h : c.Alike c')
    (hok : Registry.builtin.check options c = []) : Registry.builtin.check options c' = [] := by
  rw [check_builtin_ok_iff] at hok ⊢
  obtain ⟨hbackends, hinputs, houtputs, hlabels⟩ := hok
  refine ⟨?_, ?_, ?_, ?_⟩
  · exact (h.sharingBackends.map _).nodup_iff.1 hbackends
  · exact (h.inputs.map _).nodup_iff.1 hinputs
  · exact (h.outputs.map _).nodup_iff.1 houtputs
  · exact ((h.generatedHcls.map _).append (h.generatedFiles.map _)).nodup_iff.1 hlabels

/-- The same experiments are declared by settings that are alike. -/
theorem declaredExperiments_eq_of_rel {c c' : Config}
    (h : Option.Rel ProjectSettings.Alike c.project c'.project) :
    c.declaredExperiments = c'.declaredExperiments := by
  rw [Config.declaredExperiments, Config.declaredExperiments]
  generalize c.project = x at h ⊢
  generalize c'.project = y at h ⊢
  cases h with
  | none => rfl
  | @some x y hxy =>
    obtain ⟨_, _, config⟩ := x
    obtain ⟨_, _, config'⟩ := y
    have hconfig : Option.Rel RootSettings.Alike config config' := hxy.config
    cases hconfig with
    | none => rfl
    | some hroot => exact hroot.experiments

/-! ## Tables up to order -/

/-- Two tables that differ in order only. -/
structure MergeTable.Alike (t t' : MergeTable) : Prop where
  attributes : t.attributes.entries.Perm t'.attributes.entries
  merged : MergedBlock.AlikeAll t.merged t'.merged
  unmerged : t.unmerged.Perm t'.unmerged

section Files

variable {files files' : List SourceFile} (hperm : files.Perm files')
  (hdistinct : MergeTable.Distinct Registry.builtin.policies files)
include hperm hdistinct

/-- Files whose declarations go together make the same table, up to order. -/
theorem mergeFiles_alike :
    ((MergeTable.new Registry.builtin.policies).mergeFiles files).1.Alike
      ((MergeTable.new Registry.builtin.policies).mergeFiles files').1 := by
  have hholds := Session.table_holds
    ((MergeTable.mergeFiles_ok_iff Registry.builtin_not_override).2 hdistinct)
  have hholds' := Session.table_holds
    ((MergeTable.mergeFiles_ok_iff Registry.builtin_not_override).2 (hdistinct.perm hperm))
  refine ⟨?_, ?_, ?_⟩
  · rw [hholds.attributes_eq, hholds'.attributes_eq]
    exact hperm.flatMap_right _
  · exact (MergeTable.Merged.of_files _ files).fused.alike
      (MergeTable.Merged.of_files _ files').fused
      ((MergeTable.scopeBlocks_perm hperm).filter _) hdistinct.fused
  · rw [hholds.unmerged_eq, hholds'.unmerged_eq]
    exact (MergeTable.scopeBlocks_perm hperm).filter _

end Files

/-! ## Recording tables that are alike -/

namespace MergeTable.Alike

variable {t t' : MergeTable} (h : t.Alike t')
include h

/-- Alike tables have alike merged blocks of every type. -/
theorem mergedOf (blockType : String) :
    MergedBlock.AlikeAll (t.mergedOf blockType) (t'.mergedOf blockType) :=
  h.merged.filter blockType

theorem unmergedOf (blockType : String) :
    (t.unmergedOf blockType).Perm (t'.unmergedOf blockType) :=
  h.unmerged.filter _

/-- A call of one table has a counterpart in the other: the same block, or a merged block that is
alike. -/
theorem exists_call {call : Call} (hcall : call ∈ Registry.builtin.calls t') :
    call ∈ Registry.builtin.calls t ∨ ∃ m n, m.Alike n ∧ call.form = .merged n ∧
      ⟨call.kind, .merged m⟩ ∈ Registry.builtin.calls t := by
  obtain ⟨k, hk, hcall⟩ := List.mem_flatMap.1 hcall
  rw [BlockKind.calls] at hcall
  split at hcall
  · rename_i hpolicy
    obtain ⟨n, hn, rfl⟩ := List.mem_map.1 hcall
    obtain ⟨m, hm, hmn⟩ := (h.mergedOf k.name).exists_of_mem hn
    exact .inr ⟨m, n, hmn, rfl, Registry.mem_calls_merged hk hpolicy hm⟩
  · rename_i hpolicy
    obtain ⟨b, hb, rfl⟩ := List.mem_map.1 hcall
    exact .inl (Registry.mem_calls_raw hk hpolicy ((h.unmergedOf k.name).mem_iff.2 hb))

end MergeTable.Alike

/-- A kind accepts merged blocks that are alike. -/
theorem accepts_of_alike {k : BlockKind} (hk : k ∈ Registry.builtinKinds) {options : Options}
    {c : Config} {m n : MergedBlock} (h : m.Alike n) (hread : k.Accepts options c (.merged m)) :
    k.Accepts options c (.merged n) := by
  simp only [Registry.builtinKinds, List.mem_cons, List.not_mem_nil, or_false] at hk
  rcases hk with rfl | rfl | rfl | rfl | rfl | rfl | rfl | rfl | rfl | rfl
  · rw [projectKind_accepts_iff, ← List.length_eq_zero_iff] at hread ⊢
    rwa [← length_projectFaults h]
  · rw [globalsKind_accepts_iff, ← List.length_eq_zero_iff] at hread ⊢
    rwa [← (length_freeFaults_and_mapFaults m n h).1]
  -- the other kinds are never given merged blocks
  all_goals exact ⟨c, rfl⟩

/-! ### What is recorded -/

/-- The configuration that recording begins with. -/
def Config.start (dir : Path) (attributes : AttributeTable) : Config :=
  { Config.new dir with attributes }

/-- A list of at most one member has no other order. -/
theorem eq_of_perm_of_length_le_one {α : Type} {l l' : List α} (h : l.Perm l')
    (hle : l.length ≤ 1) : l = l' := by
  match l with
  | [] => exact (List.perm_nil.1 h.symm).symm
  | [a] => exact (List.perm_singleton.1 h.symm).symm

/-- Stacks of distinct identities, none of which takes labels, are not more than one. -/
theorem MergeTable.length_unmergedOf_stack_le_one (t : MergeTable)
    (hnodup : ((t.unmergedOf stackKind.name).map Block.identity).Nodup)
    (hok : ∀ b ∈ t.unmergedOf stackKind.name, stackFaults b = []) :
    (t.unmergedOf stackKind.name).length ≤ 1 := by
  refine length_le_one_of_nodup_map (k := ⟨stackKind.name, []⟩) hnodup fun b hb => ?_
  have hfaults := hok b hb
  simp only [stackFaults, List.append_eq_nil_iff] at hfaults
  have htype : b.blockType = stackKind.name := of_decide_eq_true (List.mem_filter.1 hb).2
  rw [Block.identity, htype, labels_of_noLabels hfaults.1.1]

section Recording

variable {options : Options} {dir : Path} {t t' : MergeTable} (h : t.Alike t')
include h

/-- The settings of the project are the same, if they are made of blocks and there is nothing wrong
with them. -/
theorem settings_rel {bs : List Block} (hfused : MergedBlock.Fused t.merged bs)
    (hok : ∀ m ∈ t.mergedOf projectKind.name, projectFaults m = []) :
    Option.Rel ProjectSettings.Alike t.settings t'.settings := by
  have hlabels : ∀ m ∈ t.merged.filter (·.blockType = projectKind.name), mergedNoLabels m = [] := by
    intro m hm
    have hfaults := hok m hm
    simp only [projectFaults, List.append_eq_nil_iff] at hfaults
    exact hfaults.1.1.1
  refine (h.mergedOf projectKind.name).rel_getLast?
    (length_filter_le_one hfused.groups _ hlabels) fun m hm n hmn => ?_
  exact projectSettings_alike hmn (hfused.children m (List.mem_filter.1 hm).1) (hok m hm)

/-- There is at most one stack, so its place among the blocks does not matter. -/
theorem unmergedOf_stack_eq
    (hunique : ((MergeTable.uniqueBlocks Registry.builtin.policies t.unmerged).map
      Block.identity).Nodup)
    (hok : ∀ b ∈ t.unmergedOf stackKind.name, stackFaults b = []) :
    t.unmergedOf stackKind.name = t'.unmergedOf stackKind.name := by
  refine eq_of_perm_of_length_le_one (h.unmergedOf _) ?_
  have hpolicy : MergeTable.policyFor Registry.builtin.policies stackKind.name =
      some .uniqueByLabel :=
    Registry.policyFor_of_mem stackKind_mem
  have hunmerged : t.unmergedOf stackKind.name =
      (MergeTable.uniqueBlocks Registry.builtin.policies t.unmerged).filter
        (·.blockType = stackKind.name) := by
    rw [MergeTable.uniqueBlocks, List.filter_filter, MergeTable.unmergedOf]
    refine List.filter_congr fun b _ => ?_
    by_cases hb : b.blockType = stackKind.name
    · simp [hb, hpolicy]
    · simp [hb]
  refine t.length_unmergedOf_stack_le_one ?_ hok
  rw [hunmerged]
  exact hunique.sublist (List.filter_sublist.map _)

/-- Tables that are alike are recorded alike: without errors from both or from neither. -/
theorem recordAll_alike {bs : List Block} (hfused : MergedBlock.Fused t.merged bs)
    (hunique : ((MergeTable.uniqueBlocks Registry.builtin.policies t.unmerged).map
      Block.identity).Nodup)
    (hok : ((Config.start dir t.attributes).recordAll options (Registry.builtin.calls t)).2 = []) :
    ((Config.start dir t'.attributes).recordAll options (Registry.builtin.calls t')).2 = [] ∧
      ((Config.start dir t.attributes).recordAll options (Registry.builtin.calls t)).1.Alike
        ((Config.start dir t'.attributes).recordAll options (Registry.builtin.calls t')).1 := by
  have haccepted := (recordAll_ok_iff rfl).1 hok
  have hproject : ∀ m ∈ t.mergedOf projectKind.name, projectFaults m = [] := fun m hm =>
    projectKind_accepts_iff.1 (haccepted _ (Registry.mem_calls_merged projectKind_mem rfl hm))
  have hstack : ∀ b ∈ t.unmergedOf stackKind.name, stackFaults b = [] := fun b hb =>
    stackKind_accepts_iff.1
      (haccepted _ (Registry.mem_calls_raw stackKind_mem (by simp [stackKind]) hb))
  have hsettings := settings_rel h hfused hproject
  have hok' : ((Config.start dir t'.attributes).recordAll options
      (Registry.builtin.calls t')).2 = [] := by
    refine (recordAll_ok_iff rfl).2 fun call hcall => ?_
    have hkind := (Registry.builtin.of_mem_calls t' hcall).1
    have hexperiments :
        ({ Config.start dir t.attributes with
          project := t.settings } : Config).declaredExperiments =
          ({ Config.start dir t'.attributes with
            project := t'.settings } : Config).declaredExperiments :=
      declaredExperiments_eq_of_rel hsettings
    refine accepts_congr hexperiments hkind ?_
    rcases h.exists_call hcall with hsame | ⟨m, n, hmn, hform, hm⟩
    · exact haccepted call hsame
    · rw [hform]
      exact accepts_of_alike hkind hmn (haccepted _ hm)
  refine ⟨hok', ?_⟩
  -- a list of the configuration holds what the kept blocks of its kind declare
  have hentries : ∀ l : ListedKind,
      (l.entries ((Config.start dir t.attributes).recordAll options
        (Registry.builtin.calls t)).1).Perm
      (l.entries ((Config.start dir t'.attributes).recordAll options
        (Registry.builtin.calls t')).1) := by
    intro l
    rw [entries_recordAll_calls hok, entries_recordAll_calls hok']
    exact ((h.unmergedOf l.kind.name).filterMap _).append_left _
  exact {
    dir := by rw [dir_recordAll_calls hok, dir_recordAll_calls hok']; rfl
    attributes := by
      rw [attributes_recordAll_calls hok, attributes_recordAll_calls hok']
      exact h.attributes
    project := by
      rw [project_recordAll_calls hok, project_recordAll_calls hok', Config.start, Config.start,
        Config.new, Option.or_none, Option.or_none]
      exact hsettings
    stack := by
      rw [stack_recordAll_calls hok, stack_recordAll_calls hok',
        unmergedOf_stack_eq h hunique hstack]
      rfl
    globals := by
      rw [globals_recordAll_calls hok, globals_recordAll_calls hok']
      exact h.mergedOf globalsKind.name
    scripts := hentries .scripts
    inputs := hentries .inputs
    outputs := hentries .outputs
    sharingBackends := hentries .backends
    asserts := hentries .asserts
    generatedHcls := hentries .hcls
    generatedFiles := hentries .files }

end Recording

/-! ## The whole -/

/-- An assembly has no errors exactly if what its files declare is distinct, every block is recorded
and the checks at the end find nothing. -/
theorem Registry.assemble_errors_eq_nil_iff {options : Options} {dir : Path}
    {files : List SourceFile} :
    let t := ((MergeTable.new Registry.builtin.policies).mergeFiles files).1
    let recorded := (Config.start dir t.attributes).recordAll options (Registry.builtin.calls t)
    (Registry.builtin.assemble options dir files).errors = [] ↔
      MergeTable.Distinct Registry.builtin.policies files ∧ recorded.2 = [] ∧
        Registry.builtin.check options recorded.1 = [] := by
  intro t recorded
  have herrors : (Registry.builtin.assemble options dir files).errors =
      ((MergeTable.new Registry.builtin.policies).mergeFiles files).2 ++ recorded.2 ++
        Registry.builtin.check options recorded.1 :=
    rfl
  rw [herrors, List.append_eq_nil_iff, List.append_eq_nil_iff, and_assoc,
    MergeTable.mergeFiles_ok_iff Registry.builtin_not_override]

/-- Files that are assembled without errors are in every order, to configurations that are alike. -/
theorem Registry.assemble_perm_of_ok {options : Options} {dir : Path}
    {files files' : List SourceFile} (hperm : files.Perm files')
    (hok : (Registry.builtin.assemble options dir files).errors = []) :
    (Registry.builtin.assemble options dir files').errors = [] ∧
      (Registry.builtin.assemble options dir files).config.Alike
        (Registry.builtin.assemble options dir files').config := by
  obtain ⟨hdistinct, hrecord, hcheck⟩ := Registry.assemble_errors_eq_nil_iff.1 hok
  have halike := mergeFiles_alike hperm hdistinct
  have hunique : ((MergeTable.uniqueBlocks Registry.builtin.policies
      ((MergeTable.new Registry.builtin.policies).mergeFiles files).1.unmerged).map
        Block.identity).Nodup := by
    have hholds := Session.table_holds
      ((MergeTable.mergeFiles_ok_iff Registry.builtin_not_override).2 hdistinct)
    rw [hholds.unmerged_eq]
    exact hdistinct.unique.sublist ((List.filter_sublist.filter _).map _)
  obtain ⟨hrecord', hconfig⟩ := recordAll_alike halike
    (MergeTable.Merged.of_files _ files).fused hunique hrecord
  refine ⟨Registry.assemble_errors_eq_nil_iff.2 ⟨hdistinct.perm hperm, hrecord', ?_⟩, hconfig⟩
  exact hconfig.check hcheck

/-- With the kinds that need no registration and any options, files in one order are assembled
without errors exactly when they are in another order. The two configurations then differ in order
only: they have the same attributes, the same merged globals, the same project settings, the same
stack and the same entries in every list. -/
theorem Registry.assemble_perm (options : Options) (dir : Path) {files files' : List SourceFile}
    (hperm : files.Perm files') :
    let whole := Registry.builtin.assemble options dir files
    let whole' := Registry.builtin.assemble options dir files'
    (whole.errors = [] ↔ whole'.errors = []) ∧
      (whole.errors = [] → whole'.errors = [] → whole.config.Alike whole'.config) := by
  intro whole whole'
  refine ⟨⟨fun hok => ?_, fun hok => ?_⟩, fun hok _ => ?_⟩
  · exact (Registry.assemble_perm_of_ok hperm hok).1
  · exact (Registry.assemble_perm_of_ok hperm.symm hok).1
  · exact (Registry.assemble_perm_of_ok hperm hok).2

/-! ### Globals in two files -/

/-- Two files of the directory `/s` that declare globals together. -/
def sharedGlobals : List (Path × String) :=
  [(.ofText "/s/a.tm", "a=1\nglobals\x7bx=1\x7d"), (.ofText "/s/b.tm", "globals\x7by=2\x7d")]

/-- The files, read. -/
def sharedGlobalsFiles : List SourceFile :=
  sharedGlobals.filterMap fun f => (SourceFile.parse f.1 f.2).toOption

/-- The two files are assembled without an error, and their globals are one merged block. -/
theorem Registry.assemble_sharedGlobals :
    let whole := Registry.builtin.assemble ⟨.empty⟩ (.ofText "/s") sharedGlobalsFiles
    (sharedGlobalsFiles.length, whole.errors.isEmpty,
      whole.config.globals.map fun m => m.attributes.names) = (2, true, [["x", "y"]]) := by
  decide +kernel

/-- In the other order of the files there are no errors either, and the one merged block has the
same attributes. -/
theorem Registry.assemble_perm_sharedGlobals :
    let whole := Registry.builtin.assemble ⟨.empty⟩ (.ofText "/s") sharedGlobalsFiles
    let whole' := Registry.builtin.assemble ⟨.empty⟩ (.ofText "/s") sharedGlobalsFiles.reverse
    sharedGlobalsFiles.length = 2 ∧ whole.config.globals.map (·.attributes.names) = [["x", "y"]] ∧
      whole.errors = [] ∧ whole'.errors = [] ∧ whole.config.Alike whole'.config := by
  intro whole whole'
  obtain ⟨hlength, herrors, hglobals⟩ :
      sharedGlobalsFiles.length = 2 ∧ whole.errors.isEmpty = true ∧
        whole.config.globals.map (fun m => m.attributes.names) = [["x", "y"]] := by
    simpa only [Prod.mk.injEq] using Registry.assemble_sharedGlobals
  have hok : whole.errors = [] := List.isEmpty_iff.1 herrors
  obtain ⟨hiff, halike⟩ := Registry.assemble_perm ⟨.empty⟩ (.ofText "/s")
    sharedGlobalsFiles.reverse_perm.symm
  exact ⟨hlength, hglobals, hok, hiff.1 hok, halike hok (hiff.1 hok)⟩

end ScopeConfig
