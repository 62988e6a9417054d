import ScopeConfig.Proofs.Scope.FileOrder
import ScopeConfig.Proofs.Scope.Provenance

/-!
# What has a name has it alone

The names in the configuration of a successful session are distinct. Four things see to it: fusing
blocks leaves one of each identity; a second block of an identity that is unique is an error; the
checks at the end compare the names of the kinds that keep every block; and no path is visited twice
when imports are followed. Each holds of all files together, so it makes no difference which of them
are own and which are imported.

## Main statements

* `nodup_identities_unmergedOf`: blocks of a unique type have distinct identities.
* `run_ok_unique`: the names in a configuration, and the files it is made of.
-/

namespace ScopeConfig

open Syntax Blocks

/-! ## Labels -/

/-- An accepted label of a generated file is not empty. -/
theorem ne_empty_of_fileLabelFaults {b : Block} {label : String} (h : fileLabelFaults b = [])
    (hlabel : label? b = some label) : label ≠ "" := by
  rintro rfl
  simp [fileLabelFaults, hlabel] at h

/-- An accepted script has a label. -/
theorem labels_of_scriptFaults {b : Block} (h : scriptFaults b = []) :
    (scriptOf b).labels ≠ [] := by
  simp only [scriptFaults, List.append_eq_nil_iff] at h
  obtain ⟨⟨⟨⟨hlabels, -⟩, -⟩, -⟩, -⟩ := h
  intro hnone
  have hempty : b.labels = [] := List.map_eq_nil_iff.1 hnone
  simp [hempty] at hlabels

/-! ## Identities -/

/-- Blocks of a unique type that are kept have distinct identities, with or without errors. -/
theorem Registry.nodup_identities_unmergedOf {r : Registry} {k : BlockKind} (hk : k ∈ r.kinds)
    (hpolicy : k.policy = .uniqueByLabel) (files : List SourceFile) :
    ((((MergeTable.new r.policies).mergeFiles files).1.unmergedOf k.name).map
      Block.identity).Nodup := by
  rw [MergeTable.unmergedOf_mergeFiles, policyFor_of_mem hk, hpolicy, MergeTable.kept,
    map_identity_firstOfEach]
  exact nodup_identitiesOf _

/-- Among blocks of one type, distinct identities are distinct labels. -/
theorem nodup_labelTexts {bs : List Block} {blockType : String}
    (hnodup : (bs.map Block.identity).Nodup) (htype : ∀ b ∈ bs, b.blockType = blockType) :
    (bs.map Block.labelTexts).Nodup := by
  refine List.Nodup.of_map (BlockIdentity.mk blockType) ?_
  rw [List.map_map]
  have hidentity : bs.map (BlockIdentity.mk blockType ∘ Block.labelTexts) =
      bs.map Block.identity := by
    refine List.map_congr_left fun b hb => ?_
    rw [Block.identity, htype b hb, Function.comp_apply]
  rwa [hidentity]

namespace Session

/-! ## Successful sessions -/

/-- The files of a scope have distinct paths, since no path is visited twice. -/
theorem nodup_paths_effectiveFiles (s : Session) :
    (s.effectiveFiles.1.map SourceFile.path).Nodup := by
  rw [effectiveFiles_eq_imports, Closure.map_path_files]
  exact (s.importResolver.sound_closureAll [] s.ownFiles.1).paths_nodup

section Recorded

variable {options : Options} {dir : Path} {table : MergeTable} {c : Config}
  (hrecord : (Config.start dir table.attributes).recordAll options (Registry.builtin.calls table) =
    (c, []))
include hrecord

/-- A kept block is accepted by its kind. -/
theorem accepts_of_recordAll {k : BlockKind} (hk : k ∈ Registry.builtin.kinds)
    (hpolicy : k.policy ≠ .mergeByLabel) {b : Block} (hb : b ∈ table.unmergedOf k.name) :
    ∃ c', k.Accepts options c' (.raw b) :=
  ⟨_, (recordAll_ok_iff rfl).1 (congrArg Prod.snd hrecord) _
    (Registry.mem_calls_raw hk hpolicy hb)⟩

/-- The entries of a kind that has a list are what its kept blocks declare. -/
theorem entries_of_recordAll (l : ListedKind) :
    l.entries c = (table.unmergedOf l.kind.name).filterMap l.entry? := by
  have hentries := entries_recordAll_calls (congrArg Prod.snd hrecord) l
  rw [hrecord] at hentries
  refine hentries.trans ?_
  cases l <;> rfl

/-- An entry is what a block declares that its kind accepts. -/
theorem accepted_of_mem_entries (l : ListedKind) {x : l.Entry} (hx : x ∈ l.entries c) :
    ∃ b c', l.entry? b = some x ∧ l.kind.Accepts options c' (.raw b) := by
  rw [entries_of_recordAll hrecord l] at hx
  obtain ⟨b, hb, hentry⟩ := List.mem_filterMap.1 hx
  obtain ⟨c', haccepts⟩ := accepts_of_recordAll hrecord l.kind_mem l.policy_ne hb
  exact ⟨b, c', hentry, haccepts⟩

/-- No two recorded scripts have the same labels. -/
theorem nodup_labels_scripts
    (hnodup : ((table.unmergedOf scriptKind.name).map Block.identity).Nodup) :
    (c.scripts.map (·.labels)).Nodup := by
  have hscripts : c.scripts = (table.unmergedOf scriptKind.name).filterMap (some ∘ scriptOf) :=
    entries_of_recordAll hrecord .scripts
  rw [hscripts, List.filterMap_eq_map, List.map_map]
  exact nodup_labelTexts hnodup fun b hb => of_decide_eq_true (List.mem_filter.1 hb).2

/-- Every recorded script has a label. -/
theorem labels_scripts_ne_nil : ∀ x ∈ c.scripts, x.labels ≠ [] := by
  intro x hx
  obtain ⟨b, c', hentry, _, hread⟩ := accepted_of_mem_entries hrecord .scripts hx
  obtain rfl : scriptOf b = x := Option.some.inj hentry
  exact labels_of_scriptFaults (scriptKind_read_ok hread).1

/-- The labels of generated files, of both kinds, are not empty. -/
theorem labels_generated_ne_empty :
    ∀ label ∈ c.generatedHcls.map (·.label) ++ c.generatedFiles.map (·.label), label ≠ "" := by
  intro label hlabel
  rcases List.mem_append.1 hlabel with hlabel | hlabel
  · obtain ⟨x, hx, rfl⟩ := List.mem_map.1 hlabel
    obtain ⟨b, c', hentry, haccepts⟩ := accepted_of_mem_entries hrecord .hcls hx
    have hfaults : hclFaults b = [] := exists_acceptIf_eq_ok_iff.1 haccepts
    simp only [hclFaults, List.append_eq_nil_iff] at hfaults
    exact ne_empty_of_fileLabelFaults hfaults.1.1.1.1 (label?_of_generatedHcl? hentry)
  · obtain ⟨x, hx, rfl⟩ := List.mem_map.1 hlabel
    obtain ⟨b, c', hentry, haccepts⟩ := accepted_of_mem_entries hrecord .files hx
    have hfaults : fileFaults b = [] := exists_acceptIf_eq_ok_iff.1 haccepts
    simp only [fileFaults, List.append_eq_nil_iff] at hfaults
    exact ne_empty_of_fileLabelFaults hfaults.1.1.1 (label?_of_generatedFile? hentry)

/-- At most one stack block is kept. -/
theorem length_stacks_le_one
    (hnodup : ((table.unmergedOf stackKind.name).map Block.identity).Nodup) :
    (table.unmergedOf stackKind.name).length ≤ 1 := by
  refine table.length_unmergedOf_stack_le_one hnodup fun b hb => ?_
  obtain ⟨c', haccepts⟩ := accepts_of_recordAll hrecord stackKind_mem (by simp [stackKind]) hb
  exact stackKind_accepts_iff.1 haccepts

end Recorded

/-- The names in the configuration of a successful session, with the kinds that need no
registration, of any directory of a project held in memory. The label lists of the globals are
distinct; so are those of the scripts, none of which is empty; so are the names of the inputs, of
the outputs and of the backends; and so are the labels of all generated files, of both kinds
together, none of which is empty. The files of the scope have at most one `stack` block. The
configuration is made of these files, each of them stored in the project under its path, and no path
comes twice. -/
theorem run_ok_unique (stored : List (Path × String)) (options : Options) (root dir : Path)
    {c : Config}
    (h : (new .builtin (FileTree.ofList stored).provider options root dir).run = .ok c) :
    let s := new .builtin (FileTree.ofList stored).provider options root dir
    let files := s.effectiveFiles.1
    let generated := c.generatedHcls.map (·.label) ++ c.generatedFiles.map (·.label)
    (c.globals.map MergedBlock.labels).Nodup ∧
      (c.scripts.map (·.labels)).Nodup ∧ (∀ x ∈ c.scripts, x.labels ≠ []) ∧
      (c.inputs.map (·.name)).Nodup ∧ (c.outputs.map (·.name)).Nodup ∧
      (c.sharingBackends.map (·.name)).Nodup ∧
      generated.Nodup ∧ (∀ label ∈ generated, label ≠ "") ∧
      ((files.flatMap (·.body.blocks)).filter (·.blockType = "stack")).length ≤ 1 ∧
      c = (Registry.builtin.assemble options s.dir files).config ∧
      (files.map SourceFile.path).Nodup ∧
      ∀ f ∈ files, ∃ text, (FileTree.ofList stored).lookup f.path = some text ∧
        SourceFile.parse f.path text = .ok f := by
  intro s files generated
  have hs : s.LoadsFrom (FileTree.ofList stored) := loadsFrom_new .builtin stored options root dir
  set table := ((MergeTable.new Registry.builtin.policies).mergeFiles files).1
  obtain ⟨hmerge, herrors, hcheck, hconfig⟩ := of_run_eq_ok h
  have hrecord : (Config.start s.dir table.attributes).recordAll options
      (Registry.builtin.calls table) = (c, []) := Prod.ext hconfig herrors
  rw [hconfig, show s.registry.check s.options c = Registry.builtin.check options c from rfl,
    check_builtin_ok_iff] at hcheck
  obtain ⟨hbackends, hinputs, houtputs, hgenerated⟩ := hcheck
  -- unique by label: the identities in the table are distinct, and recording keeps the labels
  have hscripts : ((table.unmergedOf scriptKind.name).map Block.identity).Nodup :=
    Registry.nodup_identities_unmergedOf (ListedKind.kind_mem .scripts) rfl files
  have hstack : ((table.unmergedOf stackKind.name).map Block.identity).Nodup :=
    Registry.nodup_identities_unmergedOf stackKind_mem rfl files
  refine ⟨?_, nodup_labels_scripts hrecord hscripts, labels_scripts_ne_nil hrecord, hinputs,
    houtputs, hbackends, hgenerated, labels_generated_ne_empty hrecord, ?_, hconfig.symm,
    s.nodup_paths_effectiveFiles, fun f hf => hs.stored hf⟩
  · rw [(run_ok_complete h).2.1.1]
    exact nodup_eraseDups _
  -- a stack has no labels, so all stacks have one identity
  · have hstacks := length_stacks_le_one hrecord hstack
    rwa [unmergedOf_of_holds (table_holds hmerge) stackKind_mem (by simp [stackKind])] at hstacks

/-! ## A scope with scripts and generated files -/

/-- A file of the directory `/s` imports one of the directory `/x`; both have a script and a
generated file. -/
def scriptedScope : List (Path × String) :=
  [(.ofText "/s/a.tm",
      "import \x7b\n  source = \"/x/b.tm\"\n\x7d\n" ++
        "script \"s\" \x7b\n  job \x7b\n    command = 1\n  \x7d\n\x7d\n" ++
        "generate_file \"a\" \x7b\n  content = 1\n\x7d\n"),
    (.ofText "/x/b.tm",
      "script \"s\" \"t\" \x7b\n  job \x7b\n    command = 1\n  \x7d\n\x7d\n" ++
        "generate_hcl \"b\" \x7b\n  content \x7b\n  \x7d\n\x7d\n")]

/-- The session that loads `/s`, with scripts. -/
def scriptedSession : Session :=
  new .builtin (FileTree.ofList scriptedScope).provider ⟨.ofList [scriptsExperiment]⟩ .root
    (.ofText "/s")

theorem runWithin_scriptedSession :
    (scriptedSession.runWithin 6).map (fun result => result.toOption.map fun c =>
        (c.scripts.map (·.labels),
          c.generatedHcls.map (·.label) ++ c.generatedFiles.map (·.label))) =
      some (some ([["s"], ["s", "t"]], ["b", "a"])) := by
  decide +kernel

/-- The session succeeds with two scripts and two generated files, from two files. -/
theorem run_ok_unique_scriptedScope :
    ∃ c, scriptedSession.run = .ok c ∧ c.scripts.map (·.labels) = [["s"], ["s", "t"]] ∧
      (c.scripts.map (·.labels)).Nodup ∧
      c.generatedHcls.map (·.label) ++ c.generatedFiles.map (·.label) = ["b", "a"] ∧
      (c.generatedHcls.map (·.label) ++ c.generatedFiles.map (·.label)).Nodup ∧
      (scriptedSession.effectiveFiles.1.map SourceFile.path).Nodup := by
  obtain ⟨result, hresult, hfields⟩ := Option.map_eq_some_iff.1 runWithin_scriptedSession
  have hrun := run_eq_runWithin hresult
  cases result with
  | error faults => cases hfields
  | ok c =>
    obtain ⟨hscripts, hgenerated⟩ := Prod.mk.inj (Option.some.inj hfields)
    obtain ⟨-, hlabels, -, -, -, -, hfiles, -, -, -, hpaths, -⟩ :=
      run_ok_unique scriptedScope ⟨.ofList [scriptsExperiment]⟩ .root (.ofText "/s") hrun
    exact ⟨c, hrun, hscripts, hlabels, hgenerated, hfiles, hpaths⟩

end Session

end ScopeConfig
