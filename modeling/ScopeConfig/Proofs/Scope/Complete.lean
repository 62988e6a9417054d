import ScopeConfig.Proofs.Config.Contents
import ScopeConfig.Proofs.Merge.Complete
import ScopeConfig.Proofs.Scope.Steps
import ScopeConfig.Project.FileTree

/-!
# A successful session leaves nothing out

The configuration that a session with the kinds that need no registration gives is made of
everything that the files of the scope declare, and of nothing else: every top-level attribute and
every block is in it once, in the order of the files and, within a file, of its declarations.

## Main statements

* `table_holds`: the merged table holds all attributes and blocks of the files.
* `run_ok_complete`: every field of the configuration, in terms of the files.
-/

namespace ScopeConfig

open Syntax Blocks

/-! ## Policies of a registry -/

namespace Registry

/-- A type has a policy exactly as a kind of this name has it. -/
theorem policyFor_eq_some {r : Registry} {blockType : String} {policy : MergePolicy}
    (h : MergeTable.policyFor r.policies blockType = some policy) :
    ∃ k ∈ r.kinds, k.name = blockType ∧ k.policy = policy := by
  obtain ⟨entry, hfind, rfl⟩ := Option.map_eq_some_iff.1 h
  have hname : entry.1 = blockType := by simpa using List.find?_some hfind
  have hmem := List.mem_reverse.1 (List.mem_of_find?_eq_some hfind)
  obtain ⟨k, hk, rfl⟩ := List.mem_map.1 hmem
  exact ⟨k, hk, hname, rfl⟩

/-- The policy for the type of a kind is the policy of the kind. -/
theorem policyFor_of_mem {r : Registry} {k : BlockKind} (hk : k ∈ r.kinds) :
    MergeTable.policyFor r.policies k.name = some k.policy := by
  cases hpolicy : MergeTable.policyFor r.policies k.name with
  | none =>
    have hfind := Option.map_eq_none_iff.1 hpolicy
    have hne := List.find?_eq_none.1 hfind (k.name, k.policy)
      (List.mem_reverse.2 (List.mem_map.2 ⟨k, hk, rfl⟩))
    simp at hne
  | some policy =>
    obtain ⟨k', hk', hname, rfl⟩ := policyFor_eq_some hpolicy
    rw [List.inj_on_of_nodup_map r.nodup hk' hk hname]

/-- No builtin kind overrides. -/
theorem builtin_not_override (blockType : String) :
    MergeTable.policyFor builtin.policies blockType ≠ some .override := by
  intro h
  obtain ⟨k, hk, -, hpolicy⟩ := policyFor_eq_some h
  have hall : ∀ k ∈ builtinKinds, k.policy ≠ .override := by decide
  exact hall k hk hpolicy

end Registry

namespace Session

/-! ## The stages of a successful session -/

/-- A run is accepted exactly if its directory is inside the project and its assembly has no errors;
the configuration is then that of the assembly. -/
theorem run_eq_ok_iff {s : Session} {c : Config} :
    s.run = .ok c ↔ s.inside = true ∧ s.assembly.errors = [] ∧ s.assembly.config = c := by
  unfold run
  by_cases hinside : s.inside = true
  · by_cases herrors : s.assembly.errors = []
    · simp [hinside, herrors]
    · simp [hinside, herrors]
  · simp [hinside]

/-- A session that succeeds had no error at any stage, and its result is what was assembled. -/
theorem of_run_eq_ok {s : Session} {c : Config} (h : s.run = .ok c) :
    let all := (MergeTable.new s.registry.policies).mergeFiles s.effectiveFiles.1
    let recorded := { Config.new s.dir with attributes := all.1.attributes }.recordAll s.options
      (s.registry.calls all.1)
    all.2 = [] ∧ recorded.2 = [] ∧ s.registry.check s.options recorded.1 = [] ∧ recorded.1 = c := by
  intro all recorded
  obtain ⟨-, herrors, hconfig⟩ := run_eq_ok_iff.1 h
  have hall : s.effectiveFiles.2 ++
      (all.2 ++ recorded.2 ++ s.registry.check s.options recorded.1) = [] :=
    herrors
  simp only [List.append_eq_nil_iff] at hall
  exact ⟨hall.2.1.1, hall.2.1.2, hall.2.2, hconfig⟩

/-- The merged table of files without conflicts holds all their attributes, and all their blocks
but those that import files. -/
theorem table_holds {files : List SourceFile}
    (hok : ((MergeTable.new Registry.builtin.policies).mergeFiles files).2 = []) :
    MergeTable.Holds Registry.builtin.policies (files.flatMap (·.body.attributes.entries))
      (files.flatMap fun f => f.body.blocks.filter (!isImport ·))
      ((MergeTable.new Registry.builtin.policies).mergeFiles files).1 := by
  have hholds := (MergeTable.Holds.new Registry.builtin.policies).mergeFiles
    Registry.builtin_not_override hok
  simpa using hholds

/-- The blocks of a type are the same with and without the blocks that import files, when the type
is another one. -/
theorem filter_blockType (files : List SourceFile) {blockType : String}
    (hne : blockType ≠ importType) :
    (files.flatMap fun f => f.body.blocks.filter (!isImport ·)).filter (·.blockType = blockType) =
      (files.flatMap (·.body.blocks)).filter (·.blockType = blockType) := by
  rw [List.filter_flatMap, List.filter_flatMap]
  refine List.flatMap_congr fun f _ => ?_
  rw [List.filter_filter]
  refine List.filter_congr fun b _ => ?_
  by_cases hb : b.blockType = blockType
  · simp [isImport, hb, hne]
  · simp [hb]

/-- Whether there are blocks of a type. -/
theorem isEmpty_filter_blockType (files : List SourceFile) (blockType : String) :
    (!((files.flatMap (·.body.blocks)).filter (·.blockType = blockType)).isEmpty) = true ↔
      ∃ f ∈ files, ∃ b ∈ f.body.blocks, b.blockType = blockType := by
  simp only [Bool.not_eq_true', List.isEmpty_eq_false_iff_exists_mem, List.mem_filter,
    List.mem_flatMap, decide_eq_true_eq]
  constructor
  · rintro ⟨b, ⟨f, hf, hb⟩, htype⟩
    exact ⟨f, hf, b, hb, htype⟩
  · rintro ⟨f, hf, b, hb, htype⟩
    exact ⟨b, ⟨f, hf, hb⟩, htype⟩

section Table

variable {files : List SourceFile} {t : MergeTable}
  (h : MergeTable.Holds Registry.builtin.policies (files.flatMap (·.body.attributes.entries))
    (files.flatMap fun f => f.body.blocks.filter (!isImport ·)) t)
include h

/-- The kept blocks of a kind that is not merged by label are all the blocks of its type. -/
theorem unmergedOf_of_holds {k : BlockKind} (hk : k ∈ Registry.builtin.kinds)
    (hne : k.policy ≠ .mergeByLabel) :
    t.unmergedOf k.name = (files.flatMap (·.body.blocks)).filter (·.blockType = k.name) := by
  have hpolicy := Registry.policyFor_of_mem hk
  rw [h.unmergedOf_eq (by simpa [hpolicy] using hne)]
  apply filter_blockType files
  intro heq
  exact Registry.builtin.not_reserved (heq ▸ List.mem_map_of_mem hk)

/-- Every block of the files is of a known type, or imports files. -/
theorem known_or_import_of_holds {f : SourceFile} (hf : f ∈ files) {b : Block}
    (hb : b ∈ f.body.blocks) :
    b.blockType ∈ Registry.builtinKinds.map BlockKind.name ∨ b.blockType = importType := by
  by_cases himport : b.blockType = importType
  · exact .inr himport
  · left
    have hmem : b ∈ files.flatMap fun f => f.body.blocks.filter (!isImport ·) :=
      List.mem_flatMap.2 ⟨f, hf, List.mem_filter.2 ⟨hb, by simpa [isImport] using himport⟩⟩
    obtain ⟨policy, hpolicy⟩ := Option.isSome_iff_exists.1 (h.known b hmem)
    obtain ⟨k, hk, hname, -⟩ := Registry.policyFor_eq_some hpolicy
    exact hname ▸ List.mem_map_of_mem hk

/-- There are merged project settings when a block declares some. -/
theorem isEmpty_mergedOf_project :
    (t.mergedOf projectKind.name).isEmpty =
      ((files.flatMap (·.body.blocks)).filter (·.blockType = "terramate")).isEmpty := by
  have hpolicy : MergeTable.policyFor Registry.builtin.policies "terramate" =
      some .mergeByLabel :=
    Registry.policyFor_of_mem projectKind_mem
  have hgroups := h.groups_mergedOf hpolicy
  rw [filter_blockType files (by decide)] at hgroups
  exact hgroups.isEmpty_eq

/-- The merged `globals` are the groups of the `globals` blocks by their labels. -/
theorem globals_of_holds :
    let blocks := (files.flatMap (·.body.blocks)).filter (·.blockType = "globals")
    (t.mergedOf "globals").map MergedBlock.labels = (blocks.map Block.labelTexts).eraseDups ∧
      ∀ m ∈ t.mergedOf "globals", m.blockType = "globals" ∧
        m.origins = blocks.filter (·.labelTexts = m.labels) ∧
        m.attributes.entries = m.origins.flatMap (·.attributes.entries) := by
  intro blocks
  have hpolicy : MergeTable.policyFor Registry.builtin.policies "globals" = some .mergeByLabel :=
    Registry.policyFor_of_mem globalsKind_mem
  have hgroups := h.groups_mergedOf hpolicy
  rw [filter_blockType files (by decide)] at hgroups
  -- among `globals` blocks, the labels make the identity
  have hidentity : ∀ b ∈ blocks, b.identity = ⟨"globals", b.labelTexts⟩ := by
    intro b hb
    have htype : b.blockType = "globals" := by simpa using (List.mem_filter.1 hb).2
    rw [Block.identity, htype]
  have hmerged : ∀ m ∈ t.mergedOf "globals", m.identity = ⟨"globals", m.labels⟩ := by
    intro m hm
    have htype : m.blockType = "globals" := by simpa using (List.mem_filter.1 hm).2
    rw [← htype]
    rfl
  refine ⟨?_, fun m hm => ⟨?_, ?_, h.gathered_mergedOf _ m hm⟩⟩
  · have hblocks : blocks.map Block.identity =
        (blocks.map Block.labelTexts).map (BlockIdentity.mk "globals") := by
      rw [List.map_map]
      exact List.map_congr_left hidentity
    have hids := hgroups.identities
    rw [hblocks, eraseDups_map (fun _ _ heq => (BlockIdentity.mk.inj heq).2)] at hids
    calc (t.mergedOf "globals").map MergedBlock.labels
      _ = ((t.mergedOf "globals").map MergedBlock.identity).map BlockIdentity.labels := by
        rw [List.map_map]
        rfl
      _ = (((blocks.map Block.labelTexts).eraseDups).map (BlockIdentity.mk "globals")).map
          BlockIdentity.labels := by
        rw [hids]
      _ = (blocks.map Block.labelTexts).eraseDups := by
        simp [Function.comp_def]
  · simpa using (List.mem_filter.1 hm).2
  · rw [hgroups.origins m hm]
    refine List.filter_congr fun b hb => ?_
    rw [hidentity b hb, hmerged m hm]
    simp

end Table

section Complete

variable {provider : Provider} {options : Options} {root dir : Path} {c : Config}

/-- The table that a successful session merges, and the configuration that it records from it. -/
theorem holds_of_run_eq_ok (h : (new .builtin provider options root dir).run = .ok c) :
    let files := (new .builtin provider options root dir).effectiveFiles.1
    ∃ t, MergeTable.Holds Registry.builtin.policies (files.flatMap (·.body.attributes.entries))
        (files.flatMap fun f => f.body.blocks.filter (!isImport ·)) t ∧
      c.attributes = t.attributes ∧
      (∀ l : ListedKind, l.ranges c = (t.unmergedOf l.kind.name).map Block.range) ∧
      c.globals = t.mergedOf globalsKind.name ∧
      c.project.isSome = !(t.mergedOf projectKind.name).isEmpty ∧
      c.stack.isSome = !(t.unmergedOf stackKind.name).isEmpty := by
  intro files
  obtain ⟨hmerge, hrecord, -, rfl⟩ := of_run_eq_ok h
  refine ⟨_, table_holds hmerge, ?_, fun l => ?_, ?_, ?_, ?_⟩
  · exact attributes_recordAll_calls hrecord
  · refine (ranges_recordAll_calls hrecord l).trans ?_
    cases l <;> rfl
  · exact globals_recordAll_calls hrecord
  · exact isSome_project_recordAll_calls hrecord
  · exact isSome_stack_recordAll_calls hrecord

/-- Nothing is lost or invented by a session that succeeds. Its files are those of the directory,
each followed by the files that it adds by importing them, and its configuration holds: all their
top-level attributes in order; one merged block for each list of labels of their `globals` blocks,
in the order in which the labels were first seen, made of all the blocks with these labels and all
their attributes in order; one entry, with the range of the block and in the order of the blocks,
for each block of the types that are listed; and project settings and a stack if there is a block
that declares them. No other top-level block is in the files, apart from those that import. -/
theorem run_ok_complete {provider : Provider} {options : Options} {root dir : Path} {c : Config}
    (h : (new .builtin provider options root dir).run = .ok c) :
    let files := (new .builtin provider options root dir).effectiveFiles.1
    let ofType := fun blockType =>
      (files.flatMap (·.body.blocks)).filter (·.blockType = blockType)
    c.attributes.entries = files.flatMap (·.body.attributes.entries) ∧
      (c.globals.map MergedBlock.labels =
          ((ofType "globals").map Block.labelTexts).eraseDups ∧
        ∀ m ∈ c.globals, m.blockType = "globals" ∧
          m.origins = (ofType "globals").filter (·.labelTexts = m.labels) ∧
          m.attributes.entries = m.origins.flatMap (·.attributes.entries)) ∧
      c.scripts.map (·.range) = (ofType "script").map (·.range) ∧
      c.inputs.map (·.range) = (ofType "input").map (·.range) ∧
      c.outputs.map (·.range) = (ofType "output").map (·.range) ∧
      c.sharingBackends.map (·.range) = (ofType "sharing_backend").map (·.range) ∧
      c.asserts.map (·.range) = (ofType "assert").map (·.range) ∧
      c.generatedHcls.map (·.range) = (ofType "generate_hcl").map (·.range) ∧
      c.generatedFiles.map (·.range) = (ofType "generate_file").map (·.range) ∧
      (c.stack.isSome = true ↔ ∃ f ∈ files, ∃ b ∈ f.body.blocks, b.blockType = "stack") ∧
      (c.project.isSome = true ↔ ∃ f ∈ files, ∃ b ∈ f.body.blocks, b.blockType = "terramate") ∧
      ∀ f ∈ files, ∀ b ∈ f.body.blocks,
        b.blockType ∈ Registry.builtinKinds.map BlockKind.name ∨ b.blockType = importType := by
  intro files ofType
  obtain ⟨t, hholds, hattributes, hranges, hglobals, hproject, hstack⟩ := holds_of_run_eq_ok h
  -- the kinds that list their blocks keep all of them, so one argument serves the seven lists
  have hlisted : ∀ l : ListedKind, l.ranges c = (ofType l.kind.name).map Block.range := by
    intro l
    rw [hranges l, unmergedOf_of_holds hholds l.kind_mem l.policy_ne]
  refine ⟨?_, ?_, hlisted .scripts, hlisted .inputs, hlisted .outputs, hlisted .backends,
    hlisted .asserts, hlisted .hcls, hlisted .files, ?_, ?_, ?_⟩
  · rw [hattributes, hholds.attributes_eq]
  · rw [hglobals]
    exact globals_of_holds hholds
  · rw [hstack, unmergedOf_of_holds hholds stackKind_mem (by simp [stackKind])]
    exact isEmpty_filter_blockType files "stack"
  · rw [hproject, isEmpty_mergedOf_project hholds]
    exact isEmpty_filter_blockType files "terramate"
  · intro f hf b hb
    exact known_or_import_of_holds hholds hf hb

end Complete

/-! ## A scope with an import -/

/-- A file of the directory `/s` imports one of the directory `/x`; both declare globals. -/
def sharedScope : List (Path × String) :=
  [(.ofText "/s/a.tm",
      "x = 1\nimport \x7b\n  source = \"/x/b.tm\"\n\x7d\nglobals \x7b\n  a = 1\n\x7d\n"),
    (.ofText "/x/b.tm", "y = 2\nglobals \x7b\n  b = 2\n\x7d\n")]

/-- The session that loads `/s`. -/
def sharedSession : Session :=
  new .builtin (FileTree.ofList sharedScope).provider ⟨.empty⟩ .root (.ofText "/s")

/-- The scope with the shared file is accepted, with the attributes of both files and one merged
`globals` block. -/
theorem runWithin_sharedSession :
    (sharedSession.runWithin 4).map (fun result => result.toOption.map fun c =>
        (c.attributes.names, c.globals.map fun m => m.attributes.names)) =
      some (some (["x", "y"], [["a", "b"]])) := by
  decide +kernel

/-- The attributes of both files are there, and their globals are one. -/
theorem run_ok_complete_sharedScope :
    ∃ c, sharedSession.run = .ok c ∧ c.attributes.names = ["x", "y"] ∧
      c.globals.map (fun m => m.attributes.names) = [["a", "b"]] ∧
      c.attributes.entries =
        sharedSession.effectiveFiles.1.flatMap (·.body.attributes.entries) ∧
      c.globals.map MergedBlock.labels =
        (((sharedSession.effectiveFiles.1.flatMap (·.body.blocks)).filter
          (·.blockType = "globals")).map Block.labelTexts).eraseDups := by
  obtain ⟨result, hresult, hfields⟩ := Option.map_eq_some_iff.1 runWithin_sharedSession
  cases result with
  | error faults => cases hfields
  | ok c =>
    have hrun : (new .builtin (FileTree.ofList sharedScope).provider ⟨.empty⟩ .root
        (.ofText "/s")).run = .ok c := run_eq_runWithin hresult
    obtain ⟨hnames, hmerged⟩ := Prod.mk.inj (Option.some.inj hfields)
    obtain ⟨hattributes, ⟨hlabels, -⟩, -⟩ := run_ok_complete hrun
    exact ⟨c, hrun, hnames, hmerged, hattributes, hlabels⟩

end Session

end ScopeConfig
