import ScopeConfig.Proofs.Config.Entries
import ScopeConfig.Proofs.Scope.Dispatch
import ScopeConfig.Proofs.Scope.OwnFiles

/-!
# Where blocks come from

Every file of a scope is the text that the project stores under its path, and it is one of the
directory's own files or was loaded for an import. A file that is loaded for an import is checked
for blocks that may not be imported; the check does not keep the file from being followed and merged
with the others, and it is made only when a path is loaded for the first time. It is enough all the
same: what it finds is an error, and a session with an error has no result. So in a session that has
one, blocks of such a type are from own files, whatever the imports are like.

## Main statements

* `LoadsFrom.stored`: the files of a scope are stored in the project.
* `mem_ownFiles_of_refused`: a session without errors has refused blocks in own files only.
* `run_ok_provenance`: what is given to kinds that take no imported blocks.
-/

namespace ScopeConfig

open Syntax Blocks

/-! ## Loaded files -/

/-- A file that is loaded without errors has no blocks of a refused type. -/
theorem Resolver.not_mem_refused_of_load {r : Resolver} {e : Edge} {f : SourceFile}
    (hload : (r.load e).1 = some f) (hok : (r.load e).2 = []) {b : Block}
    (hb : b ∈ f.body.blocks) : b.blockType ∉ r.refused := by
  unfold load at hload hok
  split at hload
  · cases hload
  · rename_i text hread
    rw [hread] at hok
    split at hload
    · cases hload
    · rename_i g hparse
      obtain rfl : g = f := Option.some.inj hload
      simp only [hparse] at hok
      rw [refusedBlocks, List.map_eq_nil_iff, List.filter_eq_nil_iff] at hok
      simpa using hok b hb

namespace Session

section Files

variable {s : Session}

/-- A file of a scope is an own file, or was loaded for an import. -/
theorem own_or_loaded_of_mem_effectiveFiles {f : SourceFile} (hf : f ∈ s.effectiveFiles.1) :
    f ∈ s.ownFiles.1 ∨
      ∃ e ∈ s.imports.loaded, e.path = f.path ∧ (s.importResolver.load e).1 = some f := by
  rw [effectiveFiles_eq_imports] at hf
  obtain ⟨o, ho, rfl⟩ := List.mem_map.1 hf
  exact s.importResolver.start_or_loaded_of_mem_opened [] s.ownFiles.1 o ho

/-- Without errors on the way to the files, blocks of a refused type are in own files only: any
other file was loaded, and was checked when it was. -/
theorem mem_ownFiles_of_refused (hok : s.effectiveFiles.2 = []) {f : SourceFile}
    (hf : f ∈ s.effectiveFiles.1) {b : Block} (hb : b ∈ f.body.blocks)
    (hrefused : b.blockType ∈ s.registry.refusedImports) : f ∈ s.ownFiles.1 := by
  rcases own_or_loaded_of_mem_effectiveFiles hf with hown | ⟨e, he, -, hload⟩
  · exact hown
  · rw [effectiveFiles_eq_imports, List.append_eq_nil_iff] at hok
    have hsound := s.importResolver.sound_closureAll [] s.ownFiles.1
    have herrors : (s.importResolver.load e).2 = [] := by
      refine List.eq_nil_iff_forall_not_mem.2 fun d hd => ?_
      have hd' : d ∈ s.imports.errors := hsound.load_reported e he d hd
      rw [hok.2] at hd'
      cases hd'
    exact (Resolver.not_mem_refused_of_load hload herrors hb hrefused).elim

/-- The files of a scope are stored in the project, under their paths. -/
theorem LoadsFrom.stored {t : FileTree} (hs : s.LoadsFrom t) {f : SourceFile}
    (hf : f ∈ s.effectiveFiles.1) :
    ∃ text, t.lookup f.path = some text ∧ SourceFile.parse f.path text = .ok f := by
  have hread : s.readOwn f.path = .ok f := by
    rcases own_or_loaded_of_mem_effectiveFiles hf with hown | ⟨e, -, hpath, hload⟩
    · exact (hs.of_mem_ownFiles hown).2
    · exact hpath ▸ readOwn_of_load hload
  obtain ⟨text, htext, hparse⟩ := parse_of_readOwn hread
  refine ⟨text, ?_, hparse⟩
  rw [hs.provider] at htext
  have hnormal : t.readNormal f.path = .ok text := htext
  unfold FileTree.readNormal at hnormal
  split at hnormal
  · rename_i found hfound
    rw [hfound, Except.ok.inj hnormal]
  · cases hnormal

/-- An accepted run has no errors of effective files. -/
theorem effectiveFiles_errors_of_run_eq_ok {c : Config} (h : s.run = .ok c) :
    s.effectiveFiles.2 = [] := by
  obtain ⟨-, herrors, -⟩ := run_eq_ok_iff.1 h
  have hall : s.effectiveFiles.2 ++ (s.registry.assemble s.options s.dir s.effectiveFiles.1).errors
      = [] := herrors
  exact (List.append_eq_nil_iff.1 hall).1

end Files

/-- A block of a refused type that a call of a successful session is made of is in an own file. -/
theorem mem_ownFiles_of_mem_due {s : Session} (hok : s.effectiveFiles.2 = []) {call : Call}
    (hcall : call ∈ s.registry.due s.effectiveFiles.1) (hkind : call.kind.importAllowed = false)
    {b : Block} (hb : b ∈ call.form.sources) :
    (∃ f ∈ s.effectiveFiles.1, b ∈ f.body.blocks) ∧
      ∀ f ∈ s.effectiveFiles.1, b ∈ f.body.blocks → f ∈ s.ownFiles.1 := by
  obtain ⟨hk, hname⟩ := s.registry.get?_eq_some_iff.1
    (s.registry.get?_of_mem_sources_due s.effectiveFiles.1 hcall hb)
  have hrefused : b.blockType ∈ s.registry.refusedImports := by
    rw [← hname]
    exact List.mem_map_of_mem (List.mem_filter.2 ⟨hk, by simp [hkind]⟩)
  refine ⟨?_, fun f hf hmem => mem_ownFiles_of_refused hok hf hmem hrefused⟩
  have hgiven := (s.registry.sources_due_subperm s.effectiveFiles.1).subset
    (List.mem_flatMap.2 ⟨call, hcall, hb⟩)
  obtain ⟨f, hf, hmem⟩ := List.mem_flatMap.1 hgiven
  exact ⟨f, hf, (List.mem_filter.1 hmem).1⟩

/-- Blocks that may not be imported come from the scope itself. In a session of a project held in
memory that has a result, take the calls that are made when the blocks of its files are given to the
kinds; they leave the configuration that is the result. Whatever block is given to a kind that takes
no imported blocks, as it is or as an origin of a merged block, is in a file of the scope, and every
file of the scope that has it is a configuration file that the directory lists. With the kinds that
need no registration, the stack is declared in a file directly inside the directory. -/
theorem run_ok_provenance (registry : Registry) (stored : List (Path × String))
    (options : Options) (root dir : Path) {c : Config}
    (h : (new registry (FileTree.ofList stored).provider options root dir).run = .ok c) :
    let s := new registry (FileTree.ofList stored).provider options root dir
    let table := ((MergeTable.new registry.policies).mergeFiles s.effectiveFiles.1).1
    let d := registry.dispatch options table
      { Config.new s.dir with attributes := table.attributes }
    d.config = c ∧
      (∀ call ∈ d.made, call.kind.importAllowed = false → ∀ b ∈ call.form.sources,
        (∃ f ∈ s.effectiveFiles.1, b ∈ f.body.blocks) ∧
          ∀ f ∈ s.effectiveFiles.1, b ∈ f.body.blocks →
            f ∈ s.ownFiles.1 ∧ f.path ∈ (FileTree.ofList stored).list s.dir) ∧
      (registry = .builtin → ∀ x, c.stack = some x →
        ∃ f ∈ s.ownFiles.1, f.path.parent? = some s.dir ∧
          ∃ b ∈ f.body.blocks, b.blockType = "stack" ∧ x = stackOf b) := by
  intro s table d
  have hs : s.LoadsFrom (FileTree.ofList stored) := loadsFrom_new registry stored options root dir
  have hok : s.effectiveFiles.2 = [] := effectiveFiles_errors_of_run_eq_ok h
  obtain ⟨hmerge, hrecord, -, hconfig⟩ := of_run_eq_ok h
  have hd := registry.dispatch_eq options table
    { Config.new s.dir with attributes := table.attributes }
  have hmade : d.made = registry.due s.effectiveFiles.1 :=
    (congrArg Dispatch.made hd).trans (registry.calls_mergeFiles s.effectiveFiles.1)
  have hfrom : ∀ call ∈ d.made, call.kind.importAllowed = false → ∀ b ∈ call.form.sources,
      (∃ f ∈ s.effectiveFiles.1, b ∈ f.body.blocks) ∧
        ∀ f ∈ s.effectiveFiles.1, b ∈ f.body.blocks →
          f ∈ s.ownFiles.1 ∧ f.path ∈ (FileTree.ofList stored).list s.dir := by
    intro call hcall hkind b hb
    obtain ⟨hexists, hall⟩ := mem_ownFiles_of_mem_due hok (hmade ▸ hcall) hkind hb
    exact ⟨hexists, fun f hf hmem => ⟨hall f hf hmem, (hs.of_mem_ownFiles (hall f hf hmem)).1⟩⟩
  refine ⟨(congrArg Dispatch.config hd).trans hconfig, hfrom, ?_⟩
  rintro rfl x hx
  -- the stack is what a block declares that the kind of stacks was given
  have hstack : c.stack = ((table.unmergedOf stackKind.name).getLast?.map stackOf).or none := by
    rw [← hconfig]
    exact stack_recordAll_calls hrecord
  rw [hx, Option.or_none, eq_comm, Option.map_eq_some_iff] at hstack
  obtain ⟨b, hlast, rfl⟩ := hstack
  have hb := List.mem_of_getLast? hlast
  have hcall : ⟨stackKind, .raw b⟩ ∈ d.made := by
    rw [show d.made = Registry.builtin.calls table from congrArg Dispatch.made hd]
    exact Registry.mem_calls_raw stackKind_mem (by simp [stackKind]) hb
  obtain ⟨⟨f, hf, hmem⟩, hown⟩ := hfrom _ hcall rfl b (List.mem_singleton_self b)
  obtain ⟨hf, hlist⟩ := hown f hf hmem
  have htype : b.blockType = stackKind.name := of_decide_eq_true (List.mem_filter.1 hb).2
  exact ⟨f, hf, hs.parent?_of_mem_list hlist, b, hmem, htype, rfl⟩

/-! ## A scope with a diamond of imports -/

/-- Two files of `/s`: one imports two files that import a third, one of them by a pattern; the
other declares a stack. -/
def diamondScope : List (Path × String) :=
  [(.ofText "/s/a.tm",
      "import \x7b\n  source = \"/x/*.tm\"\n\x7d\nimport \x7b\n  source = \"/y/2.tm\"\n\x7d\n"),
    (.ofText "/s/b.tm", "stack \x7b\n  name = \"app\"\n\x7d\n"),
    (.ofText "/x/1.tm", "import \x7b\n  source = \"/z/3.tm\"\n\x7d\n"),
    (.ofText "/y/2.tm", "import \x7b\n  source = \"/z/3.tm\"\n\x7d\n"),
    (.ofText "/z/3.tm", "globals \x7b\n  a = 1\n\x7d\n")]

/-- The session that loads `/s`. -/
def diamondSession : Session :=
  new .builtin (FileTree.ofList diamondScope).provider ⟨.empty⟩ .root (.ofText "/s")

/-- The session is accepted with one merged `globals` block and the stack `app`. -/
theorem runWithin_diamondSession :
    (diamondSession.runWithin 12).map (fun result => result.toOption.map fun c =>
        (c.globals.length, c.stack.map (·.name))) = some (some (1, some (some "app"))) := by
  decide +kernel

/-- The session succeeds, and its stack is declared in a file of `/s`. -/
theorem run_ok_provenance_diamondScope :
    ∃ c x, diamondSession.run = .ok c ∧ c.globals.length = 1 ∧ c.stack = some x ∧
      x.name = some "app" ∧
      ∃ f ∈ diamondSession.ownFiles.1, f.path.parent? = some diamondSession.dir ∧
        ∃ b ∈ f.body.blocks, b.blockType = "stack" ∧ x = stackOf b := by
  obtain ⟨result, hresult, hfields⟩ := Option.map_eq_some_iff.1 runWithin_diamondSession
  have hrun := run_eq_runWithin hresult
  cases result with
  | error faults => cases hfields
  | ok c =>
    obtain ⟨hglobals, hname⟩ := Prod.mk.inj (Option.some.inj hfields)
    obtain ⟨x, hx, hname⟩ := Option.map_eq_some_iff.1 hname
    obtain ⟨-, -, hstack⟩ := run_ok_provenance .builtin diamondScope ⟨.empty⟩ .root
      (.ofText "/s") hrun
    exact ⟨c, x, hrun, hglobals, hx, hname, hstack rfl x hx⟩

end Session

end ScopeConfig
