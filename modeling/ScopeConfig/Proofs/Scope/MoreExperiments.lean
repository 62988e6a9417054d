import ScopeConfig.Proofs.Scope.Experiments
import ScopeConfig.Proofs.Scope.OwnFiles

/-!
# More experiments in the options

Enabling more experiments in the options never breaks a scope. The options are read by the gate
alone, which comes after the files were read and merged; once it lets a block pass it lets the block
pass with more experiments as well, so the two loads stay in step for as long as there are no
errors. When there are errors the loads part, since one of them records more blocks, but what comes
before the gate is the same, and what comes after it reports no errors of these sorts.

## Main statements

* `run_of_enabled`: a successful load is the same with more experiments.
* `ok_and_file_errors_of_enabled`: so are all errors that are not about rules for blocks.
-/

namespace ScopeConfig

open Syntax Blocks

/-- Whether errors of a kind are about reading, parsing or importing files, and not about what the
blocks in them declare. -/
def ErrorKind.ofFiles : ErrorKind → Bool
  | malformed | importing | unexpected | io => true
  | schema | redeclared => false

namespace Diagnostic

/-- The errors of a list that are about files. -/
def aboutFiles (ds : List Diagnostic) : List Diagnostic :=
  ds.filter (·.kind.ofFiles)

/-- The errors about files, of two lists one after the other. -/
theorem aboutFiles_append (ds es : List Diagnostic) :
    aboutFiles (ds ++ es) = aboutFiles ds ++ aboutFiles es :=
  List.filter_append ..

/-- Schema errors and redeclarations are not about files. -/
theorem aboutFiles_eq_nil {ds : List Diagnostic}
    (h : ∀ d ∈ ds, d.kind = .schema ∨ d.kind = .redeclared) : aboutFiles ds = [] := by
  refine List.filter_eq_nil_iff.2 fun d hd => ?_
  rcases h d hd with hkind | hkind <;> simp [hkind, ErrorKind.ofFiles]

/-- What a rule reports is not about files. -/
theorem AllOf.aboutFiles_eq_nil {ds : List Diagnostic} (h : AllOf OfRule ds) :
    aboutFiles ds = [] :=
  Diagnostic.aboutFiles_eq_nil fun d hd => (h d hd).kind

end Diagnostic

namespace Session

open Diagnostic

/-- The errors of a session, stage by stage. -/
theorem errors_assembly (s : Session) :
    s.assembly.errors = s.effectiveFiles.2 ++
      (((MergeTable.new s.registry.policies).mergeFiles s.effectiveFiles.1).2 ++
        (s.start.recordAll s.options s.calls).2 ++
        s.registry.check s.options (s.start.recordAll s.options s.calls).1) :=
  rfl

section Builtin

variable {provider : Provider} {options options' : Options} {root dir : Path}

/-! ## What does not depend on the options -/

variable (options options')

theorem readAll_options (paths : List Path) :
    (new .builtin provider options' root dir).readAll paths =
      (new .builtin provider options root dir).readAll paths := by
  induction paths with
  | nil => rfl
  | cons path paths ih =>
    rw [readAll, readAll, ih]
    rfl

theorem ownFiles_options :
    (new .builtin provider options' root dir).ownFiles =
      (new .builtin provider options root dir).ownFiles := by
  unfold ownFiles
  simp only [readAll_options options options']
  rfl

/-- The files of a scope do not depend on the options. -/
theorem effectiveFiles_options :
    (new .builtin provider options' root dir).effectiveFiles =
      (new .builtin provider options root dir).effectiveFiles := by
  unfold effectiveFiles
  rw [ownFiles_options options options']
  rfl

/-- The table of a session does not depend on its options. -/
theorem table_options :
    (new .builtin provider options' root dir).assembly.table =
      (new .builtin provider options root dir).assembly.table :=
  congrArg (fun all : List SourceFile × List Diagnostic =>
    ((MergeTable.new Registry.builtin.policies).mergeFiles all.1).1)
    (effectiveFiles_options options options')

theorem start_options :
    (new .builtin provider options' root dir).start =
      (new .builtin provider options root dir).start := by
  unfold start
  rw [table_options options options']
  rfl

/-- The blocks that are given to kinds do not depend on the options. -/
theorem calls_options :
    (new .builtin provider options' root dir).calls =
      (new .builtin provider options root dir).calls :=
  congrArg Registry.builtin.calls (table_options options options')

/-! ## Two loads -/

variable {options options'}

/-- The kinds are given blocks of their own types. -/
theorem of_mem_calls {call : Call} (h : call ∈ (new .builtin provider options root dir).calls) :
    call.kind ∈ Registry.builtinKinds ∧ call.form.OfType call.kind.name :=
  ⟨(Registry.builtin.of_mem_calls _ h).1, Registry.ofType_of_mem_calls h⟩

/-- Once the files are known, no stage reports errors about files. -/
theorem aboutFiles_assembly :
    aboutFiles (new .builtin provider options root dir).assembly.errors =
      aboutFiles (new .builtin provider options root dir).effectiveFiles.2 := by
  set s := new .builtin provider options root dir with hs
  have hmerge := (MergeTable.new s.registry.policies).ofRule_mergeFiles s.effectiveFiles.1
  have hrecord : ∀ d ∈ (s.start.recordAll s.options s.calls).2,
      d.kind = .schema ∨ d.kind = .redeclared :=
    fun d hd => (schema_or_conflict_of_mem_recordAll (fun call => of_mem_calls) d hd).imp_right
      IsConflict.kind
  have hcheck : AllOf OfRule
      (s.registry.check s.options (s.start.recordAll s.options s.calls).1) :=
    allOf_flatMap fun k hk => ofRule_check hk _ _
  rw [errors_assembly, aboutFiles_append, aboutFiles_append, aboutFiles_append,
    hmerge.aboutFiles_eq_nil, aboutFiles_eq_nil hrecord, hcheck.aboutFiles_eq_nil]
  exact List.append_nil _

/-- A successful load is the same with more experiments: all blocks are recorded in the same way,
and nothing else depends on the options. -/
theorem run_of_enabled
    (hoptions : ∀ e ∈ options.experiments.names, e ∈ options'.experiments.names) {c : Config}
    (h : (new .builtin provider options root dir).run = .ok c) :
    (new .builtin provider options' root dir).run = .ok c := by
  have hrecorded := recorded_of_run h
  obtain ⟨hinside, herrors, -⟩ := run_eq_ok_iff.1 h
  set s := new .builtin provider options root dir with hs
  set s' := new .builtin provider options' root dir with hs'
  have hrecorded' : s'.start.recordAll s'.options s'.calls = (c, []) := by
    rw [start_options options options', calls_options options options']
    refine (recordAll_of_enabled hoptions (fun call => of_mem_calls) ?_).trans hrecorded
    exact congrArg Prod.snd hrecorded
  refine run_eq_ok_iff.2 ⟨hinside, ?_, congrArg Prod.fst hrecorded'⟩
  rw [errors_assembly, hrecorded] at herrors
  rw [errors_assembly, hrecorded', effectiveFiles_options options options']
  exact herrors

end Builtin

/-- Enabling more experiments in the options never breaks a scope: a load that succeeds gives the
same configuration with more experiments, and of a load that fails, all errors about files, that is
all but those about what blocks declare, are reported in the same order with more experiments, and
no other such errors. -/
theorem ok_and_file_errors_of_enabled (provider : Provider) (root dir : Path)
    {options options' : Options}
    (hoptions : ∀ e ∈ options.experiments.names, e ∈ options'.experiments.names) :
    let s := new .builtin provider options root dir
    let s' := new .builtin provider options' root dir
    (∀ c, s.run = .ok c → s'.run = .ok c) ∧
      ∀ errors, s.run = .error errors →
        (ofResult s'.run).filter (fun d => d.kind ∈ [.malformed, .importing, .unexpected, .io]) =
          errors.filter fun d => d.kind ∈ [.malformed, .importing, .unexpected, .io] := by
  intro s s'
  refine ⟨fun c => run_of_enabled hoptions, fun errors hrun => ?_⟩
  have hkinds : (fun d : Diagnostic =>
      decide (d.kind ∈ [.malformed, .importing, .unexpected, .io])) = (·.kind.ofFiles) := by
    funext d
    cases d.kind <;> rfl
  have herrors : ofResult s.run = errors := by rw [hrun]; rfl
  rw [hkinds, ← herrors]
  show aboutFiles (ofResult s'.run) = aboutFiles (ofResult s.run)
  by_cases hinside : s.inside = true
  · have hinside' : s'.inside = true := hinside
    rw [ofResult_run hinside, ofResult_run hinside', aboutFiles_assembly, aboutFiles_assembly,
      effectiveFiles_options options options']
  · -- outside the project, nothing is read
    have hinside' : ¬s'.inside = true := hinside
    rw [run, run, if_neg hinside, if_neg hinside']
    rfl

/-- The script of `lateScope` is enabled by an imported file; one more experiment in the options
makes no difference. -/
theorem ok_and_file_errors_of_enabled_lateScope :
    (∀ e ∈ (Options.mk .empty).experiments.names,
        e ∈ (Options.mk (.ofList [outputsSharingExperiment])).experiments.names) ∧
      ∃ c, lateSession.run = .ok c ∧ c.scripts.map (·.labels) = [["s"]] ∧
        (new .builtin (FileTree.ofList lateScope).provider
          ⟨.ofList [outputsSharingExperiment]⟩ .root (.ofText "/s")).run = .ok c := by
  have hoptions : ∀ e ∈ (Options.mk .empty).experiments.names,
      e ∈ (Options.mk (.ofList [outputsSharingExperiment])).experiments.names :=
    fun _ he => (List.not_mem_nil he).elim
  obtain ⟨result, hresult, hfields⟩ := Option.map_eq_some_iff.1 runWithin_lateSession
  have hrun := run_eq_runWithin hresult
  cases result with
  | error faults => cases hfields
  | ok c =>
    exact ⟨hoptions, c, hrun, Option.some.inj hfields,
      (ok_and_file_errors_of_enabled (FileTree.ofList lateScope).provider .root (.ofText "/s")
        hoptions).1 c hrun⟩

end Session

end ScopeConfig
