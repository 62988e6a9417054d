import ScopeConfig.Proofs.Config.Gate
import ScopeConfig.Proofs.Scope.Complete

/-!
# Experiments of a whole scope

An experiment is enabled for a scope by the options or by any of its files: the blocks that declare
experiments are merged over all files, own or imported, and are recorded before any block that needs
one. So the place of a block among the files makes no difference to the gate, as long as the
settings of the project are accepted.

## Main statements

* `declaredExperiments_of_reaches`: what the gate knows when a block's turn comes.
* `gate_decided_by_scope`: the gate refuses a block exactly when its experiment is enabled neither
  in the options nor in a file.
-/

namespace ScopeConfig

open Syntax Blocks Diagnostic

/-! ## What files declare -/

/-- The `config` blocks of all `terramate` blocks of files, in order. -/
def configBlocks (files : List SourceFile) : List Block :=
  ((files.flatMap (·.blocksOf "terramate")).flatMap Block.blocks).filter (·.blockType = "config")

/-- The experiments that files declare: those that the first `experiments` attribute of their
`config` blocks lists. A second one is an error of its own. -/
def declaredIn (files : List SourceFile) : List String :=
  ((((configBlocks files).flatMap (·.attributes.entries)).find? (·.name = "experiments")).bind
    fun a => (textListOf a).toOption).getD []

/-- Without labels, all blocks of one type are fused into one, if there are any. -/
theorem filter_eq_nil_or_singleton {es : List MergedBlock} {bs : List Block}
    (h : MergedBlock.Groups es bs) {blockType : String}
    (hlabels : ∀ m ∈ es.filter (·.blockType = blockType), mergedNoLabels m = []) :
    (es.filter (·.blockType = blockType) = [] ∧ bs.filter (·.blockType = blockType) = []) ∨
      ∃ m ∈ es, es.filter (·.blockType = blockType) = [m] ∧
        m.origins = bs.filter (·.blockType = blockType) := by
  -- the merged block that a block of the type was fused into
  have hfused : ∀ b ∈ bs, b.blockType = blockType →
      ∃ m ∈ es.filter (·.blockType = blockType), b.identity = m.identity := by
    intro b hb htype
    obtain ⟨m, ⟨hm, horigin⟩, -⟩ := h.existsUnique_origin hb
    rw [h.origins m hm] at horigin
    have hid : b.identity = m.identity := of_decide_eq_true (List.mem_filter.1 horigin).2
    refine ⟨m, List.mem_filter.2 ⟨hm, decide_eq_true ?_⟩, hid⟩
    rw [MergedBlock.blockType, ← hid]
    exact htype
  have hone := length_filter_le_one h blockType hlabels
  rcases hes : es.filter (·.blockType = blockType) with _ | ⟨m, rest⟩
  · refine .inl ⟨hes, List.filter_eq_nil_iff.2 fun b hb htype => ?_⟩
    obtain ⟨m, hm, -⟩ := hfused b hb (of_decide_eq_true htype)
    rw [hes] at hm
    cases hm
  · have hmem : m ∈ es.filter (·.blockType = blockType) := hes ▸ List.mem_cons_self
    obtain rfl : rest = [] := by simpa [hes] using hone
    obtain ⟨hm, htype⟩ := List.mem_filter.1 hmem
    refine .inr ⟨m, hm, hes, ?_⟩
    rw [h.origins m hm]
    refine List.filter_congr fun b hb => decide_eq_decide.2 ⟨fun hid => ?_, fun hb' => ?_⟩
    · rw [← of_decide_eq_true htype, MergedBlock.blockType, ← hid]
      rfl
    · obtain ⟨m', hm', hid⟩ := hfused b hb hb'
      rw [hes, List.mem_singleton] at hm'
      exact hm' ▸ hid

/-- Reading an attribute is finding it and then reading its value. -/
theorem read?_eq {α : Type} (reader : Attribute → Except Diagnostic α) (t : AttributeTable)
    (name : String) : read? reader t name = (t.find? name).bind fun a => (reader a).toOption := by
  unfold read?
  cases t.find? name with
  | none => rfl
  | some a =>
    simp only [Option.bind_some]
    cases reader a <;> rfl

/-- The experiments that merged settings declare are those of the first `experiments` attribute
among the `config` blocks that they are made of. -/
theorem experiments_of_fused {m : MergedBlock} (hm : MergedBlock.Fused m.children m.rawChildren)
    (hok : projectFaults m = []) :
    (((projectSettings m).config.map RootSettings.experiments).getD []) =
      ((((m.rawChildren.filter (·.blockType = "config")).flatMap
        (·.attributes.entries)).find? (·.name = "experiments")).bind
          fun a => (textListOf a).toOption).getD [] := by
  have hlabels : ∀ r ∈ m.childrenOf "config", mergedNoLabels r = [] := by
    intro r hr
    simp only [projectFaults, List.append_eq_nil_iff, List.flatMap_eq_nil_iff] at hok
    have hroot := hok.2 r hr
    simp only [rootFaults, List.append_eq_nil_iff] at hroot
    exact hroot.1.1.1.1
  simp only [projectSettings, MergedBlock.childrenOf]
  rcases filter_eq_nil_or_singleton hm.groups hlabels with ⟨hes, hbs⟩ | ⟨r, hr, hes, horigins⟩
  · rw [hes, hbs]
    rfl
  · have hfirst := (hm.attributes r hr).find?_eq "experiments"
    rw [MergedBlock.rawAttributes, horigins] at hfirst
    rw [hes, ← hfirst]
    simp only [List.getLast?_singleton, Option.map_some, Option.getD_some, rootSettings, read?_eq]

/-- The declared experiments are those of the root settings, if there are any. -/
theorem declaredExperiments_eq (c : Config) :
    c.declaredExperiments =
      ((c.project.bind ProjectSettings.config).map RootSettings.experiments).getD [] := by
  unfold Config.declaredExperiments
  split
  · rename_i hproject
    rw [hproject]
    rfl
  · rename_i hnone
    rcases hproject : c.project with _ | ⟨version, prereleases, _ | settings⟩
    · rfl
    · rfl
    · exact (hnone _ _ _ hproject).elim

/-- The blocks of the files that the settings of the project are made of. -/
theorem filter_fusedBlocks (files : List SourceFile) :
    (MergeTable.fusedBlocks Registry.builtin.policies (MergeTable.scopeBlocks files)).filter
      (·.blockType = projectKind.name) = files.flatMap (·.blocksOf "terramate") := by
  have hpolicy : MergeTable.policyFor Registry.builtin.policies projectKind.name =
      some .mergeByLabel :=
    Registry.policyFor_of_mem projectKind_mem
  have hne : projectKind.name ≠ importType := by decide
  have hscope := Session.filter_blockType files hne
  calc (MergeTable.fusedBlocks _ _).filter (·.blockType = projectKind.name)
    _ = (MergeTable.scopeBlocks files).filter (·.blockType = projectKind.name) := by
      rw [MergeTable.fusedBlocks, List.filter_filter]
      refine List.filter_congr fun b _ => ?_
      by_cases htype : b.blockType = projectKind.name
      · simp [htype, hpolicy]
      · simp [htype]
    _ = (files.flatMap (·.body.blocks)).filter (·.blockType = projectKind.name) := hscope
    _ = files.flatMap (·.blocksOf "terramate") := List.filter_flatMap ..

/-- The settings that the table of merged files declares have the experiments that the files
declare. -/
theorem settings_experiments (files : List SourceFile) {c : Config}
    (hc : c.project =
      ((MergeTable.new Registry.builtin.policies).mergeFiles files).1.settings)
    (hok : ∀ m ∈ ((MergeTable.new Registry.builtin.policies).mergeFiles files).1.mergedOf
      projectKind.name, projectFaults m = []) :
    c.declaredExperiments = declaredIn files := by
  have hfused := (MergeTable.Merged.of_files Registry.builtin.policies files).fused
  generalize ((MergeTable.new Registry.builtin.policies).mergeFiles files).1 = t at hc hok hfused
  have hlabels : ∀ m ∈ t.merged.filter (·.blockType = projectKind.name),
      mergedNoLabels m = [] := by
    intro m hm
    have hfaults := hok m hm
    simp only [projectFaults, List.append_eq_nil_iff] at hfaults
    exact hfaults.1.1.1
  rw [declaredExperiments_eq, hc, MergeTable.settings, MergeTable.mergedOf, declaredIn,
    configBlocks, ← filter_fusedBlocks]
  -- without labels the project blocks are one merged block, or there are none
  rcases filter_eq_nil_or_singleton hfused.groups hlabels with ⟨hes, hbs⟩ | ⟨m, hm, hes, horigins⟩
  · rw [hes, hbs]
    rfl
  · have hmem : m ∈ t.mergedOf projectKind.name := by
      rw [MergeTable.mergedOf, hes]
      exact List.mem_singleton_self m
    rw [hes, ← horigins]
    exact experiments_of_fused (hfused.children m hm) (hok m hmem)

/-! ## What the gate knows when a block's turn comes -/

namespace Session

/-- The configuration that recording starts from. -/
def start (s : Session) : Config :=
  { Config.new s.dir with attributes := s.assembly.table.attributes }

/-- The blocks of the scope that are given to the kinds, in order. -/
def calls (s : Session) : List Call :=
  s.registry.calls s.assembly.table

/-- A block reaches its kind, which finds the configuration that the blocks before it left. -/
def Reaches (s : Session) (call : Call) (c : Config) : Prop :=
  ∃ before after, s.calls = before ++ call :: after ∧
    (s.start.recordAll s.options before).1 = c

/-- Every merged block with settings of the project is accepted. -/
def SettingsAccepted (s : Session) : Prop :=
  ∀ m c, s.Reaches ⟨projectKind, .merged m⟩ c →
    projectKind.Accepts s.options c (.merged m)

/-- An experiment is enabled by the options or by a file of the scope. -/
def Enables (s : Session) (experiment : String) : Prop :=
  experiment ∈ s.options.experiments.names ∨ experiment ∈ declaredIn s.effectiveFiles.1

section Builtin

variable {provider : Provider} {options : Options} {root dir : Path}

/-- Where the settings are accepted, no merged project block has a fault. -/
theorem projectFaults_of_accepted (h : (new .builtin provider options root dir).SettingsAccepted) :
    ∀ m ∈ (new .builtin provider options root dir).assembly.table.mergedOf projectKind.name,
      projectFaults m = [] := by
  intro m hm
  have hcall : ⟨projectKind, .merged m⟩ ∈ (new .builtin provider options root dir).calls :=
    Registry.mem_calls_merged projectKind_mem rfl hm
  obtain ⟨before, after, heq⟩ := List.append_of_mem hcall
  exact projectKind_accepts_iff.1 (h m _ ⟨before, after, heq, rfl⟩)

/-- The settings of the project are recorded without errors, and before all other blocks. -/
theorem exists_rest_of_accepted
    (h : (new .builtin provider options root dir).SettingsAccepted) :
    let s := new .builtin provider options root dir
    ∃ settled, s.start.recordAll options (projectKind.calls s.assembly.table) = (settled, []) ∧
      settled.declaredExperiments = declaredIn s.effectiveFiles.1 := by
  intro s
  have hok := projectFaults_of_accepted h
  have hrecord : (s.start.recordAll options (projectKind.calls s.assembly.table)).2 = [] := by
    rw [recordAll_ok_iff_accepts fun call hcall =>
      (BlockKind.of_mem_calls hcall).1 ▸ projectKind_mem]
    intro before call after heq
    have hcall : call ∈ projectKind.calls s.assembly.table := by simp [heq]
    obtain ⟨m, hm, rfl⟩ := List.mem_map.1 hcall
    exact projectKind_accepts_iff.2 (hok m hm)
  refine ⟨_, Prod.ext rfl hrecord, settings_experiments s.effectiveFiles.1 ?_ hok⟩
  rw [project_recordAll_calls_project hrecord]
  exact Option.or_none

/-- The blocks of the other kinds. -/
def otherCalls (s : Session) : List Call :=
  Registry.builtinKinds.tail.flatMap (·.calls s.assembly.table)

/-- The other calls are to builtin kinds but that of the project, in the form that the kind asks
for. -/
theorem of_mem_otherCalls {s : Session} {call : Call} (h : call ∈ s.otherCalls) :
    (call.kind ∈ Registry.builtinKinds ∧ call.form.Fits call.kind.policy ∧
      call.kind.name ≠ projectKind.name) ∧ call.form.OfType call.kind.name := by
  obtain ⟨k, hk, hcall⟩ := List.mem_flatMap.1 h
  obtain ⟨rfl, hfit⟩ := BlockKind.of_mem_calls hcall
  exact ⟨⟨List.mem_of_mem_tail hk, hfit, ne_projectKind_of_mem_tail hk⟩,
    BlockKind.ofType_of_mem_calls hcall⟩

/-- When the turn of a block of another kind comes, the configuration has all experiments that the
files of the scope declare, wherever they are. -/
theorem declaredExperiments_of_reaches
    (h : (new .builtin provider options root dir).SettingsAccepted) {call : Call} {c : Config}
    (hne : call.kind.name ≠ projectKind.name)
    (hreach : (new .builtin provider options root dir).Reaches call c) :
    c.declaredExperiments =
      declaredIn (new .builtin provider options root dir).effectiveFiles.1 := by
  set s := new .builtin provider options root dir with hs
  obtain ⟨settled, hsettled, hdeclared⟩ := exists_rest_of_accepted h
  obtain ⟨before, after, heq, rfl⟩ := hreach
  have hcalls : projectKind.calls s.assembly.table ++ s.otherCalls = before ++ call :: after := heq
  -- the turn of the block comes after those of the settings
  obtain ⟨more, hbefore, hothers⟩ : ∃ more, before = projectKind.calls s.assembly.table ++ more ∧
      s.otherCalls = more ++ call :: after := by
    rcases List.append_eq_append_iff.1 hcalls with ⟨more, hmore, hrest⟩ | ⟨more, hmore, hrest⟩
    · exact ⟨more, hmore, hrest⟩
    · cases more with
      | nil => exact ⟨[], by simpa using hmore.symm, by simpa using hrest.symm⟩
      | cons first more =>
        obtain ⟨rfl, -⟩ := List.cons_eq_cons.1 hrest
        have hfirst : call ∈ projectKind.calls s.assembly.table := by simp [hmore]
        exact (hne (congrArg BlockKind.name (BlockKind.of_mem_calls hfirst).1)).elim
  rw [← hdeclared, hbefore, recordAll_append]
  apply declaredExperiments_congr
  have hmore : ∀ call ∈ more, call.kind ∈ Registry.builtinKinds ∧
      call.form.Fits call.kind.policy ∧ call.kind.name ≠ projectKind.name :=
    fun call hcall => (of_mem_otherCalls (hothers ▸ List.mem_append_left _ hcall)).1
  rw [project_recordAll_of_ne hmore]
  exact congrArg (Config.project ·.1) hsettled

/-- A block of another kind than that of the project finds a configuration with just the experiments
that the scope enables. -/
theorem hasExperiment_iff_enables
    (h : (new .builtin provider options root dir).SettingsAccepted) {call : Call} {c : Config}
    (hne : call.kind.name ≠ projectKind.name)
    (hreach : (new .builtin provider options root dir).Reaches call c) (e : String) :
    c.hasExperiment options e = true ↔ (new .builtin provider options root dir).Enables e := by
  rw [hasExperiment_iff, declaredExperiments_of_reaches h hne hreach]
  rfl

/-! ## The gate -/

/-- The project kind is not behind a gate. -/
theorem ne_projectKind_of_experiment? {k : BlockKind} {e : String} (he : k.experiment? = some e) :
    k.name ≠ projectKind.name := by
  intro hname
  rw [BlockKind.experiment?, hname] at he
  revert he
  decide +revert

/-- A successful session recorded all blocks without errors. -/
theorem recorded_of_run {s : Session} {c : Config} (h : s.run = .ok c) :
    s.start.recordAll s.options s.calls = (c, []) := by
  obtain ⟨-, hrecord, -, hconfig⟩ := of_run_eq_ok h
  exact Prod.ext hconfig hrecord

/-- Every block that reaches its kind in a successful session is accepted. -/
theorem accepts_of_run {c c' : Config} {call : Call}
    (h : (new .builtin provider options root dir).run = .ok c)
    (hreach : (new .builtin provider options root dir).Reaches call c') :
    call.kind.Accepts options c' call.form := by
  obtain ⟨before, after, heq, rfl⟩ := hreach
  exact (recordAll_ok_iff_accepts fun call hcall => (Registry.builtin.of_mem_calls _ hcall).1).1
    (congrArg Prod.snd (recorded_of_run h)) before call after heq

/-- A run that is accepted has its settings accepted. -/
theorem settingsAccepted_of_run {c : Config}
    (h : (new .builtin provider options root dir).run = .ok c) :
    (new .builtin provider options root dir).SettingsAccepted :=
  fun _ _ hreach => accepts_of_run h hreach

/-- A block that reaches its kind is one of its blocks. -/
theorem Reaches.builtin_and_ofType {k : BlockKind} {form : Form} {c : Config}
    (h : (new .builtin provider options root dir).Reaches ⟨k, form⟩ c) :
    k ∈ Registry.builtinKinds ∧ form.OfType k.name := by
  obtain ⟨before, after, heq, -⟩ := h
  have hcall : ⟨k, form⟩ ∈ (new .builtin provider options root dir).calls := by simp [heq]
  exact ⟨(Registry.builtin.of_mem_calls _ hcall).1, Registry.ofType_of_mem_calls hcall⟩

section Gate

variable {k : BlockKind} {e : String} {b : Block} {c : Config}
  (h : (new .builtin provider options root dir).SettingsAccepted) (he : k.experiment? = some e)
  (hreach : (new .builtin provider options root dir).Reaches ⟨k, .raw b⟩ c)
include h he hreach

/-- A block whose experiment is not enabled is refused by the gate, for this reason only. -/
theorem read_of_not_enables (hno : ¬(new .builtin provider options root dir).Enables e) :
    k.read options c (.raw b) = (c, .error [k.refusal e b]) := by
  obtain ⟨hk, htype⟩ := hreach.builtin_and_ofType
  have henabled := hasExperiment_iff_enables h (ne_projectKind_of_experiment? he) hreach e
  have hgate : k.gateErrors options c (.raw b) = [k.refusal e b] := by
    rw [gateErrors_eq he, if_neg (mt henabled.1 hno)]
    rfl
  rw [read_of_gateErrors hk htype (by simp [hgate]), hgate]

/-- The gate has nothing against a block whose experiment is enabled. -/
theorem not_gate_of_enables (hyes : (new .builtin provider options root dir).Enables e) :
    ∀ d ∈ ofResult (k.read options c (.raw b)).2, d.isGate = false := by
  intro d hd
  obtain ⟨hk, htype⟩ := hreach.builtin_and_ofType
  have henabled := hasExperiment_iff_enables h (ne_projectKind_of_experiment? he) hreach e
  cases hread : (k.read options c (.raw b)).2 with
  | ok => simp [hread] at hd
  | error faults =>
    rw [hread] at hd
    have hnone := filter_isGate_of_read hk htype hread
    rw [gateErrors_eq he, if_pos (henabled.2 hyes), List.filter_eq_nil_iff] at hnone
    exact Bool.of_not_eq_true (hnone d hd)

end Gate

/-- An entry of a kind that needs an experiment comes from a block that the gate let pass. -/
theorem enables_of_entries {c : Config} (h : (new .builtin provider options root dir).run = .ok c)
    {l : ListedKind} {e : String} (he : l.kind.experiment? = some e) (hentries : l.entries c ≠ []) :
    (new .builtin provider options root dir).Enables e := by
  have hrecorded := recorded_of_run h
  set s := new .builtin provider options root dir with hs
  -- the block that the entry comes from
  obtain ⟨b, hb⟩ : ∃ b, b ∈ s.assembly.table.unmergedOf l.kind.name := by
    have hlist : l.entries (s.start.recordAll s.options s.calls).1 =
        l.entries s.start ++ (s.assembly.table.unmergedOf l.kind.name).filterMap l.entry? :=
      entries_recordAll_calls (congrArg Prod.snd hrecorded) l
    refine List.exists_mem_of_ne_nil _ fun hnone => hentries ?_
    rw [hrecorded, hnone] at hlist
    rw [hlist]
    cases l <;> rfl
  obtain ⟨before, after, heq⟩ := List.append_of_mem
    (Registry.mem_calls_raw l.kind_mem l.policy_ne hb)
  have hreach : s.Reaches ⟨l.kind, .raw b⟩ (s.start.recordAll options before).1 :=
    ⟨before, after, heq, rfl⟩
  obtain ⟨c', hread⟩ := accepts_of_run h hreach
  have htype : (Form.raw b).OfType l.kind.name := by
    simpa [Form.OfType, Form.blocks] using (List.mem_filter.1 hb).2
  have hpass := gateErrors_of_read l.kind_mem htype hread
  rw [gateErrors_eq he] at hpass
  rw [← hasExperiment_iff_enables (settingsAccepted_of_run h)
    (ne_projectKind_of_experiment? he) hreach]
  by_contra hrefused
  rw [if_neg hrefused] at hpass
  cases hpass

end Builtin

/-- What the gate has against a block of the scope: one error, when its experiment is not
enabled. -/
def refusalsOf (s : Session) (call : Call) : List Diagnostic :=
  match call.kind.experiment? with
  | none => []
  | some e =>
    if e ∈ s.options.experiments.names ∨ e ∈ declaredIn s.effectiveFiles.1 then []
    else call.form.blocks.map (call.kind.refusal e)

/-- In a whole session the gate refuses the blocks whose experiment the scope does not enable, and
no others. -/
theorem filter_isGate_recorded {provider : Provider} {options : Options} {root dir : Path}
    (h : (new .builtin provider options root dir).SettingsAccepted) :
    let s := new .builtin provider options root dir
    (s.start.recordAll options s.calls).2.filter isGate = s.calls.flatMap s.refusalsOf := by
  intro s
  obtain ⟨settled, hsettled, hdeclared⟩ := exists_rest_of_accepted h
  -- the gate finds the same experiments at every block
  have hgate : ∀ call : Call,
      call.kind.gateErrors options settled call.form = s.refusalsOf call := by
    intro call
    rw [refusalsOf]
    cases he : call.kind.experiment? with
    | none => rw [BlockKind.gateErrors, he]
    | some e =>
      rw [gateErrors_eq he]
      simp only [hasExperiment_iff, hdeclared]
      rfl
  have hproject : (projectKind.calls s.assembly.table).flatMap s.refusalsOf = [] := by
    refine List.flatMap_eq_nil_iff.2 fun call hcall => ?_
    have hnone : projectKind.experiment? = none := by decide
    rw [refusalsOf, (BlockKind.of_mem_calls hcall).1, hnone]
  have hcalls : s.calls = projectKind.calls s.assembly.table ++ s.otherCalls := rfl
  rw [hcalls, recordAll_append, hsettled, List.nil_append, List.flatMap_append, hproject,
    List.nil_append, filter_isGate_recordAll (fun call hcall => (of_mem_otherCalls hcall).1)
      fun call hcall => (of_mem_otherCalls hcall).2]
  exact List.flatMap_congr fun call _ => hgate call

/-- The gate is decided for the scope as a whole. When every merged block with settings of the
project is accepted, a block that needs an experiment and reaches its kind is refused by the gate
exactly when the experiment is enabled neither by the options nor by any file of the scope, wherever
the file that declares it comes among the own and the imported files. A block that the gate refuses
gives one error and no other, and no block is refused twice: the errors of this sort are one for
each such block, in the order in which the blocks are read. A configuration that is returned has no
script, input, output or sharing backend whose experiment is enabled in neither place. -/
theorem gate_decided_by_scope (provider : Provider) (options : Options) (root dir : Path)
    (h : (new .builtin provider options root dir).SettingsAccepted) :
    let s := new .builtin provider options root dir
    (∀ k e b c, k.experiment? = some e → s.Reaches ⟨k, .raw b⟩ c →
      ((∃ d ∈ ofResult (k.read options c (.raw b)).2, d.isGate = true) ↔ ¬s.Enables e) ∧
        (¬s.Enables e → k.read options c (.raw b) = (c, .error [k.refusal e b]))) ∧
      (s.start.recordAll options s.calls).2.filter isGate = s.calls.flatMap s.refusalsOf ∧
      ∀ c, s.run = .ok c →
        (c.scripts ≠ [] → s.Enables scriptsExperiment) ∧
          (c.inputs ≠ [] ∨ c.outputs ≠ [] ∨ c.sharingBackends ≠ [] →
            s.Enables outputsSharingExperiment) := by
  intro s
  refine ⟨fun k e b c he hreach => ?_, filter_isGate_recorded h, fun c hrun => ⟨?_, ?_⟩⟩
  · have hrefused := read_of_not_enables h he hreach
    refine ⟨⟨?_, fun hno => ?_⟩, hrefused⟩
    · rintro ⟨d, hd, hgate⟩ hyes
      exact Bool.false_ne_true ((not_gate_of_enables h he hreach hyes d hd).symm.trans hgate)
    · rw [hrefused hno]
      exact ⟨_, List.mem_singleton_self _, rfl⟩
  · exact enables_of_entries (l := .scripts) hrun (by decide)
  · rintro (hentries | hentries | hentries)
    · exact enables_of_entries (l := .inputs) hrun (by decide) hentries
    · exact enables_of_entries (l := .outputs) hrun (by decide) hentries
    · exact enables_of_entries (l := .backends) hrun (by decide) hentries

/-! ## A script before the file that enables it -/

/-- A file of the directory `/s` has a script, and imports one of the directory `/x` after it, which
declares the experiment. -/
def lateScope : List (Path × String) :=
  [(.ofText "/s/a.tm",
      "script \"s\" \x7b\n  job \x7b\n    command = 1\n  \x7d\n\x7d\n" ++
        "import \x7b\n  source = \"/x/b.tm\"\n\x7d\n"),
    (.ofText "/x/b.tm",
      "terramate \x7b\n  config \x7b\n    experiments = [\"scripts\"]\n  \x7d\n\x7d\n")]

/-- The session that loads `/s`, with no experiments in the options. -/
def lateSession : Session :=
  new .builtin (FileTree.ofList lateScope).provider ⟨.empty⟩ .root (.ofText "/s")

/-- The session is accepted with its script, although the experiment is declared in an imported
file. -/
theorem runWithin_lateSession :
    (lateSession.runWithin 6).map (fun result => result.toOption.map fun c =>
        c.scripts.map (·.labels)) = some (some [["s"]]) := by
  decide +kernel

/-- The script is recorded, since the imported file declares its experiment, and the gate refuses
nothing. -/
theorem gate_decided_by_scope_lateScope :
    ∃ c, lateSession.run = .ok c ∧ c.scripts.map (·.labels) = [["s"]] ∧
      lateSession.SettingsAccepted ∧ lateSession.options.experiments.names = [] ∧
      scriptsExperiment ∈ declaredIn lateSession.effectiveFiles.1 ∧
      lateSession.calls.flatMap lateSession.refusalsOf = [] := by
  obtain ⟨result, hresult, hfields⟩ := Option.map_eq_some_iff.1 runWithin_lateSession
  have hrun := run_eq_runWithin hresult
  cases result with
  | error faults => cases hfields
  | ok c =>
    have hscripts : c.scripts.map (·.labels) = [["s"]] := Option.some.inj hfields
    have haccepted : lateSession.SettingsAccepted := settingsAccepted_of_run hrun
    obtain ⟨-, hrefusals, hreturned⟩ := gate_decided_by_scope
      (FileTree.ofList lateScope).provider ⟨.empty⟩ .root (.ofText "/s") haccepted
    have henabled := (hreturned c hrun).1 (by rintro hnone; simp [hnone] at hscripts)
    refine ⟨c, hrun, hscripts, haccepted, rfl, henabled.resolve_left (List.not_mem_nil), ?_⟩
    have hrecorded : (lateSession.start.recordAll lateSession.options lateSession.calls).2 = [] :=
      congrArg Prod.snd (recorded_of_run hrun)
    refine hrefusals.symm.trans ?_
    exact (congrArg (List.filter isGate) hrecorded).trans rfl

end Session

end ScopeConfig
