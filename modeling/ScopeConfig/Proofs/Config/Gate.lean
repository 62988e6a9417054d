import ScopeConfig.Proofs.Blocks.Reports
import ScopeConfig.Proofs.Config.AllOrNothing

/-!
# The gate for experiments

Four kinds of blocks need an experiment. For these, reading a block starts at the gate, which
refuses the block with one error when the experiment is not enabled; what comes after the gate, and
all that the other kinds do, does not depend on the options. Since no kind but the first changes the
experiments that the project declares, the gate decides alike for all blocks that are read after the
settings of the project.

## Main statements

* `exists_gated`: every kind is the gate followed by a rule without options.
* `filter_isGate_recordAll`: the refusals by the gate among the errors of recording blocks.
* `recordAll_of_enabled`: blocks that are recorded without errors are recorded so with more
  experiments.
-/

namespace ScopeConfig

open Syntax Blocks Diagnostic

/-! ## Kinds that need an experiment -/

/-- The types of blocks that need an experiment, each with the experiment. -/
def experimentsNeeded : List (String × String) :=
  [("script", scriptsExperiment), ("sharing_backend", outputsSharingExperiment),
    ("input", outputsSharingExperiment), ("output", outputsSharingExperiment)]

/-- All blocks of a form have this type. -/
def Form.OfType (form : Form) (blockType : String) : Prop :=
  ∀ b ∈ form.blocks, b.blockType = blockType

namespace BlockKind

/-- The experiment that a kind needs, if it needs one. -/
def experiment? (k : BlockKind) : Option String :=
  experimentsNeeded.lookup k.name

/-- The error for a block that is refused because its experiment is not enabled. -/
def refusal (k : BlockKind) (experiment : String) (b : Block) : Diagnostic :=
  .schema (.experimentNeeded k.name experiment) b.header

/-- What the gate reports for a block. -/
def gateErrors (k : BlockKind) (options : Options) (c : Config) (form : Form) : List Diagnostic :=
  match k.experiment? with
  | none => []
  | some e => form.blocks.flatMap fun b => gate options c e k.name b.header

/-- A kind that refuses a block when the gate does, and otherwise goes by a rule in which the
options have no say. -/
structure Gated (k : BlockKind)
    (rule : Config → Form → Config × Except (List Diagnostic) Unit) : Prop where
  reports : ∀ {c form faults}, (rule c form).2 = .error faults → AllOf OfBlock faults
  read_eq : ∀ options c form, form.OfType k.name →
    k.read options c form =
      if k.gateErrors options c form = [] then rule c form
      else (c, .error (k.gateErrors options c form))

/-- A kind is given blocks of its own type. -/
theorem ofType_of_mem_calls {k : BlockKind} {t : MergeTable} {call : Call} (h : call ∈ k.calls t) :
    call.form.OfType k.name := by
  unfold calls at h
  split at h
  · obtain ⟨m, -, rfl⟩ := List.mem_map.1 h
    simp [Form.OfType, Form.blocks]
  · obtain ⟨b, hb, rfl⟩ := List.mem_map.1 h
    simpa [Form.OfType, Form.blocks] using (List.mem_filter.1 hb).2

end BlockKind

/-- Every call of a registry has a form of the type of its kind. -/
theorem Registry.ofType_of_mem_calls {r : Registry} {t : MergeTable} {call : Call}
    (h : call ∈ r.calls t) : call.form.OfType call.kind.name := by
  obtain ⟨k, -, hcall⟩ := List.mem_flatMap.1 h
  rw [(BlockKind.of_mem_calls hcall).1]
  exact BlockKind.ofType_of_mem_calls hcall

/-! ## Every kind is gated -/

/-- A block that is refused is reported with what is wrong with it. -/
theorem ofBlock_of_acceptIf {faults found : List Diagnostic} {c next : Config}
    (hfaults : AllOf OfBlock faults) (h : (acceptIf faults c next).2 = .error found) :
    AllOf OfBlock found := by
  obtain ⟨-, -, rfl⟩ := acceptIf_eq_error_iff.1 (Prod.ext rfl h)
  exact hfaults

/-- A kind that needs no experiment and does not look at the options. -/
theorem gated_of_free {k : BlockKind} (hk : k.experiment? = none)
    (hfree : ∀ options options' c form, k.read options c form = k.read options' c form)
    (hreports : ∀ {c form faults}, (k.read ⟨.empty⟩ c form).2 = .error faults →
      AllOf OfBlock faults) :
    ∃ rule, k.Gated rule := by
  refine ⟨k.read ⟨.empty⟩, hreports, fun options c form _ => ?_⟩
  rw [BlockKind.gateErrors, hk]
  exact hfree ..

/-- The gate errors of a single block are those of the gate at its header. -/
theorem gateErrors_raw {k : BlockKind} {e : String} (he : k.experiment? = some e)
    (options : Options) (c : Config) (b : Block) :
    k.gateErrors options c (.raw b) = gate options c e k.name b.header := by
  rw [BlockKind.gateErrors, he]
  exact List.flatMap_singleton ..

/-- The rule that records a single block unless something is wrong with it, and that has nothing to
say about merged blocks. -/
def recordSingle (faults : Block → List Diagnostic) (record : Config → Block → Config)
    (c : Config) : Form → Config × Except (List Diagnostic) Unit
  | .raw b => acceptIf (faults b) c (record c b)
  | .merged _ => (c, .ok ())

/-- A kind that records single blocks when the gate does not refuse them. -/
theorem gated_recordSingle {k : BlockKind} {e : String} {faults : Block → List Diagnostic}
    (record : Config → Block → Config) (hneed : k.experiment? = some e)
    (hfaults : ∀ b, AllOf OfBlock (faults b))
    (hmerged : ∀ options c m, k.read options c (.merged m) = (c, .ok ()))
    (hraw : ∀ options c b, b.blockType = k.name → k.read options c (.raw b) =
      if gate options c e k.name b.header = [] then acceptIf (faults b) c (record c b)
      else (c, .error (gate options c e k.name b.header))) :
    k.Gated (recordSingle faults record) := by
  refine ⟨fun {c form found} h => ?_, fun options c form htype => ?_⟩
  · cases form with
    | raw b => exact ofBlock_of_acceptIf (hfaults b) h
    | merged m => cases h
  · cases form with
    | raw b =>
      rw [gateErrors_raw hneed]
      exact hraw options c b (htype b (List.mem_singleton_self b))
    | merged m =>
      rw [hmerged, BlockKind.gateErrors, hneed]
      rfl

/-- Scripts are behind a gate, and otherwise go by a rule of their own. -/
theorem gated_scriptKind : ∃ rule, scriptKind.Gated rule := by
  have hneed : scriptKind.experiment? = some scriptsExperiment := by decide
  refine ⟨_, gated_recordSingle (fun c b => { c with scripts := c.scripts ++ [scriptOf b] }) hneed
    ofBlock_scriptFaults (fun _ _ _ => rfl) fun options c b _ => ?_⟩
  simp only [scriptKind]
  split
  · rename_i hpass
    exact (if_pos hpass).symm
  · rename_i hrefused
    exact (if_neg hrefused).symm

/-- A shared kind is behind the gate of shared outputs, and otherwise goes by the faults of its
blocks. -/
theorem gated_shared {k : BlockKind} {faults : Block → List Diagnostic}
    {record : Config → Block → Option Config}
    (hneed : k.experiment? = some outputsSharingExperiment)
    (hread : k.read = readShared faults record)
    (hfaults : ∀ b, AllOf OfBlock (faults b)) : ∃ rule, k.Gated rule := by
  have hmerged : ∀ options c m, k.read options c (.merged m) = (c, .ok ()) := by
    rw [hread]
    exact fun _ _ _ => rfl
  refine ⟨_, gated_recordSingle (fun c b => (record c b).getD c) hneed hfaults hmerged
    fun options c b htype => ?_⟩
  rw [hread]
  simp only [readShared, htype]
  split
  · rename_i hpass
    exact (if_pos hpass).symm
  · rename_i hrefused
    exact (if_neg hrefused).symm

/-- Every kind is the gate, followed by a rule that no options have a say in. -/
theorem exists_gated {k : BlockKind} (hk : k ∈ Registry.builtinKinds) : ∃ rule, k.Gated rule := by
  simp only [Registry.builtinKinds, List.mem_cons, List.not_mem_nil, or_false] at hk
  -- a form that the kind does not ask for is taken without a word, so only the other one matters
  rcases hk with rfl | rfl | rfl | rfl | rfl | rfl | rfl | rfl | rfl | rfl
  · refine gated_of_free (by decide) (fun _ _ _ _ => rfl) fun {c form faults} h => ?_
    cases form with
    | raw b => cases h
    | merged m => exact ofBlock_of_acceptIf (ofBlock_projectFaults m) h
  · refine gated_of_free (by decide) (fun _ _ _ _ => rfl) fun {c form faults} h => ?_
    cases form with
    | raw b => cases h
    | merged m => exact ofBlock_of_acceptIf (ofBlock_freeFaults m) h
  · refine gated_of_free (by decide) (fun _ _ _ _ => rfl) fun {c form faults} h => ?_
    cases form with
    | raw b => exact ofBlock_of_acceptIf (ofBlock_stackFaults b) h
    | merged m => cases h
  · exact gated_scriptKind
  · exact gated_shared (by decide) rfl ofBlock_backendFaults
  · exact gated_shared (by decide) rfl ofBlock_inputFaults
  · exact gated_shared (by decide) rfl ofBlock_outputFaults
  · refine gated_of_free (by decide) (fun _ _ _ _ => rfl) fun {c form faults} h => ?_
    cases form with
    | raw b => exact ofBlock_of_acceptIf (ofBlock_assertFaults b) h
    | merged m => cases h
  · refine gated_of_free (by decide) (fun _ _ _ _ => rfl) fun {c form faults} h => ?_
    cases form with
    | raw b => exact ofBlock_of_acceptIf (ofBlock_hclFaults b) h
    | merged m => cases h
  · refine gated_of_free (by decide) (fun _ _ _ _ => rfl) fun {c form faults} h => ?_
    cases form with
    | raw b => exact ofBlock_of_acceptIf (ofBlock_fileFaults b) h
    | merged m => cases h

/-! ## What the gate reports -/

section GateErrors

variable {k : BlockKind} {options options' : Options} {c c' : Config} {form : Form}

/-- An experiment is enabled in the options or declared by the project. -/
theorem hasExperiment_iff {e : String} :
    c.hasExperiment options e = true ↔
      e ∈ options.experiments.names ∨ e ∈ c.declaredExperiments := by
  simp [Config.hasExperiment, NameSet.has]

/-- The gate errors depend on the declared experiments of the configuration only. -/
theorem gateErrors_congr (h : c.declaredExperiments = c'.declaredExperiments) :
    k.gateErrors options c form = k.gateErrors options c' form := by
  unfold BlockKind.gateErrors
  split
  · rfl
  · exact List.flatMap_congr fun b _ => gate_congr h _ _ _

/-- A gated kind refuses every block of a form if its experiment is not enabled, and none
otherwise. -/
theorem gateErrors_eq {e : String} (he : k.experiment? = some e) :
    k.gateErrors options c form =
      if c.hasExperiment options e then [] else form.blocks.map (k.refusal e) := by
  rw [BlockKind.gateErrors, he]
  by_cases henabled : c.hasExperiment options e = true
  · simp [gate, henabled]
  · simp only [gate, henabled, Bool.false_eq_true, if_false]
    exact List.map_eq_flatMap.symm

/-- With more experiments in the options, the gate refuses less. -/
theorem gateErrors_of_enabled
    (hoptions : ∀ e ∈ options.experiments.names, e ∈ options'.experiments.names)
    (h : k.gateErrors options c form = []) : k.gateErrors options' c form = [] := by
  cases he : k.experiment? with
  | none => simp [BlockKind.gateErrors, he]
  | some e =>
    rw [gateErrors_eq he] at h ⊢
    split at h
    · rename_i henabled
      rw [if_pos (hasExperiment_iff.2 ((hasExperiment_iff.1 henabled).imp_left (hoptions e)))]
    · rw [h, ite_self]

/-- What the gate reports is a gate error, and one of the schema. -/
theorem isGate_of_mem_gateErrors {d : Diagnostic} (h : d ∈ k.gateErrors options c form) :
    d.isGate = true ∧ d.kind = .schema := by
  cases he : k.experiment? with
  | none => simp [BlockKind.gateErrors, he] at h
  | some e =>
    rw [gateErrors_eq he] at h
    split at h
    · cases h
    · obtain ⟨b, -, rfl⟩ := List.mem_map.1 h
      exact ⟨rfl, rfl⟩

end GateErrors

/-! ## What a kind reports -/

section Read

variable {k : BlockKind} (hk : k ∈ Registry.builtinKinds) {options : Options} {c : Config}
  {form : Form} (htype : form.OfType k.name)
include hk htype

/-- A kind that refuses a block reports what the gate reports, and what its rule reports only when
the gate lets the block pass. -/
theorem filter_isGate_of_read {faults : List Diagnostic}
    (h : (k.read options c form).2 = .error faults) :
    faults.filter isGate = k.gateErrors options c form := by
  obtain ⟨rule, hgated⟩ := exists_gated hk
  rw [hgated.read_eq options c form htype] at h
  split at h
  · rename_i hpass
    rw [hpass, List.filter_eq_nil_iff]
    exact fun d hd => by simp [(hgated.reports h d hd).ofRule.not_gate]
  · obtain rfl := Except.error.inj h
    exact List.filter_eq_self.2 fun d hd => (isGate_of_mem_gateErrors hd).1

/-- The gate has let pass a block that is accepted. -/
theorem gateErrors_of_read {c' : Config} (h : k.read options c form = (c', .ok ())) :
    k.gateErrors options c form = [] := by
  obtain ⟨rule, hgated⟩ := exists_gated hk
  rw [hgated.read_eq options c form htype] at h
  split at h
  · assumption
  · cases h

/-- A block that the gate refuses is not looked at any further. -/
theorem read_of_gateErrors (h : k.gateErrors options c form ≠ []) :
    k.read options c form = (c, .error (k.gateErrors options c form)) := by
  obtain ⟨rule, hgated⟩ := exists_gated hk
  rw [hgated.read_eq options c form htype, if_neg h]

/-- What a kind accepts it accepts with more experiments, and records it in the same way. -/
theorem read_of_enabled {options' : Options} {c' : Config}
    (hoptions : ∀ e ∈ options.experiments.names, e ∈ options'.experiments.names)
    (h : k.read options c form = (c', .ok ())) : k.read options' c form = (c', .ok ()) := by
  have hpass := gateErrors_of_read hk htype h
  obtain ⟨rule, hgated⟩ := exists_gated hk
  rw [hgated.read_eq options c form htype, if_pos hpass] at h
  rw [hgated.read_eq options' c form htype, if_pos (gateErrors_of_enabled hoptions hpass), h]

/-- A block is refused for what the schema of its kind says, or for attributes in its parts that
define one name. -/
theorem schema_or_conflict_of_read {faults : List Diagnostic}
    (h : (k.read options c form).2 = .error faults) :
    ∀ d ∈ faults, d.kind = .schema ∨ d.IsConflict := by
  obtain ⟨rule, hgated⟩ := exists_gated hk
  rw [hgated.read_eq options c form htype] at h
  split at h
  · exact fun d hd => (hgated.reports h d hd).schema_or_conflict
  · obtain rfl := Except.error.inj h
    exact fun d hd => .inl (isGate_of_mem_gateErrors hd).2

end Read

/-! ## All blocks -/

section RecordAll

variable {options : Options} {c : Config} {calls : List Call}

/-- Blocks of other kinds leave the settings of the project as they are, whether they are recorded
or refused. -/
theorem project_recordAll_of_ne
    (hcalls : ∀ call ∈ calls, call.kind ∈ Registry.builtinKinds ∧
      call.form.Fits call.kind.policy ∧ call.kind.name ≠ projectKind.name) :
    (c.recordAll options calls).1.project = c.project := by
  induction calls generalizing c with
  | nil => rfl
  | cons call calls ih =>
    obtain ⟨kind, form⟩ := call
    obtain ⟨⟨hkind, hfit, hne⟩, hrest⟩ := List.forall_mem_cons.1 hcalls
    rcases settled_read hkind options c form with ⟨c', hread⟩ | ⟨faults, -, hread⟩
    · rw [recordAll_cons_of_ok hread, ih hrest, (records_of_read hkind hfit hread).project_eq,
        if_neg hne, Option.none_or]
    · rw [recordAll_cons_of_error hread]
      exact ih hrest

/-- The refusals by the gate among the errors of recording blocks, when no block is of the kind that
declares experiments: one block after the other, where none makes a difference to the next. -/
theorem filter_isGate_recordAll
    (hcalls : ∀ call ∈ calls, call.kind ∈ Registry.builtinKinds ∧
      call.form.Fits call.kind.policy ∧ call.kind.name ≠ projectKind.name)
    (htypes : ∀ call ∈ calls, call.form.OfType call.kind.name) :
    (c.recordAll options calls).2.filter isGate =
      calls.flatMap fun call => call.kind.gateErrors options c call.form := by
  induction calls generalizing c with
  | nil => rfl
  | cons call calls ih =>
    obtain ⟨kind, form⟩ := call
    obtain ⟨⟨hkind, hfit, hne⟩, hrest⟩ := List.forall_mem_cons.1 hcalls
    obtain ⟨htype, htypes⟩ := List.forall_mem_cons.1 htypes
    rw [List.flatMap_cons]
    rcases settled_read hkind options c form with ⟨c', hread⟩ | ⟨faults, -, hread⟩
    · have hproject : c'.project = c.project := by
        rw [(records_of_read hkind hfit hread).project_eq, if_neg hne, Option.none_or]
      rw [recordAll_cons_of_ok hread, ih hrest htypes, gateErrors_of_read hkind htype hread,
        List.nil_append]
      exact List.flatMap_congr fun call _ => gateErrors_congr (declaredExperiments_congr hproject)
    · rw [recordAll_cons_of_error hread, List.filter_append, ih hrest htypes,
        filter_isGate_of_read hkind htype (congrArg Prod.snd hread)]

/-- Blocks that are recorded without errors are recorded in the same way with more experiments. -/
theorem recordAll_of_enabled {options' : Options}
    (hoptions : ∀ e ∈ options.experiments.names, e ∈ options'.experiments.names)
    (hcalls : ∀ call ∈ calls, call.kind ∈ Registry.builtinKinds ∧
      call.form.OfType call.kind.name)
    (hok : (c.recordAll options calls).2 = []) :
    c.recordAll options' calls = c.recordAll options calls := by
  induction calls generalizing c with
  | nil => rfl
  | cons call calls ih =>
    obtain ⟨kind, form⟩ := call
    obtain ⟨⟨hkind, htype⟩, hrest⟩ := List.forall_mem_cons.1 hcalls
    rcases settled_read hkind options c form with ⟨c', hread⟩ | ⟨faults, hne, hread⟩
    · rw [recordAll_cons_of_ok hread] at hok ⊢
      rw [recordAll_cons_of_ok (read_of_enabled hkind htype hoptions hread)]
      exact ih hrest hok
    · -- a block that is refused leaves an error behind
      rw [recordAll_cons_of_error hread] at hok
      exact (hne (List.append_eq_nil_iff.1 hok).1).elim

/-- Recording blocks reports what the schemas of their kinds say, and attributes in the parts of a
block that define one name. -/
theorem schema_or_conflict_of_mem_recordAll
    (hcalls : ∀ call ∈ calls, call.kind ∈ Registry.builtinKinds ∧
      call.form.OfType call.kind.name) :
    ∀ d ∈ (c.recordAll options calls).2, d.kind = .schema ∨ d.IsConflict := by
  induction calls generalizing c with
  | nil => simp [Config.recordAll]
  | cons call calls ih =>
    obtain ⟨kind, form⟩ := call
    obtain ⟨⟨hkind, htype⟩, hrest⟩ := List.forall_mem_cons.1 hcalls
    rcases settled_read hkind options c form with ⟨c', hread⟩ | ⟨faults, -, hread⟩
    · rw [recordAll_cons_of_ok hread]
      exact ih hrest
    · rw [recordAll_cons_of_error hread]
      exact List.forall_mem_append.2
        ⟨schema_or_conflict_of_read hkind htype (congrArg Prod.snd hread), ih hrest⟩

end RecordAll

end ScopeConfig
