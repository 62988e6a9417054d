import ScopeConfig.Proofs.Config.Entries

/-!
# When recording finds no errors

Whether a kind accepts a block depends on the configuration through the experiments that the project
declares and through nothing else. The blocks that declare them are recorded first, so the blocks of
a table are recorded without errors exactly when each of them is accepted by the configuration that
has the settings of the project. What is checked at the end are names, which must be distinct.

## Main statements

* `accepts_congr`: what acceptance depends on.
* `recordAll_ok_iff`: when the blocks of a table are recorded without errors.
* `check_builtin_ok_iff`: when the checks at the end find nothing.
-/

namespace ScopeConfig

open Syntax Blocks

/-- A kind accepts a block, as far as the configuration has a say in it. -/
def BlockKind.Accepts (k : BlockKind) (options : Options) (c : Config) (form : Form) : Prop :=
  ∃ c', k.read options c form = (c', .ok ())

/-! ## What acceptance depends on -/

/-- Only what is wrong with a block decides whether it is accepted. -/
theorem exists_acceptIf_eq_ok_iff {faults : List Diagnostic} {c next : Config} :
    (∃ c', acceptIf faults c next = (c', .ok ())) ↔ faults = [] := by
  simp [acceptIf_eq_ok_iff]

/-- The project kind accepts a merged block exactly if it has no fault. -/
theorem projectKind_accepts_iff {options : Options} {c : Config} {m : MergedBlock} :
    projectKind.Accepts options c (.merged m) ↔ projectFaults m = [] :=
  exists_acceptIf_eq_ok_iff

/-- The globals kind accepts a merged block exactly if it has no fault. -/
theorem globalsKind_accepts_iff {options : Options} {c : Config} {m : MergedBlock} :
    globalsKind.Accepts options c (.merged m) ↔ freeFaults m = [] :=
  exists_acceptIf_eq_ok_iff

/-- The stack kind accepts a block exactly if it has no fault. -/
theorem stackKind_accepts_iff {options : Options} {c : Config} {b : Block} :
    stackKind.Accepts options c (.raw b) ↔ stackFaults b = [] :=
  exists_acceptIf_eq_ok_iff

section Congr

variable {options : Options} {c c' : Config}
  (h : c.declaredExperiments = c'.declaredExperiments)
include h

/-- The gate looks at the options and the project settings only. -/
theorem gate_congr (experiment blockType : String) (range : SourceRange) :
    gate options c experiment blockType range = gate options c' experiment blockType range := by
  rw [gate, gate, Config.hasExperiment, Config.hasExperiment, h]

/-- A script is accepted in any two configurations that declare the same experiments. -/
theorem scriptKind_accepts_congr {form : Form} (hread : scriptKind.Accepts options c form) :
    scriptKind.Accepts options c' form := by
  cases form with
  | merged m => exact ⟨c', rfl⟩
  | raw b =>
    obtain ⟨x, hx⟩ := hread
    simp only [scriptKind, gate_congr h] at hx
    simp only [BlockKind.Accepts, scriptKind]
    split at hx
    · exact exists_acceptIf_eq_ok_iff.2 (acceptIf_eq_ok_iff.1 hx).1
    · cases hx

/-- A shared kind accepts the same blocks in any two configurations that declare the same
experiments. -/
theorem sharedKind_accepts_congr {k : BlockKind} {faults : Block → List Diagnostic}
    {record : Config → Block → Option Config} (hk : k.read = readShared faults record)
    {form : Form} (hread : k.Accepts options c form) : k.Accepts options c' form := by
  rw [BlockKind.Accepts, hk] at hread ⊢
  cases form with
  | merged m => exact ⟨c', rfl⟩
  | raw b =>
    obtain ⟨x, hx⟩ := hread
    simp only [readShared, gate_congr h] at hx ⊢
    split at hx
    · exact exists_acceptIf_eq_ok_iff.2 (acceptIf_eq_ok_iff.1 hx).1
    · cases hx

/-- Whether a kind accepts a block depends on the experiments that are declared only. -/
theorem accepts_congr {k : BlockKind} (hk : k ∈ Registry.builtinKinds) {form : Form}
    (hread : k.Accepts options c form) : k.Accepts options c' form := by
  have hany : ∀ {faults : List Diagnostic} {c next : Config} (d after : Config),
      (∃ z, acceptIf faults c next = (z, .ok ())) → ∃ z, acceptIf faults d after = (z, .ok ()) :=
    fun _ _ hx => exists_acceptIf_eq_ok_iff.2 (exists_acceptIf_eq_ok_iff.1 hx)
  simp only [Registry.builtinKinds, List.mem_cons, List.not_mem_nil, or_false] at hk
  -- only the scripts and the shared kinds look at the configuration, for the gate
  rcases hk with rfl | rfl | rfl | rfl | rfl | rfl | rfl | rfl | rfl | rfl
  · cases form with
    | raw b => exact ⟨c', rfl⟩
    | merged m => exact hany _ _ hread
  · cases form with
    | raw b => exact ⟨c', rfl⟩
    | merged m => exact hany _ _ hread
  · cases form with
    | raw b => exact hany _ _ hread
    | merged m => exact ⟨c', rfl⟩
  · exact scriptKind_accepts_congr h hread
  · exact sharedKind_accepts_congr h rfl hread
  · exact sharedKind_accepts_congr h rfl hread
  · exact sharedKind_accepts_congr h rfl hread
  · cases form with
    | raw b => exact hany _ _ hread
    | merged m => exact ⟨c', rfl⟩
  · cases form with
    | raw b => exact hany _ _ hread
    | merged m => exact ⟨c', rfl⟩
  · cases form with
    | raw b => exact hany _ _ hread
    | merged m => exact ⟨c', rfl⟩

/-- Each builtin kind accepts the same in any two configurations that declare the same
experiments. -/
theorem accepts_iff {k : BlockKind} (hk : k ∈ Registry.builtinKinds) {form : Form} :
    k.Accepts options c form ↔ k.Accepts options c' form :=
  ⟨accepts_congr h hk, accepts_congr h.symm hk⟩

end Congr

/-- The declared experiments are a matter of the project settings. -/
theorem declaredExperiments_congr {c c' : Config} (h : c.project = c'.project) :
    c.declaredExperiments = c'.declaredExperiments := by
  rw [Config.declaredExperiments, Config.declaredExperiments, h]

/-! ## All blocks of a table -/

/-- Recording one list of calls and then another is recording the two together. -/
theorem recordAll_append (options : Options) (c : Config) (first rest : List Call) :
    c.recordAll options (first ++ rest) =
      (((c.recordAll options first).1.recordAll options rest).1,
        (c.recordAll options first).2 ++
          ((c.recordAll options first).1.recordAll options rest).2) := by
  induction first generalizing c with
  | nil => rfl
  | cons call first ih =>
    simp [Config.recordAll, ih]

section RecordAll

variable {options : Options} {c : Config} {calls : List Call}

/-- Blocks are recorded without errors when each is accepted, as long as recording one of them makes
no difference to whether another is accepted. -/
theorem recordAll_ok_iff_of_stable
    (hcalls : ∀ call ∈ calls,
      call.kind ∈ Registry.builtinKinds ∧ call.form.Fits call.kind.policy)
    (hstable : ∀ c c', ∀ call ∈ calls, c.Records call.kind call.form c' → ∀ other ∈ calls,
      (other.kind.Accepts options c' other.form ↔ other.kind.Accepts options c other.form)) :
    (c.recordAll options calls).2 = [] ↔
      ∀ call ∈ calls, call.kind.Accepts options c call.form := by
  induction calls generalizing c with
  | nil => simp [Config.recordAll]
  | cons call calls ih =>
    obtain ⟨kind, form⟩ := call
    obtain ⟨hkind, hfit⟩ := hcalls ⟨kind, form⟩ List.mem_cons_self
    rw [List.forall_mem_cons]
    rcases settled_read hkind options c form with ⟨c', hread⟩ | ⟨faults, hne, hread⟩
    · rw [recordAll_cons_of_ok hread]
      have hrest := ih (c := c') (fun call hcall => hcalls call (List.mem_cons_of_mem _ hcall))
        fun d d' call hcall h other hother => hstable d d' call (List.mem_cons_of_mem _ hcall) h
          other (List.mem_cons_of_mem _ hother)
      have hsame : ∀ other ∈ calls, (other.kind.Accepts options c' other.form ↔
          other.kind.Accepts options c other.form) := fun other hother =>
        hstable c c' ⟨kind, form⟩ List.mem_cons_self (records_of_read hkind hfit hread) other
          (List.mem_cons_of_mem _ hother)
      have haccepts : kind.Accepts options c form := ⟨c', hread⟩
      simp only [hrest, haccepts, true_and]
      exact forall₂_congr hsame
    · -- a block that is refused leaves an error behind
      have hrefused : ¬kind.Accepts options c form := by
        rintro ⟨c', hok⟩
        rw [hread] at hok
        cases hok
      simp only [recordAll_cons_of_error hread, List.append_eq_nil_iff, hne, hrefused, false_and]

end RecordAll

/-- The kinds that are asked after the settings of the project were recorded. -/
theorem calls_builtin (t : MergeTable) :
    Registry.builtin.calls t =
      projectKind.calls t ++ Registry.builtinKinds.tail.flatMap (·.calls t) :=
  rfl

/-- Only the first builtin kind is named as the project kind. -/
theorem ne_projectKind_of_mem_tail {k : BlockKind} (hk : k ∈ Registry.builtinKinds.tail) :
    k.name ≠ projectKind.name := by
  have hall : ∀ k ∈ Registry.builtinKinds.tail, k.name ≠ projectKind.name := by decide
  exact hall k hk

/-- The settings of the project after its blocks were recorded. -/
theorem project_recordAll_calls_project {options : Options} {c : Config} {t : MergeTable}
    (hok : (c.recordAll options (projectKind.calls t)).2 = []) :
    (c.recordAll options (projectKind.calls t)).1.project =
      t.settings.or c.project := by
  have hpolicy : projectKind.policy = .mergeByLabel := rfl
  have hcalls : ∀ call ∈ projectKind.calls t,
      call.kind ∈ Registry.builtinKinds ∧ call.form.Fits call.kind.policy := by
    intro call hcall
    obtain ⟨hkind, hfit⟩ := BlockKind.of_mem_calls hcall
    rw [hkind]
    exact ⟨projectKind_mem, hfit⟩
  rw [recordAll_last Config.project
    (fun call => if call.kind.name = projectKind.name then
      call.form.entities.getLast?.map projectSettings else none)
    (fun c c' call h => h.project_eq) hcalls hok, BlockKind.calls, if_pos hpolicy,
    List.filterMap_map, MergeTable.settings, ← List.getLast?_map, ← List.filterMap_eq_map]
  rfl

/-- The blocks of a table are recorded without errors exactly when every one is accepted by the
configuration that has the settings of the project. -/
theorem recordAll_ok_iff {options : Options} {c : Config} {t : MergeTable}
    (hc : c.project = none) :
    (c.recordAll options (Registry.builtin.calls t)).2 = [] ↔
      ∀ call ∈ Registry.builtin.calls t,
        call.kind.Accepts options { c with project := t.settings } call.form := by
  have hkinds : ∀ call ∈ Registry.builtin.calls t,
      call.kind ∈ Registry.builtinKinds ∧ call.form.Fits call.kind.policy :=
    fun _ => Registry.builtin.of_mem_calls t
  rw [calls_builtin] at hkinds ⊢
  rw [List.forall_mem_append] at hkinds
  rw [recordAll_append, List.append_eq_nil_iff, List.forall_mem_append]
  -- the settings themselves are accepted whatever was recorded
  have hproject : ∀ call ∈ projectKind.calls t, ∀ d d' : Config,
      (call.kind.Accepts options d call.form ↔ call.kind.Accepts options d' call.form) := by
    intro call hcall d d'
    obtain ⟨m, -, rfl⟩ := List.mem_map.1 hcall
    exact projectKind_accepts_iff.trans projectKind_accepts_iff.symm
  have hfirst := (recordAll_ok_iff_of_stable (c := c) hkinds.1
    fun d d' _ _ _ other hother => hproject other hother d' d).trans
    (forall₂_congr fun call hcall => hproject call hcall c { c with project := t.settings })
  rw [← hfirst]
  refine and_congr_right fun hok => ?_
  -- no other block changes the settings
  have hstable : ∀ d d' : Config, ∀ call ∈ Registry.builtinKinds.tail.flatMap (·.calls t),
      d.Records call.kind call.form d' → d.declaredExperiments = d'.declaredExperiments := by
    intro d d' call hcall h
    obtain ⟨k, hk, hcall⟩ := List.mem_flatMap.1 hcall
    rw [(BlockKind.of_mem_calls hcall).1] at h
    have hname := ne_projectKind_of_mem_tail hk
    exact declaredExperiments_congr (by rw [h.project_eq, if_neg hname, Option.none_or])
  rw [recordAll_ok_iff_of_stable hkinds.2 fun d d' call hcall h other hother =>
    accepts_iff (hstable d d' call hcall h).symm (hkinds.2 other hother).1]
  refine forall₂_congr fun call hcall => accepts_iff ?_ (hkinds.2 call hcall).1
  apply declaredExperiments_congr
  rw [project_recordAll_calls_project hok, hc, Option.or_none]

/-! ## Checks at the end -/

/-- No name is declared before when they are distinct, and distinct from those in `seen`. -/
theorem repeatedNames_eq_nil_iff {kind : String} {seen entries : List (String × SourceRange)} :
    repeatedNames kind seen entries = [] ↔
      (entries.map Prod.fst).Nodup ∧ ∀ entry ∈ entries, entry.1 ∉ seen.map Prod.fst := by
  induction entries generalizing seen with
  | nil => simp [repeatedNames]
  | cons entry entries ih =>
    obtain ⟨name, range⟩ := entry
    have hlookup : seen.lookup name = none ↔ name ∉ seen.map Prod.fst := by
      rw [List.lookup_eq_none_iff]
      simp only [bne_iff_ne, List.mem_map, not_exists, not_and]
      exact forall₂_congr fun _ _ => ne_comm
    rw [repeatedNames]
    cases hseen : seen.lookup name with
    | some first =>
      have htaken : name ∈ seen.map Prod.fst := by
        by_contra hnew
        simp [hlookup.2 hnew] at hseen
      simp only [reduceCtorEq, List.forall_mem_cons, htaken, not_true, false_and, and_false]
    | none =>
      have hnew := hlookup.1 hseen
      have hother : name ∉ entries.map Prod.fst ↔ ∀ entry ∈ entries, entry.1 ≠ name := by
        simp only [List.mem_map, not_exists, not_and]
      simp only [ih, List.map_cons, List.nodup_cons, List.forall_mem_cons, hnew, not_false_eq_true,
        true_and, List.map_append, List.mem_append, List.map_nil, List.mem_singleton, not_or,
        forall_and, hother]
      tauto

/-- Names are unique exactly if no name is listed twice. -/
theorem uniqueNames_eq_nil_iff {kind : String} {entries : List (String × SourceRange)} :
    uniqueNames kind entries = [] ↔ (entries.map Prod.fst).Nodup := by
  simp [uniqueNames, repeatedNames_eq_nil_iff]

/-- The checks at the end find nothing when the names of the entries of a kind are distinct, where
the two kinds of generated files count as one. -/
theorem check_builtin_ok_iff (options : Options) (c : Config) :
    Registry.builtin.check options c = [] ↔
      (c.sharingBackends.map (·.name)).Nodup ∧ (c.inputs.map (·.name)).Nodup ∧
        (c.outputs.map (·.name)).Nodup ∧
        (c.generatedHcls.map (·.label) ++ c.generatedFiles.map (·.label)).Nodup := by
  simp [Registry.check, Registry.builtin, Registry.builtinKinds, projectKind, globalsKind,
    stackKind, scriptKind, backendKind, inputKind, outputKind, assertKind, hclKind, fileKind,
    fileLabelsCheck, uniqueNames_eq_nil_iff, Function.comp_def]

end ScopeConfig
