import ScopeConfig.Proofs.Config.Contents

/-!
# What blocks become when they are recorded

The values that the fields of a configuration have after the blocks of a table were recorded without
errors: in the lists, what each kept block declares, in order; for the project and the stack, what
the last of their blocks declares.

## Main statements

* `entries_recordAll_calls`: the entries of the kinds that have a list.
* `project_recordAll_calls`, `stack_recordAll_calls`: the project settings and the stack.
-/

namespace ScopeConfig

open Syntax Blocks

/-! ## Kinds with a list -/

namespace ListedKind

/-- What a block of a kind declares. -/
@[reducible] def Entry : ListedKind → Type
  | scripts => Script
  | backends => SharingBackend
  | inputs => Input
  | outputs => Output
  | asserts => Assertion
  | hcls => GeneratedHcl
  | files => GeneratedFile

/-- The list of a kind. -/
def entries (c : Config) : (l : ListedKind) → List l.Entry
  | scripts => c.scripts
  | backends => c.sharingBackends
  | inputs => c.inputs
  | outputs => c.outputs
  | asserts => c.asserts
  | hcls => c.generatedHcls
  | files => c.generatedFiles

/-- The entry that a block declares. -/
def entry? : (l : ListedKind) → Block → Option l.Entry
  | scripts => fun b => some (scriptOf b)
  | backends => backend?
  | inputs => input?
  | outputs => output?
  | asserts => assertion?
  | hcls => generatedHcl?
  | files => generatedFile?

/-- A block that is recorded adds what it declares to the list of its kind, and nothing to any other
list. -/
theorem entries_of_records (l : ListedKind) {c c' : Config} {k : BlockKind} {form : Form}
    (h : c.Records k form c') :
    l.entries c' = l.entries c ++
      if k.name = l.kind.name then form.blocks.filterMap l.entry? else [] := by
  cases h <;> cases l <;>
    simp_all [entries, entry?, kind, Form.blocks, projectKind, globalsKind, stackKind, scriptKind,
      backendKind, inputKind, outputKind, assertKind, hclKind, fileKind]

end ListedKind

/-! ## Fields with one value -/

/-- The settings of the project that a table declares: the last of them counts. -/
def MergeTable.settings (t : MergeTable) : Option ProjectSettings :=
  (t.mergedOf projectKind.name).getLast?.map projectSettings

namespace Config.Records

variable {c c' : Config} {k : BlockKind} {form : Form} (h : c.Records k form c')
include h

/-- Recording leaves the directory of the configuration as it was. -/
theorem dir_eq : c'.dir = c.dir := by
  cases h <;> rfl

/-- The project settings after recording: those of the last block given to the project kind, or else
those before. -/
theorem project_eq :
    c'.project = (if k.name = projectKind.name then form.entities.getLast?.map projectSettings
      else none).or c.project := by
  cases h <;> simp [Form.entities, projectKind, globalsKind, stackKind, scriptKind, backendKind,
    inputKind, outputKind, assertKind, hclKind, fileKind]

/-- The stack after recording: that of the last block given to the stack kind, or else the one
before. -/
theorem stack_eq :
    c'.stack = (if k.name = stackKind.name then form.blocks.getLast?.map stackOf
      else none).or c.stack := by
  cases h <;> simp [Form.blocks, projectKind, globalsKind, stackKind, scriptKind, backendKind,
    inputKind, outputKind, assertKind, hclKind, fileKind]

end Config.Records

/-- A field that some blocks set: the last of them counts. -/
theorem recordAll_last {β : Type} {options : Options} {c : Config} {calls : List Call}
    (view : Config → Option β) (sets : Call → Option β)
    (hsets : ∀ c c' call, c.Records call.kind call.form c' → view c' = (sets call).or (view c))
    (hcalls : ∀ call ∈ calls,
      call.kind ∈ Registry.builtinKinds ∧ call.form.Fits call.kind.policy)
    (hok : (c.recordAll options calls).2 = []) :
    view (c.recordAll options calls).1 = (calls.filterMap sets).getLast?.or (view c) := by
  -- in a fold each value that is set hides the one before
  have hfold : ∀ (calls : List Call) (value : Option β),
      calls.foldl (fun value call => (sets call).or value) value =
        (calls.filterMap sets).getLast?.or value := by
    intro calls
    induction calls with
    | nil => simp
    | cons call calls ih =>
      intro value
      rw [List.foldl_cons, ih, List.filterMap_cons]
      cases hset : sets call with
      | none => rfl
      | some x =>
        rw [List.getLast?_cons]
        cases (calls.filterMap sets).getLast? <;> rfl
  rw [recordAll_view view (fun value call => (sets call).or value) hsets hcalls hok, hfold]

/-- What is picked from the calls of one kind, at most one thing from each. -/
theorem Registry.filterMap_calls {β : Type} (r : Registry) (t : MergeTable) {k : BlockKind}
    (hk : k ∈ r.kinds) (g : Form → Option β) :
    (r.calls t).filterMap (fun call => if call.kind.name = k.name then g call.form else none) =
      (k.calls t).filterMap fun call => g call.form := by
  rw [List.filterMap_eq_flatMap_toList, List.filterMap_eq_flatMap_toList,
    ← r.flatMap_calls t hk fun form => (g form).toList]
  refine List.flatMap_congr fun call _ => ?_
  split <;> rfl

/-- Every merged block of a kind that merges by label is given to its kind. -/
theorem Registry.mem_calls_merged {r : Registry} {t : MergeTable} {k : BlockKind} {m : MergedBlock}
    (hk : k ∈ r.kinds) (hpolicy : k.policy = .mergeByLabel) (hm : m ∈ t.mergedOf k.name) :
    ⟨k, .merged m⟩ ∈ r.calls t := by
  refine List.mem_flatMap.2 ⟨k, hk, ?_⟩
  rw [BlockKind.calls, if_pos hpolicy]
  exact List.mem_map.2 ⟨m, hm, rfl⟩

theorem Registry.mem_calls_raw {r : Registry} {t : MergeTable} {k : BlockKind} {b : Block}
    (hk : k ∈ r.kinds) (hpolicy : k.policy ≠ .mergeByLabel) (hb : b ∈ t.unmergedOf k.name) :
    ⟨k, .raw b⟩ ∈ r.calls t := by
  refine List.mem_flatMap.2 ⟨k, hk, ?_⟩
  rw [BlockKind.calls, if_neg hpolicy]
  exact List.mem_map.2 ⟨b, hb, rfl⟩

/-! ## All blocks of a table -/

section RecordAll

variable {options : Options} {c : Config} {t : MergeTable}
  (hok : (c.recordAll options (Registry.builtin.calls t)).2 = [])
include hok

/-- No call touches the directory of the configuration. -/
theorem dir_recordAll_calls :
    (c.recordAll options (Registry.builtin.calls t)).1.dir = c.dir := by
  rw [recordAll_view Config.dir (fun dir _ => dir) (fun c c' call h => h.dir_eq)
    (fun _ => Registry.builtin.of_mem_calls t) hok]
  exact List.foldl_fixed _

/-- Every kept block of a kind with a list adds what it declares. -/
theorem entries_recordAll_calls (l : ListedKind) :
    l.entries (c.recordAll options (Registry.builtin.calls t)).1 =
      l.entries c ++ (t.unmergedOf l.kind.name).filterMap l.entry? := by
  rw [recordAll_list l.entries
    (fun call => if call.kind.name = l.kind.name then call.form.blocks.filterMap l.entry? else [])
    (fun c c' call h => l.entries_of_records h) (fun _ => Registry.builtin.of_mem_calls t) hok,
    Registry.builtin.flatMap_calls t l.kind_mem fun form => form.blocks.filterMap l.entry?]
  rw [BlockKind.calls, if_neg l.policy_ne, List.flatMap_map, ← List.filterMap_flatMap]
  simp [Form.blocks]

/-- The project settings after all calls: those of the table, or else those before. -/
theorem project_recordAll_calls :
    (c.recordAll options (Registry.builtin.calls t)).1.project = t.settings.or c.project := by
  rw [recordAll_last Config.project
    (fun call => if call.kind.name = projectKind.name then
      call.form.entities.getLast?.map projectSettings else none)
    (fun c c' call h => h.project_eq) (fun _ => Registry.builtin.of_mem_calls t) hok,
    Registry.builtin.filterMap_calls t projectKind_mem
      fun form => form.entities.getLast?.map projectSettings]
  have hpolicy : projectKind.policy = .mergeByLabel := rfl
  rw [BlockKind.calls, if_pos hpolicy, List.filterMap_map, MergeTable.settings,
    ← List.getLast?_map, ← List.filterMap_eq_map]
  rfl

/-- The last stack counts. -/
theorem stack_recordAll_calls :
    (c.recordAll options (Registry.builtin.calls t)).1.stack =
      ((t.unmergedOf stackKind.name).getLast?.map stackOf).or c.stack := by
  rw [recordAll_last Config.stack
    (fun call => if call.kind.name = stackKind.name then
      call.form.blocks.getLast?.map stackOf else none)
    (fun c c' call h => h.stack_eq) (fun _ => Registry.builtin.of_mem_calls t) hok,
    Registry.builtin.filterMap_calls t stackKind_mem
      fun form => form.blocks.getLast?.map stackOf]
  have hpolicy : stackKind.policy ≠ .mergeByLabel := by simp [stackKind]
  rw [BlockKind.calls, if_neg hpolicy, List.filterMap_map, ← List.getLast?_map,
    ← List.filterMap_eq_map]
  rfl

end RecordAll

end ScopeConfig
