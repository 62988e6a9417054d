import Mathlib.Data.List.Nodup
import ScopeConfig.Proofs.Config.Recording

/-!
# What a configuration holds after recording

The fields of a configuration after the blocks of a table were recorded without errors, in terms of
the table: one entry for each kept block of the kinds that have a list, the merged globals as they
are, and whether there are project settings and a stack.

## Main statements

* `ranges_recordAll_calls`: the entries of the kinds that have a list.
* `globals_recordAll_calls`, `isSome_project_recordAll_calls`, `isSome_stack_recordAll_calls`: the
  other fields.
-/

namespace ScopeConfig

open Syntax Blocks

/-! ## Calls -/

/-- The blocks that a form holds as they were written. -/
def Form.blocks : Form → List Block
  | .raw b => [b]
  | .merged _ => []

/-- The merged blocks that a form holds. -/
def Form.entities : Form → List MergedBlock
  | .raw _ => []
  | .merged m => [m]

/-- The calls of a kind are calls to that kind, in the form its policy asks for. -/
theorem BlockKind.of_mem_calls {k : BlockKind} {t : MergeTable} {call : Call}
    (h : call ∈ k.calls t) : call.kind = k ∧ call.form.Fits k.policy := by
  unfold BlockKind.calls at h
  split at h
  · rename_i hpolicy
    obtain ⟨m, -, rfl⟩ := List.mem_map.1 h
    exact ⟨rfl, hpolicy⟩
  · rename_i hpolicy
    obtain ⟨b, -, rfl⟩ := List.mem_map.1 h
    exact ⟨rfl, hpolicy⟩

namespace Registry

variable {β : Type} (r : Registry) (t : MergeTable)

/-- Each call of a registry is to one of its kinds, in the form the policy of that kind asks for. -/
theorem of_mem_calls {call : Call} (h : call ∈ r.calls t) :
    call.kind ∈ r.kinds ∧ call.form.Fits call.kind.policy := by
  obtain ⟨k, hk, hcall⟩ := List.mem_flatMap.1 h
  obtain ⟨rfl, hfit⟩ := BlockKind.of_mem_calls hcall
  exact ⟨hk, hfit⟩

/-- Of kinds with distinct names, only one has the name of `k`. -/
theorem flatMap_of_name {kinds : List BlockKind} (hnodup : (kinds.map BlockKind.name).Nodup)
    {k : BlockKind} (hk : k ∈ kinds) (g : BlockKind → List β) :
    (kinds.flatMap fun k' => if k'.name = k.name then g k' else []) = g k := by
  induction kinds with
  | nil => cases hk
  | cons k' kinds ih =>
    rw [List.map_cons, List.nodup_cons] at hnodup
    obtain ⟨hnew, hnodup⟩ := hnodup
    rw [List.flatMap_cons]
    rcases List.mem_cons.1 hk with rfl | hk
    · have hrest : (kinds.flatMap fun k' => if k'.name = k.name then g k' else []) = [] := by
        refine List.flatMap_eq_nil_iff.2 fun k' hk' => if_neg fun hname => hnew ?_
        exact hname ▸ List.mem_map_of_mem hk'
      rw [hrest, if_pos rfl, List.append_nil]
    · have hne : k'.name ≠ k.name := fun hname => hnew (hname ▸ List.mem_map_of_mem hk)
      rw [if_neg hne, List.nil_append, ih hnodup hk]

/-- What is picked from the calls of one kind, among the calls of all kinds. -/
theorem flatMap_calls {k : BlockKind} (hk : k ∈ r.kinds) (g : Form → List β) :
    (r.calls t).flatMap (fun call => if call.kind.name = k.name then g call.form else []) =
      (k.calls t).flatMap fun call => g call.form := by
  have hown : ∀ k' : BlockKind,
      ((k'.calls t).flatMap fun call => if call.kind.name = k.name then g call.form else []) =
        if k'.name = k.name then (k'.calls t).flatMap (fun call => g call.form) else [] := by
    intro k'
    by_cases hname : k'.name = k.name
    · rw [if_pos hname]
      refine List.flatMap_congr fun call hcall => ?_
      rw [(BlockKind.of_mem_calls hcall).1, if_pos hname]
    · rw [if_neg hname]
      refine List.flatMap_eq_nil_iff.2 fun call hcall => ?_
      rw [(BlockKind.of_mem_calls hcall).1, if_neg hname]
  rw [calls, List.flatMap_assoc]
  simp only [hown]
  exact flatMap_of_name r.nodup hk _

/-- Whether a kind has calls, among the calls of all kinds. -/
theorem any_calls {k : BlockKind} (hk : k ∈ r.kinds) :
    (r.calls t).any (fun call => call.kind.name = k.name) = !(k.calls t).isEmpty := by
  rw [Bool.eq_iff_iff]
  simp only [List.any_eq_true, decide_eq_true_eq, Bool.not_eq_true', List.isEmpty_eq_false_iff]
  constructor
  · rintro ⟨call, hcall, hname⟩
    obtain ⟨k', hk', hcall'⟩ := List.mem_flatMap.1 hcall
    rw [(BlockKind.of_mem_calls hcall').1] at hname
    obtain rfl := List.inj_on_of_nodup_map r.nodup hk' hk hname
    exact List.ne_nil_of_mem hcall'
  · intro hne
    obtain ⟨call, hcall⟩ := List.exists_mem_of_ne_nil _ hne
    refine ⟨call, List.mem_flatMap.2 ⟨k, hk, hcall⟩, ?_⟩
    rw [(BlockKind.of_mem_calls hcall).1]

end Registry

/-- The project kind is builtin. -/
theorem projectKind_mem : projectKind ∈ Registry.builtin.kinds := by
  simp [Registry.builtin, Registry.builtinKinds]

theorem globalsKind_mem : globalsKind ∈ Registry.builtin.kinds := by
  simp [Registry.builtin, Registry.builtinKinds]

theorem stackKind_mem : stackKind ∈ Registry.builtin.kinds := by
  simp [Registry.builtin, Registry.builtinKinds]

/-! ## Kinds with a list -/

/-- The kinds that record every block as an entry of a list. -/
inductive ListedKind where
  | scripts | backends | inputs | outputs | asserts | hcls | files

namespace ListedKind

/-- The kind of the blocks. -/
def kind : ListedKind → BlockKind
  | scripts => scriptKind
  | backends => backendKind
  | inputs => inputKind
  | outputs => outputKind
  | asserts => assertKind
  | hcls => hclKind
  | files => fileKind

/-- The ranges of the entries. -/
def ranges (c : Config) : ListedKind → List SourceRange
  | scripts => c.scripts.map (·.range)
  | backends => c.sharingBackends.map (·.range)
  | inputs => c.inputs.map (·.range)
  | outputs => c.outputs.map (·.range)
  | asserts => c.asserts.map (·.range)
  | hcls => c.generatedHcls.map (·.range)
  | files => c.generatedFiles.map (·.range)

/-- Every kind that records a list is builtin. -/
theorem kind_mem (l : ListedKind) : l.kind ∈ Registry.builtin.kinds := by
  cases l <;> simp [kind, Registry.builtin, Registry.builtinKinds]

/-- No kind that records a list merges its blocks by label. -/
theorem policy_ne (l : ListedKind) : l.kind.policy ≠ .mergeByLabel := by
  cases l <;> simp [kind, scriptKind, backendKind, inputKind, outputKind, assertKind, hclKind,
    fileKind]

/-- A block that is recorded adds its range to the list of its kind, and to no other list. -/
theorem ranges_of_records (l : ListedKind) {c c' : Config} {k : BlockKind} {form : Form}
    (h : c.Records k form c') :
    l.ranges c' = l.ranges c ++
      if k.name = l.kind.name then form.blocks.map Block.range else [] := by
  cases h <;> cases l <;>
    simp_all [ranges, kind, Form.blocks, projectKind, globalsKind, stackKind, scriptKind,
      backendKind, inputKind, outputKind, assertKind, hclKind, fileKind, scriptOf]

end ListedKind

/-! ## The other fields -/

namespace Config.Records

variable {c c' : Config} {k : BlockKind} {form : Form} (h : c.Records k form c')
include h

/-- Recording leaves the attributes of the configuration as they were. -/
theorem attributes_eq : c'.attributes = c.attributes := by
  cases h <;> rfl

/-- Recording adds to the globals what was given to the globals kind. -/
theorem globals_eq :
    c'.globals = c.globals ++ if k.name = globalsKind.name then form.entities else [] := by
  cases h <;> simp [Form.entities, projectKind, globalsKind, stackKind, scriptKind, backendKind,
    inputKind, outputKind, assertKind, hclKind, fileKind]

/-- The project settings are there after recording if they were before or this was the project
kind. -/
theorem isSome_project :
    c'.project.isSome = (c.project.isSome || decide (k.name = projectKind.name)) := by
  cases h <;> simp [projectKind, globalsKind, stackKind, scriptKind, backendKind, inputKind,
    outputKind, assertKind, hclKind, fileKind]

/-- A stack is there after recording if it was before or this was the stack kind. -/
theorem isSome_stack :
    c'.stack.isSome = (c.stack.isSome || decide (k.name = stackKind.name)) := by
  cases h <;> simp [projectKind, globalsKind, stackKind, scriptKind, backendKind, inputKind,
    outputKind, assertKind, hclKind, fileKind]

end Config.Records

/-! ## All blocks of a table -/

section RecordAll

variable {options : Options} {c : Config} {t : MergeTable}
  (hok : (c.recordAll options (Registry.builtin.calls t)).2 = [])
include hok

/-- No call of a registry of builtin kinds touches the attributes of the configuration. -/
theorem attributes_recordAll_calls :
    (c.recordAll options (Registry.builtin.calls t)).1.attributes = c.attributes := by
  rw [recordAll_view Config.attributes (fun table _ => table) (fun c c' call h => h.attributes_eq)
    (fun _ => Registry.builtin.of_mem_calls t) hok]
  exact List.foldl_fixed _

/-- Every kept block of a kind with a list has an entry, and there are no other new entries. -/
theorem ranges_recordAll_calls (l : ListedKind) :
    l.ranges (c.recordAll options (Registry.builtin.calls t)).1 =
      l.ranges c ++ (t.unmergedOf l.kind.name).map Block.range := by
  rw [recordAll_list l.ranges
    (fun call => if call.kind.name = l.kind.name then call.form.blocks.map Block.range else [])
    (fun c c' call h => l.ranges_of_records h) (fun _ => Registry.builtin.of_mem_calls t) hok,
    Registry.builtin.flatMap_calls t l.kind_mem fun form => form.blocks.map Block.range]
  rw [BlockKind.calls, if_neg l.policy_ne, List.flatMap_map, List.map_eq_flatMap]
  rfl

/-- The globals after all calls: those before, and the merged blocks of the globals kind. -/
theorem globals_recordAll_calls :
    (c.recordAll options (Registry.builtin.calls t)).1.globals =
      c.globals ++ t.mergedOf globalsKind.name := by
  rw [recordAll_list Config.globals
    (fun call => if call.kind.name = globalsKind.name then call.form.entities else [])
    (fun c c' call h => h.globals_eq) (fun _ => Registry.builtin.of_mem_calls t) hok,
    Registry.builtin.flatMap_calls t globalsKind_mem Form.entities]
  have hpolicy : globalsKind.policy = .mergeByLabel := rfl
  simp [BlockKind.calls, hpolicy, List.flatMap_map, Form.entities]

/-- There are project settings after all calls if there were before or project blocks were
merged. -/
theorem isSome_project_recordAll_calls :
    (c.recordAll options (Registry.builtin.calls t)).1.project.isSome =
      (c.project.isSome || !(t.mergedOf projectKind.name).isEmpty) := by
  rw [recordAll_flag (fun c => c.project.isSome)
    (fun call => call.kind.name = projectKind.name)
    (fun c c' call h => h.isSome_project) (fun _ => Registry.builtin.of_mem_calls t) hok,
    Registry.builtin.any_calls t projectKind_mem]
  have hpolicy : projectKind.policy = .mergeByLabel := rfl
  simp [BlockKind.calls, hpolicy]

/-- There is a stack after all calls if there was one before or a stack block was kept. -/
theorem isSome_stack_recordAll_calls :
    (c.recordAll options (Registry.builtin.calls t)).1.stack.isSome =
      (c.stack.isSome || !(t.unmergedOf stackKind.name).isEmpty) := by
  rw [recordAll_flag (fun c => c.stack.isSome)
    (fun call => call.kind.name = stackKind.name)
    (fun c c' call h => h.isSome_stack) (fun _ => Registry.builtin.of_mem_calls t) hok,
    Registry.builtin.any_calls t stackKind_mem]
  have hpolicy : stackKind.policy ≠ .mergeByLabel := by simp [stackKind]
  simp [BlockKind.calls, hpolicy]

end RecordAll

end ScopeConfig
