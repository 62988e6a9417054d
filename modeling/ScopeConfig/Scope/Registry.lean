import ScopeConfig.Blocks.Assertion
import ScopeConfig.Blocks.Generation
import ScopeConfig.Blocks.MapRule
import ScopeConfig.Blocks.OutputsSharing
import ScopeConfig.Blocks.ProjectSettings
import ScopeConfig.Blocks.Script
import ScopeConfig.Blocks.Stack
import ScopeConfig.Import.Edge
import ScopeConfig.Merge.Table

/-!
# Registries of block kinds

The kinds of blocks that a scope may have, in the order in which their blocks are recorded. No two
kinds of a registry have one name, and none takes the name of the blocks that import files, which
are followed before any kind is asked.
-/

namespace ScopeConfig

/-! ## Names that can be registered together -/

/-- Why kinds cannot be registered together. -/
inductive RegistryFault where
  | reserved
  | duplicate (name : String)
deriving DecidableEq, Repr

/-- The words for a fault. -/
def RegistryFault.message : RegistryFault → String
  | reserved => s!"block type {Text.quote importType} is reserved"
  | duplicate name => s!"duplicate block parser {Text.quote name}"

namespace Registry

/-- The first fault of a list of names when the names in `taken` are registered already. -/
def nameFault? (taken : List String) : List String → Option RegistryFault
  | [] => none
  | name :: names =>
    if name = importType then some .reserved
    else if name ∈ taken then some (.duplicate name)
    else nameFault? (name :: taken) names

/-- There is no fault of names exactly if they are distinct, none is the type of imports and none is
taken. -/
theorem nameFault?_eq_none_iff {taken names : List String} :
    nameFault? taken names = none ↔
      names.Nodup ∧ importType ∉ names ∧ ∀ name ∈ names, name ∉ taken := by
  induction names generalizing taken with
  | nil => simp [nameFault?]
  | cons name names ih =>
    simp only [nameFault?]
    split
    · simp_all
    · split
      · simp_all
      · simp only [ih, List.nodup_cons, List.mem_cons, not_or]
        grind

end Registry

/-- The kinds of blocks, in order. -/
structure Registry where
  kinds : List BlockKind
  nodup : (kinds.map BlockKind.name).Nodup
  not_reserved : importType ∉ kinds.map BlockKind.name

namespace Registry

/-- The registry of these kinds, unless their names do not go together. -/
def ofKinds (kinds : List BlockKind) : Except RegistryFault Registry :=
  match h : nameFault? [] (kinds.map BlockKind.name) with
  | some fault => .error fault
  | none => .ok ⟨kinds, (nameFault?_eq_none_iff.1 h).1, (nameFault?_eq_none_iff.1 h).2.1⟩

/-- The kinds that there are without any registration. The project settings come first, so that the
experiments they declare are known to every kind that needs one. -/
def builtinKinds : List BlockKind :=
  [Blocks.projectKind, Blocks.globalsKind, Blocks.stackKind, Blocks.scriptKind,
    Blocks.backendKind, Blocks.inputKind, Blocks.outputKind, Blocks.assertKind,
    Blocks.hclKind, Blocks.fileKind]

/-- The registry of the kinds that there are without any registration. -/
def builtin : Registry where
  kinds := builtinKinds
  nodup := by decide
  not_reserved := by decide

/-- The kind of this name. -/
def get? (r : Registry) (name : String) : Option BlockKind :=
  r.kinds.find? (·.name = name)

/-- The policy of each kind. -/
def policies (r : Registry) : List (String × MergePolicy) :=
  r.kinds.map fun k => (k.name, k.policy)

/-- The types of blocks that imported files may not have. -/
def refusedImports (r : Registry) : List String :=
  (r.kinds.filter (!·.importAllowed)).map BlockKind.name

end Registry

end ScopeConfig
