import ScopeConfig.Scope.Registry

/-!
# Assembling a configuration

From the files that make up a scope to its configuration: the top-level attributes and blocks of all
files are merged, then every kind of the registry, in order, records its blocks, then every kind
checks the whole. Each stage goes on after errors, so that all of them are reported, and the next
block is recorded in the configuration that the one before it leaves, refused or not.
-/

namespace ScopeConfig

open Syntax

/-! ## Merging files -/

namespace MergeTable

/-- Merges the attributes of a file and all its blocks but those that import files. -/
def mergeFile (t : MergeTable) (f : SourceFile) : MergeTable × List Diagnostic :=
  t.mergeBody { f.body with blocks := f.body.blocks.filter (!isImport ·) }

/-- Merges files, one after the other. -/
def mergeFiles (t : MergeTable) : List SourceFile → MergeTable × List Diagnostic
  | [] => (t, [])
  | f :: files =>
    let (t, faults) := t.mergeFile f
    let (t, more) := t.mergeFiles files
    (t, faults ++ more)

end MergeTable

/-! ## Recording blocks -/

/-- A block given to the kind that records it. -/
structure Call where
  kind : BlockKind
  form : Form

/-- The blocks of a table that are given to a kind, in the form that its policy calls for. -/
def BlockKind.calls (k : BlockKind) (t : MergeTable) : List Call :=
  if k.policy = .mergeByLabel then (t.mergedOf k.name).map fun m => ⟨k, .merged m⟩
  else (t.unmergedOf k.name).map fun b => ⟨k, .raw b⟩

/-- Every block of a table that has a kind, in the order of the kinds. -/
def Registry.calls (r : Registry) (t : MergeTable) : List Call :=
  r.kinds.flatMap (·.calls t)

/-- Records blocks, one after the other. -/
def Config.recordAll (options : Options) (c : Config) : List Call → Config × List Diagnostic
  | [] => (c, [])
  | ⟨kind, form⟩ :: calls =>
    let (c, result) := kind.read options c form
    let (c, more) := c.recordAll options calls
    (c, Diagnostic.ofResult result ++ more)

/-- What the kinds find wrong with a configuration as a whole. -/
def Registry.check (r : Registry) (options : Options) (c : Config) : List Diagnostic :=
  r.kinds.flatMap fun k => Diagnostic.ofResult (k.check options c)

/-! ## The whole -/

/-- What files declare together: the merged table, the configuration that recording all blocks ends
in, and all errors in the order in which they were found. -/
structure Assembly where
  table : MergeTable
  config : Config
  errors : List Diagnostic

/-- Assembles the configuration of a directory from files. -/
def Registry.assemble (r : Registry) (options : Options) (dir : Path) (files : List SourceFile) :
    Assembly :=
  let (table, mergeFaults) := (MergeTable.new r.policies).mergeFiles files
  let (config, blockFaults) :=
    { Config.new dir with attributes := table.attributes }.recordAll options (r.calls table)
  ⟨table, config, mergeFaults ++ blockFaults ++ r.check options config⟩

end ScopeConfig
