import ScopeConfig.Proofs.Import.Steps
import ScopeConfig.Scope.Session

/-!
# Sessions in counted steps

The only part of a session that is not computed by recursion on its data is to expand imports. With
a number of steps for the expansion of each own file, a session can be computed on given files.

## Main statements

* `effectiveFiles_eq_imports`: the files of a scope are those of the run from its own files.
* `run_eq_runWithin`: a session in counted steps is the session.
-/

namespace ScopeConfig.Session

open Syntax

/-- The resolver that knows the own files of a scope. -/
def importResolver (s : Session) : Resolver :=
  s.resolver s.ownFiles.1

/-- The run that adds imported files to the own files of a scope. -/
def imports (s : Session) : Closure :=
  s.importResolver.closureAll [] s.ownFiles.1

/-- The files of a scope are those of the run from its own files. -/
theorem effectiveFiles_eq_imports (s : Session) :
    s.effectiveFiles = (s.imports.files, s.ownFiles.2 ++ s.imports.errors) := by
  simp only [effectiveFiles, Resolver.expandAll_eq_closureAll]
  rfl

/-- The result of a session, given the files of the scope and the errors up to there. -/
def runOn (s : Session) (files : List SourceFile) (faults : List Diagnostic) :
    Except (List Diagnostic) Config :=
  if s.inside then
    let whole := s.registry.assemble s.options s.dir files
    if (faults ++ whole.errors).isEmpty then .ok whole.config else .error (faults ++ whole.errors)
  else .error [s.outsideFault]

/-- A run is decided by the effective files of its session. -/
theorem run_eq_runOn (s : Session) :
    s.run = s.runOn s.effectiveFiles.1 s.effectiveFiles.2 :=
  rfl

/-- The result of a session with `n` steps for the imports of each own file, if they are enough. -/
def runWithin (s : Session) (n : Nat) : Option (Except (List Diagnostic) Config) :=
  (s.importResolver.expandWithin n [] s.ownFiles.1).map fun all =>
    s.runOn all.files (s.ownFiles.2 ++ all.errors)

/-- The files of a scope in counted steps. -/
theorem effectiveFiles_eq_expandWithin {s : Session} {n : Nat} {all : Expansion}
    (h : s.importResolver.expandWithin n [] s.ownFiles.1 = some all) :
    s.effectiveFiles = (all.files, s.ownFiles.2 ++ all.errors) := by
  rw [← Resolver.expandAll_eq_expandWithin _ h]
  rfl

/-- A session in counted steps is the session. -/
theorem run_eq_runWithin {s : Session} {n : Nat} {x : Except (List Diagnostic) Config}
    (h : s.runWithin n = some x) : s.run = x := by
  obtain ⟨all, hall, rfl⟩ := Option.map_eq_some_iff.1 h
  rw [run_eq_runOn, effectiveFiles_eq_expandWithin hall]

end ScopeConfig.Session
