import ScopeConfig.Import.Expansion
import ScopeConfig.Scope.Assembly

/-!
# Sessions

A session loads one directory of a project: it reads the configuration files of the directory, adds
the files that they import, and assembles the configuration from all of them. Its result is the
complete configuration or every error found, never a part of each.
-/

namespace ScopeConfig

open Syntax

/-- What a session works on: the project root and the directory to load, both in normal form. -/
structure Session where
  registry : Registry
  provider : Provider
  options : Options
  root : Path
  dir : Path

namespace Session

/-- The session for any spelling of the root and the directory. -/
def new (registry : Registry) (provider : Provider) (options : Options) (root dir : Path) :
    Session :=
  ⟨registry, provider, options, root.normalize, dir.normalize⟩

/-! ## The files of the scope -/

/-- Reads one configuration file of the directory. -/
def readOwn (s : Session) (path : Path) : Except (List Diagnostic) SourceFile :=
  match s.provider.read path with
  | .error fault => .error [⟨.io (.file path fault), none⟩]
  | .ok text => SourceFile.parse path text

/-- Reads configuration files of the directory; a file that cannot be read or is malformed is left
out. -/
def readAll (s : Session) : List Path → List SourceFile × List Diagnostic
  | [] => ([], [])
  | path :: paths =>
    let (files, more) := s.readAll paths
    match s.readOwn path.normalize with
    | .ok f => (f :: files, more)
    | .error faults => (files, faults ++ more)

/-- The configuration files of the directory that can be read. -/
def ownFiles (s : Session) : List SourceFile × List Diagnostic :=
  match s.provider.list s.dir with
  | .error fault => ([], [⟨.io (.directory s.dir fault), none⟩])
  | .ok paths => s.readAll paths

/-- The resolver for the imports of these files. -/
def resolver (s : Session) (own : List SourceFile) : Resolver :=
  ⟨s.provider, s.root, s.registry.refusedImports, own.map SourceFile.path⟩

/-- The files of the directory, each followed by those that it adds by importing them. -/
def effectiveFiles (s : Session) : List SourceFile × List Diagnostic :=
  let (own, faults) := s.ownFiles
  let all := (s.resolver own).expandAll [] own
  (all.files, faults ++ all.errors)

/-! ## The result -/

/-- The assembly of all files, with all errors from the first stage on. -/
def assembly (s : Session) : Assembly :=
  let (files, faults) := s.effectiveFiles
  let whole := s.registry.assemble s.options s.dir files
  { whole with errors := faults ++ whole.errors }

/-- Whether the directory is in the project. -/
def inside (s : Session) : Bool :=
  s.dir.startsWith s.root

/-- The error for a directory that is not in the project. -/
def outsideFault (s : Session) : Diagnostic :=
  ⟨.importing (.scopeOutsideRoot s.dir s.root), none⟩

/-- The configuration of the directory, or every error. -/
def run (s : Session) : Except (List Diagnostic) Config :=
  if s.inside then
    let whole := s.assembly
    if whole.errors.isEmpty then .ok whole.config else .error whole.errors
  else .error [s.outsideFault]

end Session

end ScopeConfig
