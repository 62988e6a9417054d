import ScopeConfig.Glob.Matching
import ScopeConfig.Project.Provider

/-!
# Projects in memory

A project held in memory: files by the normal form of their paths, in path order. Directories exist
as the beginnings of paths. Every operation takes any spelling of a path; storing a file under a
path that is taken replaces its text.
-/

namespace ScopeConfig

/-- The files of a project, by path and in path order. -/
structure FileTree where
  files : List (Path × String)

namespace FileTree

/-- The project without files. -/
def empty : FileTree := ⟨[]⟩

/-- Stores a text at its place in path order, over the text that was there. -/
def store (p : Path) (text : String) : List (Path × String) → List (Path × String)
  | [] => [(p, text)]
  | (q, old) :: rest =>
    match p.compare q with
    | .lt => (p, text) :: (q, old) :: rest
    | .eq => (p, text) :: rest
    | .gt => (q, old) :: store p text rest

/-- Stores a file. -/
def insert (t : FileTree) (p : Path) (text : String) : FileTree :=
  ⟨store p.normalize text t.files⟩

/-- The project that holds these files; of two with the same path the later stays. -/
def ofList (files : List (Path × String)) : FileTree :=
  files.foldl (fun t (p, text) => t.insert p text) empty

/-- The paths of the files, in order. -/
def paths (t : FileTree) : List Path :=
  t.files.map (·.1)

/-- The text stored under a path in normal form. -/
def lookup (t : FileTree) (p : Path) : Option String :=
  (t.files.find? (·.1 = p)).map (·.2)

/-- What a tree holds is among its paths. -/
theorem mem_paths_of_lookup {t : FileTree} {p : Path} {s : String} (h : t.lookup p = some s) :
    p ∈ t.paths := by
  obtain ⟨entry, hfind, -⟩ := Option.map_eq_some_iff.1 h
  have hp : entry.1 = p := by simpa using List.find?_some hfind
  exact List.mem_map.2 ⟨entry, List.mem_of_find?_eq_some hfind, hp⟩

/-- The text of the file at a path in normal form. -/
def readNormal (t : FileTree) (p : Path) : Except FileFault String :=
  match t.lookup p with
  | some text => .ok text
  | none => .error (.notStored p)

/-- The text of a file. -/
def read (t : FileTree) (p : Path) : Except FileFault String :=
  t.readNormal p.normalize

/-- Whether there is a file at a path. -/
def isFile (t : FileTree) (p : Path) : Bool :=
  (t.lookup p.normalize).isSome

/-- The configuration files in a directory, in path order. -/
def list (t : FileTree) (dir : Path) : List Path :=
  t.paths.filter fun p => p.parent? = some dir.normalize && p.isConfigFile

/-- The files whose whole path a pattern matches, in path order. -/
def glob (t : FileTree) (pattern : Glob.Pattern) : List Path :=
  t.paths.filter fun p => pattern.matches p.text

/-- The project as a source of files. -/
def provider (t : FileTree) : Provider where
  read := t.readNormal
  isFile := t.isFile
  list dir := .ok (t.list dir)
  glob pattern := .ok (t.glob pattern)
  readable := t.paths
  mem_readable {p s} h := by
    unfold readNormal at h
    split at h
    · rename_i hl
      exact mem_paths_of_lookup hl
    · simp at h

end FileTree

end ScopeConfig
