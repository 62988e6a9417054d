import ScopeConfig.Project.Provider

/-!
# Directory trees

A snapshot of files and directories as they are on a disk: files by their paths from the root, and
directories that are named themselves or lie on the way to something that is. Unlike a project in
memory it tells a directory from nothing at all, and a file may hold bytes that are no text, so
reading can fail in every way in which it does on a disk.
-/

namespace ScopeConfig

/-- What is at a path: a file with its text, if it holds text, or a directory. -/
inductive DiskEntry where
  | file (text : Option String)
  | directory
deriving DecidableEq, Repr

/-- A tree of files and directories, by rooted paths in normal form. Of two entries with one path
the first counts. -/
structure Disk where
  entries : List (Path × DiskEntry)

/-- The path and every path on the way to it, from the root on. -/
def Path.beginnings (p : Path) : List Path :=
  (List.range (p.steps.length + 1)).map fun n => { p with steps := p.steps.take n }

namespace Disk

/-! ## Looking at one path -/

/-- What is at a path, if anything is. -/
def entry? (d : Disk) (p : Path) : Option DiskEntry :=
  match d.entries.find? (·.1 = p) with
  | some (_, entry) => some entry
  | none =>
    if p = .root || d.entries.any (fun (q, _) => q.startsWith p) then some .directory else none

/-- Whether anything is at a path. -/
def has (d : Disk) (p : Path) : Bool :=
  (d.entry? p).isSome

/-- Whether a file is at a path. -/
def isFile (d : Disk) (p : Path) : Bool :=
  match d.entry? p with
  | some (.file _) => true
  | _ => false

/-- Whether a directory is at a path. -/
def isDirectory (d : Disk) (p : Path) : Bool :=
  d.entry? p = some .directory

/-- Why nothing is at a path: something on the way is a file, or is missing. -/
def absence (d : Disk) (p : Path) : FileFault :=
  if p.beginnings.any d.isFile then .notDirectory else .missing

/-- The text of the file at a path. -/
def read (d : Disk) (p : Path) : Except FileFault String :=
  match d.entry? p with
  | some (.file (some text)) => .ok text
  | some (.file none) => .error .notText
  | some .directory => .error .isDirectory
  | none => .error (d.absence p)

/-- What can be read is among the entries of the disk. -/
theorem mem_entries_of_read {d : Disk} {p : Path} {s : String} (h : d.read p = .ok s) :
    p ∈ d.entries.map (·.1) := by
  unfold read entry? at h
  cases hf : d.entries.find? (·.1 = p) with
  | none =>
    simp only [hf] at h
    split at h <;> simp_all
  | some entry =>
    have hp : entry.1 = p := by simpa using List.find?_some hf
    exact List.mem_map.2 ⟨entry, List.mem_of_find?_eq_some hf, hp⟩

/-! ## Looking into directories -/

/-- Everything below a path, at any depth. -/
def below (d : Disk) (p : Path) : List Path :=
  ((d.entries.filter fun (q, _) => q.startsWith p).flatMap fun (q, _) =>
    q.beginnings.drop (p.steps.length + 1)).eraseDups

/-- What a directory holds itself. -/
def children (d : Disk) (p : Path) : List Path :=
  (d.below p).filter fun q => q.steps.length = p.steps.length + 1

/-- The configuration files in a directory, in path order. -/
def list (d : Disk) (p : Path) : Except FileFault (List Path) :=
  match d.entry? p with
  | some .directory =>
    .ok (((d.children p).filter fun q => d.isFile q && q.isConfigFile).mergeSort Path.le)
  | some (.file _) => .error .notDirectory
  | none => .error (d.absence p)

/-! ## Resolving paths as they are spelled -/

/-- The number of bytes that the name of one entry can have. -/
def longestName : Nat := 255

/-- The number of bytes that a spelled path can have. -/
def longestPath : Nat := 4095

/-- The path of the entry `s` of the directory `p`, if there is one. A name or a path beyond the
limits is refused before anything is looked up. -/
def step (d : Disk) (p : Path) (s : String) : Except FileFault Path :=
  if s.utf8ByteSize > longestName || (p.child s).text.utf8ByteSize > longestPath then
    .error .nameTooLong
  else if d.has (p.child s) then .ok (p.child s)
  else .error .missing

/-- Follows the parts of a spelled path from a place. Every part but the last leads on from a
directory, and so does an empty part or a `.` at the end. -/
def follow (d : Disk) (p : Path) : List (List Char) → Except FileFault Path
  | [] => .ok p
  | part :: parts =>
    match d.entry? p with
    | none => .error .missing
    | some (.file _) => .error .notDirectory
    | some .directory =>
      match Step.ofPart part with
      | none | some .here => d.follow p parts
      | some .up => d.follow p.pop parts
      | some (.name s) =>
        match d.step p s with
        | .ok next => d.follow next parts
        | .error fault => .error fault

/-- The path that a text names when it is seen from the directory `base`, if something is there. The
text may be of any length, as it is followed part by part. -/
def resolve (d : Disk) (base : Path) (text : String) : Except FileFault Path :=
  let start := if text.toList.head? = some '/' then .root else base
  if text.isEmpty then .error .missing else d.follow start (Text.splitAt '/' text.toList)

/-- The text of the file that a text names when it is seen from the directory `base`. -/
def readSpelled (d : Disk) (base : Path) (text : String) : Except FileFault String :=
  if text.utf8ByteSize > longestPath then .error .nameTooLong
  else (d.resolve base text).bind d.read

end Disk

end ScopeConfig
