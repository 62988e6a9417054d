import ScopeConfig.CommandLine.Outcome

/-!
# The program

Takes a snapshot of the files that a command line may ask for, runs the command line on it, and
prints the outcome. A link to a directory is taken for an empty directory.
-/

namespace ScopeConfig

/-- Whether the entry at a path is a link to somewhere else. -/
def isLink (p : Path) : IO Bool := do
  return (← IO.FS.realPath p.text).toString ≠ p.text

/-- Reads the file at a path. -/
def readFile (p : Path) : IO (List (Path × DiskEntry)) := do
  try
    return [(p, .file (String.fromUTF8? (← IO.FS.readBinFile p.text)))]
  catch _ => return []

/-- Reads what is at a path, and everything below it. -/
partial def readTree (p : Path) : IO (List (Path × DiskEntry)) := do
  let names ← try
    let entries ← ((← IO.currentDir) / p.text).readDir
    pure (some (entries.toList.map (·.fileName)))
  catch _ => pure none
  match names with
  | none => readFile p
  | some names =>
    if ← isLink p then return [(p, .directory)]
    let below ← names.mapM fun name => readTree (p.child name)
    return (p, .directory) :: below.flatten

/-- Reads the tree at a path as it is spelled, and any file on the way there. -/
def readSpelled (cwd : Path) (spelled : String) : IO (List (Path × DiskEntry)) := do
  let p := (cwd.join (Path.ofText spelled)).normalize
  let onTheWay ← (p.beginnings.drop 1).dropLast.mapM readFile
  return onTheWay.flatten ++ (← readTree p)

/-- The spelled paths of a command line. -/
def spelledPaths (args : List String) : List String :=
  match Invocation.ofArguments? args with
  | some i => i.root.toList ++ i.dir :: i.settings.toList
  | none => []

end ScopeConfig

open ScopeConfig in
/-- Runs the program. -/
def main (args : List String) : IO UInt32 := do
  let cwd := Path.ofText (← IO.currentDir).toString
  let found ← (spelledPaths args).mapM (readSpelled cwd)
  let outcome := runArguments ⟨(cwd, .directory) :: found.flatten⟩ cwd args
  IO.print outcome.output.text
  IO.eprint outcome.errors.text
  return outcome.code.toUInt32
