import ScopeConfig.Glob.Pattern
import ScopeConfig.Path.Basic

/-!
# Where files come from

A provider answers every question about files that loading a scope asks. The paths it is asked
about are in normal form. It can read finitely many files: `readable` holds the paths of all of
them, which is what bounds the expansion of imports. A question that has no answer has a fault in
its place, with the words that the operating system has for it.

Which entries of a directory are configuration files is told by their name alone.
-/

namespace ScopeConfig

/-! ## What can go wrong with a file -/

/-- Why a question about files has no answer. -/
inductive FileFault where
  | notStored (path : Path)
  | missing
  | notDirectory
  | isDirectory
  | nameTooLong
  | notText
  | pattern (e : Glob.PatternError)
deriving DecidableEq, Repr

/-- The words for a fault. -/
def FileFault.message : FileFault → String
  | notStored path => s!"file not found in memory: {path.text}"
  | missing => "No such file or directory (os error 2)"
  | notDirectory => "Not a directory (os error 20)"
  | isDirectory => "Is a directory (os error 21)"
  | nameTooLong => "File name too long (os error 36)"
  | notText => "stream did not contain valid UTF-8"
  | pattern e => e.message

/-! ## Providers -/

/-- A source of files. -/
structure Provider where
  /-- The text of a file. -/
  read : Path → Except FileFault String
  /-- Whether a path names a file. -/
  isFile : Path → Bool
  /-- The configuration files in a directory, in path order. -/
  list : Path → Except FileFault (List Path)
  /-- The files that a pattern matches. -/
  glob : Glob.Pattern → Except FileFault (List Path)
  /-- The paths of all files that can be read. -/
  readable : List Path
  /-- Nothing else can be read. -/
  mem_readable : ∀ {p : Path} {s : String}, read p = .ok s → p ∈ readable

/-! ## Configuration files by name -/

/-- The endings of the names of configuration files. -/
def configEndings : List String := [".tm", ".tm.hcl"]

/-- Whether a name is that of a configuration file: it has one of the endings and is not hidden. -/
def isConfigName (name : String) : Bool :=
  !".".toList.isPrefixOf name.toList &&
    configEndings.any fun ending => ending.toList.isSuffixOf name.toList

/-- Whether the last step of a path is the name of a configuration file. -/
def Path.isConfigFile (p : Path) : Bool :=
  p.fileName?.any isConfigName

end ScopeConfig
