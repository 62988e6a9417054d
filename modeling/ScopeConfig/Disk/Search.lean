import ScopeConfig.Glob.Matching
import ScopeConfig.Disk.Basic

/-!
# Searching a directory tree

A pattern is looked up on a disk component by component: each component, read as a pattern of its
own, is matched against the names in the directories reached so far. A component without wildcards
is looked up directly; a `**` reaches everything below, at any depth. A pattern can therefore be
refused here although the whole of it is well formed, when a class spans a slash, and a file that
several `**` reach in several ways is found once for each.
-/

namespace ScopeConfig

namespace Glob

/-- One component of a pattern. -/
inductive Component where
  | literal (name : String)
  | deep
  | wild (pattern : Pattern)
deriving DecidableEq, Repr

namespace Component

/-- The character that a piece is, if it is a plain one. -/
def plain? : Piece → Option Char
  | .char c => some c
  | _ => none

/-- Reads a component. -/
def compile (source : String) : Except PatternError Component :=
  (Pattern.compile source).map fun pattern =>
    match pattern.pieces.mapM plain? with
    | some name => literal (String.ofList name)
    | none => if pattern.pieces = [.deep] then deep else wild pattern

/-- Whether the component matches the name of an entry. -/
def hasName (c : Component) (p : Path) : Bool :=
  match p.fileName?, c with
  | some name, literal s => name = s
  | some name, wild pattern => pattern.matches name
  | _, _ => false

/-- Whether the pattern starts with a plain dot and matches a name for the same directory or for the
parent. Without such a dot these two are never tried. -/
def matchesDots (pattern : Pattern) (name : String) : Bool :=
  pattern.pieces.head? = some (.char '.') && pattern.matches name

end Component

/-- The components of a pattern. -/
def Pattern.components (p : Pattern) : Except PatternError (List Component) :=
  ((Text.splitAt '/' p.source.toList).filter (· ≠ [])).mapM fun part =>
    Component.compile (String.ofList part)

end Glob

namespace Disk

open Glob

/-- Everything that components lead to from a place. -/
def search (d : Disk) (p : Path) : List Component → List Path
  | [] => [p]
  | .literal name :: rest =>
    if name = "." then if d.isDirectory p then d.search p rest else []
    else if name = ".." then if d.isDirectory p then d.search p.pop rest else []
    else if d.has (p.child name) then d.search (p.child name) rest
    else []
  | .wild pattern :: rest =>
    ((d.children p).filter (Component.wild pattern).hasName).flatMap (d.search · rest) ++
      (if d.isDirectory p && Component.matchesDots pattern "." then d.search p rest else []) ++
      (if d.isDirectory p && Component.matchesDots pattern ".." then d.search p.pop rest else [])
  | [.deep] => (d.below p).filter d.isDirectory
  | .deep :: .deep :: rest => d.search p (.deep :: rest)
  | .deep :: next :: rest => ((d.below p).filter next.hasName).flatMap (d.search · rest)

/-- The files that a pattern matches, in path order. A pattern that ends in a slash matches
directories only. -/
def glob (d : Disk) (pattern : Pattern) : Except FileFault (List Path) :=
  match pattern.components with
  | .error e => .error (.pattern e)
  | .ok components =>
    if pattern.source.toList.getLast? = some '/' then .ok []
    else .ok (((d.search .root components).filter d.isFile).mergeSort Path.le)

/-- The tree as a source of files. -/
def provider (d : Disk) : Provider where
  read := d.read
  isFile := d.isFile
  list := d.list
  glob := d.glob
  readable := d.entries.map (·.1)
  mem_readable := mem_entries_of_read

end Disk

end ScopeConfig
