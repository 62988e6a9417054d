import ScopeConfig.Diagnostic.Basic
import ScopeConfig.Literal.Evaluation
import ScopeConfig.Project.Provider
import ScopeConfig.Syntax.Entry

/-!
# Import edges

An `import` block names files by its `source`: one path, or a pattern for several. A source that
starts with a slash is looked up from the project root, every other one from the directory of the
importing file. Each path that a block resolves to is either accepted as an edge to that file or
reported with the first reason that speaks against it.
-/

namespace ScopeConfig

open Syntax

/-- The type of the blocks that import files. -/
def importType : String := "import"

/-- Whether a block imports files. -/
def isImport (b : Block) : Bool :=
  b.blockType = importType

/-- An accepted import: the file to load, and where its source is written. -/
structure Edge where
  path : Path
  sourceRange : SourceRange
deriving DecidableEq, Repr

/-- What stays the same while imports are followed: where files come from, the project root, the
types of blocks that imported files may not have, and the files of the scope itself. -/
structure Resolver where
  provider : Provider
  root : Path
  refused : List String
  own : List Path

namespace Import

/-! ## The source of an import block -/

/-- What is wrong with an import block apart from its source. -/
def blockFaults (b : Block) : List Diagnostic :=
  (b.labelsRange?.toList.map fun r => .schema .importLabels r) ++
    (b.attributes.entries.filter (·.name ≠ "source")).map
      (fun a => .schema (.importAttribute a.name) a.nameRange) ++
    b.blocks.map fun inner => .schema (.importBlock inner.blockType) inner.header

/-- The source text of an import block with its range, or what is wrong with its source. -/
def sourceText (b : Block) : Except Diagnostic (String × SourceRange) :=
  match b.attributes.expr? "source" with
  | none => .error (.schema .importSource b.header)
  | some e =>
    match Literal.evaluate e with
    | .ok (.text s) => .ok (s, e.range)
    | .ok value => .error (.schema (.importSourceKind value.kind) e.range)
    | .error fault => .error (.schema (.importSourceLiteral fault) e.range)

/-- The source of a block that is well formed throughout, and everything wrong with the block. -/
def source (b : Block) : Option (String × SourceRange) × List Diagnostic :=
  match sourceText b with
  | .ok found => (if (blockFaults b).isEmpty then some found else none, blockFaults b)
  | .error d => (none, blockFaults b ++ [d])

/-! ## The paths that a source stands for -/

/-- The path that a source without wildcards names. -/
def literalPath (root importerDir : Path) (source : String) : Path :=
  match source.toList with
  | '/' :: rest => (root.join (Path.ofText (String.ofList rest))).normalize
  | _ => (importerDir.join (Path.ofText source)).normalize

/-- Takes one more part of a source. `base` is the directory the pattern starts from and `kept` the
parts that stay in the pattern, last first: a `..` cancels the part before it, and climbs out of the
base when there is none. -/
def takePart (base : Path) (kept : List (List Char)) (part : List Char) :
    Path × List (List Char) :=
  match part with
  | [] | ['.'] => (base, kept)
  | ['.', '.'] =>
    match kept with
    | [] => (base.pop, [])
    | _ :: kept => (base, kept)
  | part => (base, part :: kept)

/-- The directory and the parts of the pattern that a source stands for, seen from `base`. -/
def patternParts (base : Path) (source : String) : Path × List (List Char) :=
  let (base, kept) := (Text.splitAt '/' source.toList).foldl
    (fun (base, kept) part => takePart base kept part) (base, [])
  (base, kept.reverse)

/-- The text of the pattern that a source stands for: the directory taken literally, then the
parts of the source. -/
def patternText (base : Path) (source : String) : String :=
  let (base, parts) := patternParts base source
  let start := (Glob.escape base.text).toList.reverse.dropWhile (· = '/')
  String.ofList (start.reverse ++ '/' :: ['/'].intercalate parts)

end Import

namespace Resolver

open Import

/-- The paths that a source stands for, in path order, or why there are none. -/
def pathsOf (r : Resolver) (importerDir : Path) (source : String) (range : SourceRange) :
    Except Diagnostic (List Path) :=
  if Glob.hasWildcard source then
    let base := if source.toList.head? = some '/' then r.root else importerDir
    match Glob.Pattern.compile (patternText base source) with
    | .error e => .error (.schema (.importPattern source e) range)
    | .ok pattern =>
      match r.provider.glob pattern with
      | .error fault => .error (.importing (.notExpanded source fault) range)
      | .ok [] => .error (.importing (.noMatch source) range)
      | .ok paths => .ok (paths.mergeSort Path.le)
  else
    let path := literalPath r.root importerDir source
    if r.provider.isFile path then .ok [path]
    else .error (.importing (.notFound source) range)

/-! ## Accepting edges -/

/-- The first reason against an import of `path` by the file `importer`. `chain` is the importer
with the files through which it was reached, outermost first, and `accepted` what the importer
imports already. -/
def edgeFault? (r : Resolver) (importer : Path) (chain accepted : List Path) (source : String)
    (path : Path) : Option ImportFault :=
  if !path.startsWith r.root then some (.outsideRoot source)
  else if path = importer then some (.itself path)
  else if path.parent? = importer.parent? then some (.sameDirectory path)
  else if path ∈ chain then some (.cycle (chain ++ [path]))
  else if path ∈ r.own then some (.ownFile path)
  else if path ∈ accepted then some (.twice path)
  else none

/-- Adds the paths of one source to the accepted edges, and reports those that are refused. -/
def acceptPaths (r : Resolver) (importer : Path) (chain : List Path) (source : String)
    (range : SourceRange) (accepted : List Edge) : List Path → List Edge × List Diagnostic
  | [] => (accepted, [])
  | path :: paths =>
    match r.edgeFault? importer chain (accepted.map Edge.path) source path with
    | some fault =>
      let (edges, faults) := r.acceptPaths importer chain source range accepted paths
      (edges, .importing fault range :: faults)
    | none => r.acceptPaths importer chain source range (accepted ++ [⟨path, range⟩]) paths

/-- Adds the edges of one import block to the accepted ones, and reports what is wrong with it. -/
def acceptBlock (r : Resolver) (importer : Path) (chain : List Path) (accepted : List Edge)
    (b : Block) : List Edge × List Diagnostic :=
  match source b with
  | (none, faults) => (accepted, faults)
  | (some (text, range), faults) =>
    match r.pathsOf (importer.parent?.getD .root) text range with
    | .error d => (accepted, faults ++ [d])
    | .ok paths =>
      let (edges, more) := r.acceptPaths importer chain text range accepted paths
      (edges, faults ++ more)

/-- Adds the edges of import blocks, one after the other. -/
def acceptBlocks (r : Resolver) (importer : Path) (chain : List Path) (accepted : List Edge) :
    List Block → List Edge × List Diagnostic
  | [] => (accepted, [])
  | b :: blocks =>
    let (accepted, faults) := r.acceptBlock importer chain accepted b
    let (edges, more) := r.acceptBlocks importer chain accepted blocks
    (edges, faults ++ more)

/-- The accepted edges of a file and everything wrong with its import blocks. `chain` ends with the
file itself. -/
def edges (r : Resolver) (f : SourceFile) (chain : List Path) : List Edge × List Diagnostic :=
  r.acceptBlocks f.path chain [] (f.blocksOf importType)

/-! ## Loading -/

/-- The top-level blocks of an imported file that may not be imported. -/
def refusedBlocks (r : Resolver) (f : SourceFile) (range : SourceRange) : List Diagnostic :=
  (f.body.blocks.filter fun b => b.blockType ∈ r.refused).map fun b =>
    ⟨.refusedImport b.blockType range, some b.header⟩

/-- Loads the file that an edge leads to. -/
def load (r : Resolver) (e : Edge) : Option SourceFile × List Diagnostic :=
  match r.provider.read e.path with
  | .error fault => (none, [.importing (.notRead e.path fault) e.sourceRange])
  | .ok text =>
    match SourceFile.parse e.path text with
    | .error faults => (none, faults)
    | .ok f => (some f, r.refusedBlocks f e.sourceRange)

/-- The target of an edge that loads is a file the provider can read. -/
theorem mem_readable_of_load {r : Resolver} {e : Edge} {f : SourceFile}
    (h : (r.load e).1 = some f) : e.path ∈ r.provider.readable := by
  unfold load at h
  split at h
  · simp at h
  · rename_i hread
    exact r.provider.mem_readable hread

end Resolver

end ScopeConfig
