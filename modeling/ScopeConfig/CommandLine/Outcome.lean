import ScopeConfig.CommandLine.Invocation
import ScopeConfig.Disk.Search
import ScopeConfig.Report.Encoding
import ScopeConfig.Scope.Session
import ScopeConfig.Settings.Toml

/-!
# Outcomes of a command line

What running a command line on a directory tree comes to: an exit code and what is printed on the
two streams. The code is 0 for success, 1 when the directory cannot be loaded, and 2 when the
arguments are malformed.
-/

namespace ScopeConfig

/-! ## What is printed -/

/-- What is printed on a stream. -/
inductive Printout where
  | nothing
  | lines (text : String)
  | pretty (d : Document)
  | compact (d : Document)

/-- The text of a printout. -/
def Printout.text : Printout → String
  | nothing => ""
  | lines text => text ++ "\n"
  | pretty d => d.pretty ++ "\n"
  | compact d => d.compact ++ "\n"

/-- The end of a run: the exit code, and what is printed on the standard and on the error
stream. -/
structure Outcome where
  code : Nat
  output : Printout
  errors : Printout

/-! ## Preparing a session -/

/-- Why a session cannot be started. Paths are as they are spelled. -/
inductive PrepareFault where
  | notResolved (path : String) (fault : FileFault)
  | notRead (path : String) (fault : FileFault)
  | settings (path : String)
deriving DecidableEq, Repr

/-- The words for a fault. -/
def PrepareFault.message : PrepareFault → String
  | notResolved path fault => s!"could not resolve '{path}': {fault.message}"
  | notRead path fault => s!"could not read '{path}': {fault.message}"
  | settings path => s!"invalid settings in '{path}': expected a list of experiments"

/-- The name of the settings file that is looked for at the project root. -/
def settingsName : String := "stackcfg.toml"

namespace Invocation

/-- The directory or file that a spelled path names. -/
def located (disk : Disk) (cwd : Path) (path : String) : Except PrepareFault Path :=
  (disk.resolve cwd path).mapError (.notResolved path)

/-- The options that a settings file gives, whose path messages spell as `spelled`. -/
def settingsOf (spelled : String) (text : Except FileFault String) : Except PrepareFault Options :=
  match text with
  | .error fault => .error (.notRead spelled fault)
  | .ok text =>
    match Settings.ofToml? text with
    | some options => .ok options
    | none => .error (.settings spelled)

/-- The options of an invocation: those of the settings file that it names, or else of the one at
the project root if there is one, with the experiments of the invocation itself. -/
def options (i : Invocation) (disk : Disk) (cwd root : Path) : Except PrepareFault Options := do
  let standard := root.child settingsName
  let fromFile ← match i.settings with
    | some path => settingsOf path (disk.readSpelled cwd path)
    | none =>
      if disk.isFile standard then settingsOf standard.text (disk.read standard)
      else .ok default
  return fromFile.enable i.experiments

/-- The session of an invocation on a disk, when paths are seen from `cwd`. -/
def session (i : Invocation) (disk : Disk) (cwd : Path) : Except PrepareFault Session := do
  let dir ← located disk cwd i.dir
  let root ← match i.root with
    | some root => located disk cwd root
    | none => .ok dir
  let options ← i.options disk cwd root
  return .new .builtin disk.provider options root dir

/-! ## Results -/

/-- The counts of a valid configuration on one line. -/
def summary (c : Config) : String :=
  let always := [s!"{c.globals.length} globals", s!"{c.scripts.length} scripts"]
  let stack := if c.stack.isSome then ["stack"] else []
  let asserts := if c.asserts.isEmpty then [] else [s!"{c.asserts.length} asserts"]
  ", ".intercalate (always ++ stack ++ asserts)

/-- The counts of a valid configuration as a document. -/
def summaryDocument (c : Config) : Document :=
  .record [("asserts", .count c.asserts.length), ("dir", .text c.dir.text),
    ("globals", .count c.globals.length), ("inputs", .count c.inputs.length),
    ("outputs", .count c.outputs.length), ("scripts", .count c.scripts.length),
    ("stack", .flag c.stack.isSome), ("status", .text "ok")]

/-- What is printed for a configuration. -/
def success (i : Invocation) (c : Config) : Printout :=
  match i.verb, i.quiet, i.format with
  | .parse, _, _ => .pretty c.document
  | .check, true, _ => .nothing
  | .check, false, .text => .lines s!"{c.dir.text}: ok ({summary c})"
  | .check, false, .json => .pretty (summaryDocument c)

/-- What is printed for the errors of a directory. -/
def failure (i : Invocation) (dir : Path) (errors : List Diagnostic) : Printout :=
  match i.format, i.quiet with
  | .json, _ => .pretty (Diagnostic.documentOfAll errors)
  | .text, true => .nothing
  | .text, false =>
    .lines s!"{Diagnostic.textOfAll errors}\n{dir.text}: {errors.length} error(s)"

/-- What is printed when no session can be started. -/
def complaint (i : Invocation) (message : String) : Printout :=
  match i.quiet, i.format with
  | true, _ => .nothing
  | false, .text => .lines message
  | false, .json => .compact (.record [("error", .text message)])

/-- Runs an invocation. -/
def run (i : Invocation) (disk : Disk) (cwd : Path) : Outcome :=
  match i.session disk cwd with
  | .error fault => ⟨1, .nothing, i.complaint fault.message⟩
  | .ok session =>
    match session.run with
    | .ok c => ⟨0, i.success c, .nothing⟩
    | .error errors => ⟨1, .nothing, i.failure session.dir errors⟩

end Invocation

/-! ## The whole command line -/

/-- How the program is used. -/
def usage : String :=
  "usage: stackcfg [--output text|json] [--quiet] parse|check DIR " ++
    "[--root DIR] [--experiment NAME]... [--config FILE]"

/-- Runs a command line on a disk, when paths are seen from `cwd`. -/
def runArguments (disk : Disk) (cwd : Path) (args : List String) : Outcome :=
  match Invocation.ofArguments? args with
  | some i => i.run disk cwd
  | none => ⟨2, .nothing, .lines usage⟩

end ScopeConfig
