import ScopeConfig.Config.NameSet
import ScopeConfig.Merge.Entity

/-!
# The configuration of a scope

What a scope declares once every rule was checked. Expressions that depend on a context are kept as
they were written.
-/

namespace ScopeConfig

open Syntax

/-- Settings for version control. -/
structure GitSettings where
  defaultBranch : Option String
  defaultRemote : Option String
  checkUntracked : Option Bool
  checkUncommitted : Option Bool
  checkRemote : Option Bool
deriving DecidableEq, Repr

/-- Settings for running commands; the environment is kept unevaluated. -/
structure RunSettings where
  checkGeneratedCode : Option Bool
  env : List (String × Expr)
deriving DecidableEq, Repr

/-- The settings under `terramate.config`. -/
structure RootSettings where
  experiments : List String
  git : Option GitSettings
  run : Option RunSettings
deriving DecidableEq, Repr

/-- The settings of the project, from its `terramate` blocks. -/
structure ProjectSettings where
  requiredVersion : Option String
  allowPrereleases : Bool
  config : Option RootSettings
deriving DecidableEq, Repr

/-- The stack that a directory is. -/
structure Stack where
  id : Option String
  name : Option String
  description : Option String
  tags : NameSet
  after : NameSet
  before : NameSet
  wants : NameSet
  wantedBy : NameSet
  watch : NameSet
  range : SourceRange
deriving DecidableEq, Repr

/-- What a job runs. -/
inductive JobCommand where
  | one (command : Expr)
  | many (commands : Expr)
deriving DecidableEq, Repr

/-- One job of a script. -/
structure ScriptJob where
  name : Option Expr
  description : Option Expr
  command : JobCommand
  range : SourceRange
deriving DecidableEq, Repr

/-- A script: its jobs in order and its merged `lets`. -/
structure Script where
  labels : List String
  name : Option Expr
  description : Option Expr
  jobs : List ScriptJob
  lets : Option MergedBlock
  range : SourceRange

/-- A value taken from another stack. -/
structure Input where
  name : String
  backend : Expr
  value : Expr
  fromStackId : Expr
  sensitive : Option Expr
  mock : Option Expr
  range : SourceRange
deriving DecidableEq, Repr

/-- A value given to other stacks. -/
structure Output where
  name : String
  backend : Expr
  value : Expr
  description : Option Expr
  sensitive : Option Expr
  range : SourceRange
deriving DecidableEq, Repr

/-- The ways to share values. -/
inductive BackendType where
  | terraform
deriving DecidableEq, Repr

/-- The word for a way to share values. -/
def BackendType.keyword : BackendType → String
  | terraform => "terraform"

/-- How values are shared. -/
structure SharingBackend where
  name : String
  backendType : BackendType
  filename : String
  command : List String
  range : SourceRange
deriving DecidableEq, Repr

/-- A condition that has to hold. -/
structure Assertion where
  assertion : Expr
  message : Expr
  warning : Option Expr
  range : SourceRange
deriving DecidableEq, Repr

/-- A generated configuration file, whose content is a block kept as written. -/
structure GeneratedHcl where
  label : String
  condition : Option Expr
  lets : Option MergedBlock
  content : Block
  range : SourceRange

/-- A generated file of any sort. -/
structure GeneratedFile where
  label : String
  condition : Option Expr
  content : Expr
  range : SourceRange
deriving DecidableEq, Repr

/-- The configuration of one scope. -/
structure Config where
  dir : Path
  attributes : AttributeTable
  project : Option ProjectSettings
  stack : Option Stack
  globals : List MergedBlock
  scripts : List Script
  inputs : List Input
  outputs : List Output
  sharingBackends : List SharingBackend
  asserts : List Assertion
  generatedHcls : List GeneratedHcl
  generatedFiles : List GeneratedFile

namespace Config

/-- The configuration of a directory that declares nothing. -/
def new (dir : Path) : Config where
  dir := dir
  attributes := .empty
  project := none
  stack := none
  globals := []
  scripts := []
  inputs := []
  outputs := []
  sharingBackends := []
  asserts := []
  generatedHcls := []
  generatedFiles := []

/-- The experiments that the scope declares itself. -/
def declaredExperiments (c : Config) : List String :=
  match c.project with
  | some ⟨_, _, some settings⟩ => settings.experiments
  | _ => []

/-- The merged globals with exactly these labels. -/
def globalsWith? (c : Config) (labels : List String) : Option MergedBlock :=
  c.globals.find? (·.labels = labels)

/-- The script with exactly these labels. -/
def script? (c : Config) (labels : List String) : Option Script :=
  c.scripts.find? (·.labels = labels)

/-- Whether an experiment is enabled, by the options or by the scope itself. -/
def hasExperiment (c : Config) (options : Options) (name : String) : Bool :=
  options.experiments.has name || c.declaredExperiments.contains name

end Config

end ScopeConfig
