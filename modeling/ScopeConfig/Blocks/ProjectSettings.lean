import ScopeConfig.Blocks.Attributes
import ScopeConfig.Blocks.Kind
import ScopeConfig.Blocks.Structure

/-!
# Settings of the project

The `terramate` blocks of a scope, merged into one, with its `config` and in that `git`, `run` and
`env`. No part takes labels, and the parts may stand in any number of blocks and files.
-/

namespace ScopeConfig.Blocks

/-! ## Version control -/

/-- The attributes of `git`. -/
def gitAttributes : AttributeRules :=
  [("default_branch", .text), ("default_remote", .text), ("check_untracked", .bool),
   ("check_uncommitted", .bool), ("check_remote", .bool)]

/-- Everything wrong with `git`. -/
def gitFaults (m : MergedBlock) : List Diagnostic :=
  mergedNoLabels m ++ attributeFaults "terramate.config.git" gitAttributes m.attributes ++
    unknownChildren [] m

/-- The settings that `git` makes. -/
def gitSettings (m : MergedBlock) : GitSettings where
  defaultBranch := read? textOf m.attributes "default_branch"
  defaultRemote := read? textOf m.attributes "default_remote"
  checkUntracked := read? boolOf m.attributes "check_untracked"
  checkUncommitted := read? boolOf m.attributes "check_uncommitted"
  checkRemote := read? boolOf m.attributes "check_remote"

/-! ## Running commands -/

/-- The attributes of `run`. -/
def runAttributes : AttributeRules :=
  [("check_gen_code", .bool)]

/-- Everything wrong with `env`. -/
def envFaults (m : MergedBlock) : List Diagnostic :=
  mergedNoLabels m ++ unknownChildren [] m

/-- Everything wrong with `run`. -/
def runFaults (m : MergedBlock) : List Diagnostic :=
  mergedNoLabels m ++ attributeFaults "terramate.config.run" runAttributes m.attributes ++
    unknownChildren ["env"] m ++ (m.childrenOf "env").flatMap envFaults

/-- The variables that `env` sets. -/
def envVariables (m : MergedBlock) : List (String × Syntax.Expr) :=
  m.attributes.entries.map fun a => (a.name, a.expr)

/-- The settings that `run` makes. -/
def runSettings (m : MergedBlock) : RunSettings where
  checkGeneratedCode := read? boolOf m.attributes "check_gen_code"
  env := ((m.childrenOf "env").getLast?.map envVariables).getD []

/-! ## The root settings -/

/-- The attributes of `config`. -/
def rootAttributes : AttributeRules :=
  [("experiments", .experiments)]

/-- Everything wrong with `config`. -/
def rootFaults (m : MergedBlock) : List Diagnostic :=
  mergedNoLabels m ++ attributeFaults "terramate.config" rootAttributes m.attributes ++
    unknownChildren ["git", "run"] m ++ (m.childrenOf "git").flatMap gitFaults ++
    (m.childrenOf "run").flatMap runFaults

/-- The settings that `config` makes. -/
def rootSettings (m : MergedBlock) : RootSettings where
  experiments := (read? textListOf m.attributes "experiments").getD []
  git := (m.childrenOf "git").getLast?.map gitSettings
  run := (m.childrenOf "run").getLast?.map runSettings

/-! ## The whole block -/

/-- The attributes of `terramate`. -/
def projectAttributes : AttributeRules :=
  [("required_version", .text), ("required_version_allow_prereleases", .bool)]

/-- Everything wrong with `terramate`. -/
def projectFaults (m : MergedBlock) : List Diagnostic :=
  mergedNoLabels m ++ attributeFaults "terramate" projectAttributes m.attributes ++
    unknownChildren ["config"] m ++ (m.childrenOf "config").flatMap rootFaults

/-- The settings that `terramate` makes. -/
def projectSettings (m : MergedBlock) : ProjectSettings where
  requiredVersion := read? textOf m.attributes "required_version"
  allowPrereleases :=
    (read? boolOf m.attributes "required_version_allow_prereleases").getD false
  config := (m.childrenOf "config").getLast?.map rootSettings

/-- The kind of the `terramate` blocks. -/
def projectKind : BlockKind where
  name := "terramate"
  policy := .mergeByLabel
  importAllowed := true
  read _ c
    | .raw _ => (c, .ok ())
    | .merged m => acceptIf (projectFaults m) c { c with project := some (projectSettings m) }
  check _ _ := .ok ()

end ScopeConfig.Blocks
