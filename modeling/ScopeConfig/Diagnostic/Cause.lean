import ScopeConfig.Literal.Value
import ScopeConfig.Project.Provider
import ScopeConfig.Syntax.Fault
import ScopeConfig.Syntax.Tree

/-!
# Causes of errors

Everything that can be wrong with a configuration, as data, with the kind of error it is and the
words for it. The wording is nowhere else.
-/

namespace ScopeConfig

/-- The stable categories of errors. -/
inductive ErrorKind where
  | malformed
  | schema
  | importing
  | redeclared
  | unexpected
  | io
deriving DecidableEq, Repr

namespace ErrorKind

/-- The kinds in their customary order. -/
def all : List ErrorKind :=
  [malformed, schema, importing, redeclared, unexpected, io]

/-- How a kind is shown in front of a message. -/
def title : ErrorKind → String
  | malformed => "syntax error"
  | schema => "schema error"
  | importing => "import error"
  | redeclared => "redeclaration error"
  | unexpected => "unexpected construct"
  | io => "io error"

/-- The name of a kind in machine-readable output. -/
def code : ErrorKind → String
  | malformed => "syntax"
  | schema => "schema"
  | importing => "import"
  | redeclared => "redeclared"
  | unexpected => "unexpected"
  | io => "io"

/-- The kind of this name. -/
def ofCode? (s : String) : Option ErrorKind :=
  all.find? (·.code = s)

end ErrorKind

/-! ## Violations of the rules for blocks -/

/-- What an attribute's value has to be. -/
inductive Shape where
  | text | bool | textList
deriving DecidableEq, Repr

/-- How messages name a shape. -/
def Shape.phrase : Shape → String
  | text => "a string"
  | bool => "a bool"
  | textList => "a list of strings"

/-- A violation of the rules for blocks and their attributes. -/
inductive SchemaFault where
  | unknownTopBlock (blockType : String)
  | unknownBlock (blockType parent : String)
  | unknownAttribute (owner name : String)
  | missingAttribute (owner name : String)
  | labelsForbidden (blockType : String)
  | oneLabel (blockType : String) (given : Nat)
  | emptyLabel (blockType : String)
  | notLiteral (name : String) (fault : Literal.Fault)
  | wrongShape (name : String) (shape : Shape) (given : Literal.ValueKind)
  | nonTextItem (name : String) (given : Literal.ValueKind)
  | duplicateItem (name item : String)
  | duplicateExperiment (name : String)
  | experimentNeeded (blockType experiment : String)
  | unknownBackend (text : String)
  | emptyFilename
  | contentBlocks (given : Nat)
  | scriptLabel
  | scriptJob
  | bothCommands
  | noCommand
  | mapLabel
  | mapIterator
  | valueLabels
  | manyValueBlocks
  | bothValues
  | noValue
  | importLabels
  | importAttribute (name : String)
  | importBlock (blockType : String)
  | importSource
  | importSourceKind (given : Literal.ValueKind)
  | importSourceLiteral (fault : Literal.Fault)
  | importPattern (source : String) (e : Glob.PatternError)
deriving DecidableEq, Repr

/-- The words for a violation. -/
def SchemaFault.message : SchemaFault → String
  | unknownTopBlock blockType => s!"unrecognized block {Text.quote blockType}"
  | unknownBlock blockType parent =>
    s!"unrecognized block {Text.quote blockType} inside {Text.quote parent}"
  | unknownAttribute owner name => s!"unrecognized attribute \"{owner}.{name}\""
  | missingAttribute owner name => s!"attribute \"{owner}.{name}\" is required"
  | labelsForbidden blockType => s!"{blockType} block must not have labels"
  | oneLabel blockType given => s!"{blockType} block must have exactly one label, {given} given"
  | emptyLabel blockType => s!"{blockType} label can't be empty"
  | notLiteral name fault => s!"attribute {Text.quote name}: {fault.message}"
  | wrongShape name shape given =>
    s!"attribute {Text.quote name} must be {shape.phrase} but {given.label} given"
  | nonTextItem name given =>
    s!"attribute {Text.quote name} must only contain strings but {given.label} found"
  | duplicateItem name item =>
    s!"attribute {Text.quote name} has duplicated entry {Text.quote item}"
  | duplicateExperiment name => s!"duplicated experiment {Text.quote name}"
  | experimentNeeded blockType experiment =>
    s!"unrecognized block {Text.quote blockType} ({blockType} is an experimental feature, " ++
      "it must be enabled before usage with terramate.config.experiments = " ++
      s!"[{Text.quote experiment}])"
  | unknownBackend text => s!"unrecognized sharing backend type: {text}"
  | emptyFilename => "empty \"sharing_backend.filename\""
  | contentBlocks given => s!"generate_hcl must have one \"content\" block, got {given}"
  | scriptLabel => "script block must have at least one label"
  | scriptJob => "script block must have at least one job"
  | bothCommands => "job must set either \"command\" or \"commands\", not both"
  | noCommand => "job must set a \"command\" or \"commands\" attribute"
  | mapLabel => "map block must have exactly one label"
  | mapIterator => "map iterator must be a plain identifier"
  | valueLabels => "value block must not have labels"
  | manyValueBlocks => "map block must have at most one value block"
  | bothValues => "map block must set either a value attribute or a value block, not both"
  | noValue => "map block must set a value attribute or a value block"
  | importLabels => "import block must not have labels"
  | importAttribute name => s!"unrecognized attribute {Text.quote name} in import block"
  | importBlock blockType => s!"unrecognized block {Text.quote blockType} in import block"
  | importSource => "import block must have a \"source\" attribute"
  | importSourceKind given => s!"import source must be a string, got {given.label}"
  | importSourceLiteral fault => s!"import source: {fault.message}"
  | importPattern source e => s!"invalid glob pattern {Text.quote source}: {e.message}"

/-! ## Imports that cannot be followed -/

/-- Why an import is not followed. -/
inductive ImportFault where
  | notFound (source : String)
  | noMatch (source : String)
  | notExpanded (source : String) (fault : FileFault)
  | notRead (path : Path) (fault : FileFault)
  | outsideRoot (source : String)
  | itself (path : Path)
  | sameDirectory (path : Path)
  | ownFile (path : Path)
  | cycle (chain : List Path)
  | twice (path : Path)
  | scopeOutsideRoot (dir root : Path)
deriving DecidableEq, Repr

/-- The words for a refused import. -/
def ImportFault.message : ImportFault → String
  | notFound source => s!"import path {Text.quote source} does not exist"
  | noMatch source => s!"import pattern {Text.quote source} matched no files"
  | notExpanded source fault =>
    s!"cannot expand import pattern {Text.quote source}: {fault.message}"
  | notRead path fault => s!"cannot read imported file {path.text}: {fault.message}"
  | outsideRoot source => s!"import path {Text.quote source} is outside the project root"
  | itself path => s!"file {path.text} imports itself"
  | sameDirectory path =>
    s!"cannot import {path.text} from the same directory as the importing file"
  | ownFile path => s!"cannot import {path.text}: it belongs to the scope being parsed"
  | cycle chain => "import cycle detected: " ++ " → ".intercalate (chain.map Path.text)
  | twice path => s!"file {path.text} is imported more than once"
  | scopeOutsideRoot dir root =>
    s!"directory {dir.text} is outside the project root {root.text}"

/-! ## Second declarations -/

/-- A second declaration of something that may be declared once, with the first. -/
inductive Redeclaration where
  | topAttribute (name : String) (first : SourceRange)
  | attributeOf (name : String) (owner : Syntax.BlockIdentity) (first : SourceRange)
  | block (identity : Syntax.BlockIdentity) (first : SourceRange)
  | named (kind name : String) (first : SourceRange)
deriving DecidableEq, Repr

/-- Where the first declaration is. -/
def Redeclaration.first : Redeclaration → SourceRange
  | topAttribute _ first | attributeOf _ _ first | block _ first | named _ _ first => first

/-- The words for a second declaration. -/
def Redeclaration.message : Redeclaration → String
  | topAttribute name first =>
    s!"attribute {Text.quote name} redeclared (first defined at {first.text})"
  | attributeOf name owner first =>
    s!"attribute {Text.quote name} of {owner.text} redeclared (first defined at {first.text})"
  | block identity first => s!"{identity.text} redeclared (first declared at {first.text})"
  | named kind name first =>
    s!"{kind} {Text.quote name} redeclared (first declared at {first.text})"

/-! ## Files and directories of the scope itself -/

/-- A file or directory of the scope that cannot be read. -/
inductive ReadFault where
  | directory (path : Path) (fault : FileFault)
  | file (path : Path) (fault : FileFault)
deriving DecidableEq, Repr

/-- The words for a file or directory that cannot be read. -/
def ReadFault.message : ReadFault → String
  | directory path fault => s!"cannot list directory {path.text}: {fault.message}"
  | file path fault => s!"cannot read file {path.text}: {fault.message}"

/-! ## All causes -/

/-- The cause of an error. `other` is for callers that report an error of their own. -/
inductive Cause where
  | malformed (fault : Syntax.Fault)
  | schema (fault : SchemaFault)
  | importing (fault : ImportFault)
  | redeclared (again : Redeclaration)
  | refusedImport (blockType : String) (importedAt : SourceRange)
  | io (fault : ReadFault)
  | other (kind : ErrorKind) (message : String)
deriving DecidableEq, Repr

/-- The kind of error that a cause makes. -/
def Cause.kind : Cause → ErrorKind
  | malformed _ => .malformed
  | schema _ => .schema
  | importing _ => .importing
  | redeclared _ => .redeclared
  | refusedImport _ _ => .unexpected
  | io _ => .io
  | other kind _ => kind

/-- The words for a cause. -/
def Cause.message : Cause → String
  | malformed fault => fault.message
  | schema fault => fault.message
  | importing fault => fault.message
  | redeclared again => again.message
  | refusedImport blockType importedAt =>
    s!"block {Text.quote blockType} cannot be imported (imported at {importedAt.text})"
  | io fault => fault.message
  | other _ message => message

end ScopeConfig
