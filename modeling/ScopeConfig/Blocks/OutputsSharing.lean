import ScopeConfig.Blocks.Attributes
import ScopeConfig.Blocks.Kind
import ScopeConfig.Blocks.Structure

/-!
# Sharing of outputs

Stacks give values to each other: an `output` gives one, an `input` takes one, and a
`sharing_backend` says how they get across. Each has one label, its name, which is unique among
those of its type, and no inner blocks. Sharing is an experiment; a block that is refused for that
reason is not looked at any further.
-/

namespace ScopeConfig.Blocks

open Syntax

/-- What is wrong with the inner blocks and the labels of a named block. -/
def namedFaults (b : Block) : List Diagnostic :=
  b.blocks.map (unknownBlock b.blockType) ++ oneLabel b

/-- Records a block as `record` says, unless its experiment is disabled or something is wrong with
it. -/
def readShared (faults : Block → List Diagnostic) (record : Config → Block → Option Config)
    (options : Options) (c : Config) : Form → Config × Except (List Diagnostic) Unit
  | .merged _ => (c, .ok ())
  | .raw b =>
    match gate options c outputsSharingExperiment b.blockType b.header with
    | [] => acceptIf (faults b) c ((record c b).getD c)
    | refused => (c, .error refused)

/-! ## Backends -/

/-- The attributes of `sharing_backend`. -/
def backendAttributes : AttributeRules :=
  [("type", .backendType), ("filename", .filename), ("command", .textList)]

/-- Everything wrong with a `sharing_backend` block. -/
def backendFaults (b : Block) : List Diagnostic :=
  namedFaults b ++ attributeFaults "sharing_backend" backendAttributes b.attributes ++
    missingFaults "sharing_backend" ["type", "filename", "command"] b.attributes b.range

/-- The way to share that an attribute names. -/
def backendTypeOf (a : Attribute) : Except Diagnostic BackendType :=
  if a.expr.keyword? = some BackendType.terraform.keyword then .ok .terraform
  else .error (.schema (.unknownBackend a.expr.text) a.expr.range)

/-- The backend that a block declares. -/
def backend? (b : Block) : Option SharingBackend := do
  let name ← label? b
  let backendType ← read? backendTypeOf b.attributes "type"
  let filename ← read? textOf b.attributes "filename"
  let command ← read? textListOf b.attributes "command"
  return { name, backendType, filename, command, range := b.range }

/-- The kind of the `sharing_backend` blocks. -/
def backendKind : BlockKind where
  name := "sharing_backend"
  policy := .append
  importAllowed := true
  read := readShared backendFaults fun c b =>
    (backend? b).map fun x => { c with sharingBackends := c.sharingBackends ++ [x] }
  check _ c :=
    Diagnostic.toResult
      (uniqueNames "sharing_backend" (c.sharingBackends.map fun x => (x.name, x.range)))

/-! ## Inputs -/

/-- The attributes of `input`. -/
def inputAttributes : AttributeRules :=
  [("backend", .expression), ("value", .expression), ("from_stack_id", .expression),
   ("sensitive", .expression), ("mock", .expression)]

/-- Everything wrong with an `input` block. -/
def inputFaults (b : Block) : List Diagnostic :=
  namedFaults b ++ attributeFaults "input" inputAttributes b.attributes ++
    missingFaults b.blockType ["backend", "value", "from_stack_id"] b.attributes b.range

/-- The input that a block declares. -/
def input? (b : Block) : Option Input := do
  let name ← label? b
  let backend ← b.attributes.expr? "backend"
  let value ← b.attributes.expr? "value"
  let fromStackId ← b.attributes.expr? "from_stack_id"
  return { name, backend, value, fromStackId
           sensitive := b.attributes.expr? "sensitive"
           mock := b.attributes.expr? "mock"
           range := b.range }

/-- The kind of the `input` blocks. -/
def inputKind : BlockKind where
  name := "input"
  policy := .append
  importAllowed := true
  read := readShared inputFaults fun c b =>
    (input? b).map fun x => { c with inputs := c.inputs ++ [x] }
  check _ c :=
    Diagnostic.toResult (uniqueNames "input" (c.inputs.map fun x => (x.name, x.range)))

/-! ## Outputs -/

/-- The attributes of `output`. -/
def outputAttributes : AttributeRules :=
  [("backend", .expression), ("value", .expression), ("description", .expression),
   ("sensitive", .expression)]

/-- Everything wrong with an `output` block. -/
def outputFaults (b : Block) : List Diagnostic :=
  namedFaults b ++ attributeFaults "output" outputAttributes b.attributes ++
    missingFaults b.blockType ["backend", "value"] b.attributes b.range

/-- The output that a block declares. -/
def output? (b : Block) : Option Output := do
  let name ← label? b
  let backend ← b.attributes.expr? "backend"
  let value ← b.attributes.expr? "value"
  return { name, backend, value
           description := b.attributes.expr? "description"
           sensitive := b.attributes.expr? "sensitive"
           range := b.range }

/-- The kind of the `output` blocks. -/
def outputKind : BlockKind where
  name := "output"
  policy := .append
  importAllowed := true
  read := readShared outputFaults fun c b =>
    (output? b).map fun x => { c with outputs := c.outputs ++ [x] }
  check _ c :=
    Diagnostic.toResult (uniqueNames "output" (c.outputs.map fun x => (x.name, x.range)))

end ScopeConfig.Blocks
