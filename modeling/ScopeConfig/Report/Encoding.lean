import ScopeConfig.Config.Basic
import ScopeConfig.Diagnostic.Basic
import ScopeConfig.Report.Document

/-!
# Documents of configurations and errors

How each record of a configuration, and each error, is written as a JSON document. Tables of
attributes are records with the attributes' names as their fields, in table order.
-/

namespace ScopeConfig

open Syntax

/-! ## Places -/

/-- The document of a place. -/
def Pos.document (p : Pos) : Document :=
  .record
    [("line", .count p.line.toNat), ("column", .count p.column.toNat), ("byte", .count p.byte)]

/-- The document of a range. -/
def SourceRange.document (r : SourceRange) : Document :=
  .record [("file", .text r.file), ("start", r.start.document), ("end", r.stop.document)]

/-! ## Attributes and blocks -/

namespace Syntax

/-- The document of an expression. -/
def Expr.document (e : Expr) : Document :=
  .record [("text", .text e.text), ("range", e.range.document)]

/-- The document of an attribute. -/
def Attribute.document (a : Attribute) : Document :=
  .record [("name", .text a.name), ("expr", a.expr.document),
    ("name_range", a.nameRange.document), ("range", a.range.document)]

/-- The document of a table of attributes. -/
def AttributeTable.document (t : AttributeTable) : Document :=
  .record (t.entries.map fun a => (a.name, a.document))

mutual

/-- The document of a block. -/
def Block.document : Block → Document
  | b@⟨_, _, _, blocks, _, _, _⟩ =>
    .record [("block_type", .text b.blockType), ("labels", .texts b.labelTexts),
      ("attributes", b.attributes.document), ("blocks", .list (Block.documents blocks)),
      ("range", b.range.document)]

/-- The documents of blocks. -/
def Block.documents : List Block → List Document
  | [] => []
  | b :: blocks => b.document :: Block.documents blocks

end

end Syntax

mutual

/-- The document of a merged block; its origins are given by their ranges. -/
def MergedBlock.document : MergedBlock → Document
  | m@⟨_, _, _, children⟩ =>
    .record [("block_type", .text m.blockType), ("labels", .texts m.labels),
      ("attributes", m.attributes.document),
      ("origins", .ofList (fun b => b.range.document) m.origins),
      ("blocks", .list (MergedBlock.documents children))]

/-- The documents of merged blocks. -/
def MergedBlock.documents : List MergedBlock → List Document
  | [] => []
  | m :: merged => m.document :: MergedBlock.documents merged

end

/-! ## Project settings -/

/-- The document of the settings for version control. -/
def GitSettings.document (g : GitSettings) : Document :=
  .record [("default_branch", .orNull .text g.defaultBranch),
    ("default_remote", .orNull .text g.defaultRemote),
    ("check_untracked", .orNull .flag g.checkUntracked),
    ("check_uncommitted", .orNull .flag g.checkUncommitted),
    ("check_remote", .orNull .flag g.checkRemote)]

/-- The document of the settings for running commands. -/
def RunSettings.document (r : RunSettings) : Document :=
  .record [("check_gen_code", .orNull .flag r.checkGeneratedCode),
    ("env", .record (r.env.map fun (name, e) => (name, e.document)))]

/-- The document of the settings under `terramate.config`. -/
def RootSettings.document (s : RootSettings) : Document :=
  .record ([("experiments", .texts s.experiments)] ++
    Document.fieldIfSome "git" GitSettings.document s.git ++
    Document.fieldIfSome "run" RunSettings.document s.run)

/-- The document of the project settings. -/
def ProjectSettings.document (p : ProjectSettings) : Document :=
  .record (Document.fieldIfSome "required_version" .text p.requiredVersion ++
    [("required_version_allow_prereleases", .flag p.allowPrereleases)] ++
    Document.fieldIfSome "config" RootSettings.document p.config)

/-! ## Records of a scope -/

/-- The document of a set of names. -/
def NameSet.document (s : NameSet) : Document :=
  .texts s.names

/-- The document of a stack. -/
def Stack.document (s : Stack) : Document :=
  .record [("id", .orNull .text s.id), ("name", .orNull .text s.name),
    ("description", .orNull .text s.description), ("tags", s.tags.document),
    ("after", s.after.document), ("before", s.before.document), ("wants", s.wants.document),
    ("wanted_by", s.wantedBy.document), ("watch", s.watch.document),
    ("range", s.range.document)]

/-- The field for what a job runs. -/
def JobCommand.field : JobCommand → String × Document
  | one command => ("command", command.document)
  | many commands => ("commands", commands.document)

/-- The document of a job. -/
def ScriptJob.document (j : ScriptJob) : Document :=
  .record [("name", .orNull Expr.document j.name),
    ("description", .orNull Expr.document j.description), j.command.field,
    ("range", j.range.document)]

/-- The document of a script. -/
def Script.document (s : Script) : Document :=
  .record [("labels", .texts s.labels), ("name", .orNull Expr.document s.name),
    ("description", .orNull Expr.document s.description),
    ("jobs", .ofList ScriptJob.document s.jobs), ("lets", .orNull MergedBlock.document s.lets),
    ("range", s.range.document)]

/-- The document of an input. -/
def Input.document (i : Input) : Document :=
  .record [("name", .text i.name), ("backend", i.backend.document), ("value", i.value.document),
    ("from_stack_id", i.fromStackId.document),
    ("sensitive", .orNull Expr.document i.sensitive), ("mock", .orNull Expr.document i.mock),
    ("range", i.range.document)]

/-- The document of an output. -/
def Output.document (o : Output) : Document :=
  .record [("name", .text o.name), ("backend", o.backend.document), ("value", o.value.document),
    ("description", .orNull Expr.document o.description),
    ("sensitive", .orNull Expr.document o.sensitive), ("range", o.range.document)]

/-- The document of a sharing backend. -/
def SharingBackend.document (b : SharingBackend) : Document :=
  .record [("name", .text b.name), ("type", .text b.backendType.keyword),
    ("filename", .text b.filename), ("command", .texts b.command),
    ("range", b.range.document)]

/-- The document of an assertion. -/
def Assertion.document (a : Assertion) : Document :=
  .record [("assertion", a.assertion.document), ("message", a.message.document),
    ("warning", .orNull Expr.document a.warning), ("range", a.range.document)]

/-- The document of a generated configuration file. -/
def GeneratedHcl.document (g : GeneratedHcl) : Document :=
  .record [("label", .text g.label), ("condition", .orNull Expr.document g.condition),
    ("lets", .orNull MergedBlock.document g.lets), ("content", g.content.document),
    ("range", g.range.document)]

/-- The document of a generated file. -/
def GeneratedFile.document (g : GeneratedFile) : Document :=
  .record [("label", .text g.label), ("condition", .orNull Expr.document g.condition),
    ("content", g.content.document), ("range", g.range.document)]

/-- The document of a configuration. -/
def Config.document (c : Config) : Document :=
  .record ([("dir", .text c.dir.text), ("attributes", c.attributes.document)] ++
    Document.fieldIfSome "terramate" ProjectSettings.document c.project ++
    Document.fieldIfSome "stack" Stack.document c.stack ++
    [("globals", .ofList MergedBlock.document c.globals),
      ("scripts", .ofList Script.document c.scripts),
      ("inputs", .ofList Input.document c.inputs),
      ("outputs", .ofList Output.document c.outputs),
      ("sharing_backends", .ofList SharingBackend.document c.sharingBackends),
      ("asserts", .ofList Assertion.document c.asserts),
      ("generate_hcls", .ofList GeneratedHcl.document c.generatedHcls),
      ("generate_files", .ofList GeneratedFile.document c.generatedFiles)])

/-! ## Errors -/

/-- The document of an error. -/
def Diagnostic.document (d : Diagnostic) : Document :=
  .record ([("kind", .text d.kind.code)] ++
    Document.fieldIfSome "range" SourceRange.document d.range ++ [("message", .text d.message)])

/-- The document of a list of errors. -/
def Diagnostic.documentOfAll (ds : List Diagnostic) : Document :=
  .ofList Diagnostic.document ds

end ScopeConfig
