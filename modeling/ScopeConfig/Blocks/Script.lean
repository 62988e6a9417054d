import ScopeConfig.Blocks.MapRule

/-!
# Scripts

A script is a named sequence of jobs, each of which runs one command or a list of commands. Scripts
are an experiment.
-/

namespace ScopeConfig.Blocks

open Syntax

/-! ## Jobs -/

/-- The attributes of a job. -/
def jobAttributes : AttributeRules :=
  [("name", .expression), ("description", .expression), ("command", .expression),
   ("commands", .expression)]

/-- Reports a job that has both forms of command, at both of them, or none. -/
def commandFaults (b : Block) : List Diagnostic :=
  match b.attributes.find? "command", b.attributes.find? "commands" with
  | some one, some many =>
    [.schema .bothCommands one.nameRange, .schema .bothCommands many.nameRange]
  | none, none => [.schema .noCommand b.range]
  | _, _ => []

/-- Everything wrong with a job. -/
def jobFaults (b : Block) : List Diagnostic :=
  noLabels b ++ attributeFaults "script.job" jobAttributes b.attributes ++
    b.blocks.map (unknownBlock "job") ++ commandFaults b

/-- What a job runs, if it has exactly one form of command. -/
def jobCommand? (b : Block) : Option JobCommand :=
  match b.attributes.expr? "command", b.attributes.expr? "commands" with
  | some e, none => some (.one e)
  | none, some e => some (.many e)
  | _, _ => none

/-- The job that a block declares. -/
def job? (b : Block) : Option ScriptJob :=
  (jobCommand? b).map fun command =>
    { name := b.attributes.expr? "name"
      description := b.attributes.expr? "description"
      command
      range := b.range }

/-! ## Whole scripts -/

/-- The attributes of a script. -/
def scriptAttributes : AttributeRules :=
  [("name", .expression), ("description", .expression)]

/-- Whether a block is a job. -/
def isJob (b : Block) : Bool :=
  b.blockType = "job"

/-- What speaks against an inner block of a script that is no `lets`. -/
def scriptChild (b : Block) : List Diagnostic :=
  if isJob b then jobFaults b else [unknownBlock "script" b]

/-- The merged `lets` of a script, and what is wrong with its inner blocks. -/
def scriptChildren (b : Block) : List MergedBlock × List Diagnostic :=
  withLets scriptChild [] b.blocks

/-- Everything wrong with a script. -/
def scriptFaults (b : Block) : List Diagnostic :=
  (if b.labels.isEmpty then [.schema .scriptLabel b.typeRange] else []) ++
    attributeFaults "script" scriptAttributes b.attributes ++ (scriptChildren b).2 ++
    (if b.blocks.any isJob then [] else [.schema .scriptJob b.braceRange]) ++
    letsFaults (scriptChildren b).1

/-- The script that a block declares. -/
def scriptOf (b : Block) : Script where
  labels := b.labelTexts
  name := b.attributes.expr? "name"
  description := b.attributes.expr? "description"
  jobs := (b.blocks.filter isJob).filterMap job?
  lets := (scriptChildren b).1.getLast?
  range := b.range

/-- The kind of the `script` blocks. -/
def scriptKind : BlockKind where
  name := "script"
  policy := .uniqueByLabel
  importAllowed := true
  read options c
    | .raw b =>
      match gate options c scriptsExperiment "script" b.header with
      | [] => acceptIf (scriptFaults b) c { c with scripts := c.scripts ++ [scriptOf b] }
      | faults => (c, .error faults)
    | .merged _ => (c, .ok ())
  check _ _ := .ok ()

end ScopeConfig.Blocks
