import ScopeConfig.Proofs.Blocks.Accepted
import ScopeConfig.Proofs.Blocks.MapRule
import ScopeConfig.Proofs.Merge.Fusion
import ScopeConfig.Proofs.Merge.Redeclaration

/-!
# Which scripts are accepted

A script is checked in one pass over its inner blocks, which sends jobs one way and fuses `lets` on
the way, and by two checks afterwards. Here the rule for scripts is said block by block: which jobs
are well formed (`JobForm`), which scripts are (`ScriptForm`), and what a script declares
(`Declares`).

## Main statements

* `withLets_fst`, `withLets_snd_eq_nil_iff`: what the pass makes of the inner blocks.
* `scriptFaults_eq_nil_iff`: a script has no faults when it is well formed.
* `infix_scriptFaults`: the faults of a job are reported together, whatever else is wrong.
* `script_exact`: what reading a script does.
-/

namespace ScopeConfig

open Syntax

namespace Blocks

/-! ## The rule -/

/-- A job as it should be: no labels, no inner blocks, no attributes but four, and one of the two
forms of command. -/
structure JobForm (b : Block) : Prop where
  labels : b.labels = []
  blocks : b.blocks = []
  allowed : ∀ a ∈ b.attributes.entries, a.name ∈ ["name", "description", "command", "commands"]
  command : "command" ∈ b.attributes.names ↔ "commands" ∉ b.attributes.names

/-- The `lets` blocks inside a block, in order. -/
def letsOf (b : Block) : List Block :=
  b.blocks.filter (·.blockType = "lets")

/-- What the `lets` blocks inside a block are together. -/
def mergedLets (b : Block) : MergedBlock :=
  .fuse ⟨"lets", []⟩ (letsOf b)

/-- A script as it should be: labels; no attributes but two; inner blocks that are jobs, at least
one of them and all well formed, or `lets`; these without labels, without an attribute that is
defined twice in one of the things they declare together, at any depth, and under the map rule. -/
structure ScriptForm (b : Block) : Prop where
  labels : b.labels ≠ []
  allowed : ∀ a ∈ b.attributes.entries, a.name ∈ ["name", "description"]
  inner : ∀ c ∈ b.blocks, c.blockType = "job" ∨ c.blockType = "lets"
  some_job : ∃ c ∈ b.blocks, c.blockType = "job"
  jobs : ∀ c ∈ b.blocks, c.blockType = "job" → JobForm c
  lets_labels : ∀ c ∈ letsOf b, c.labels = []
  lets_once : ((occurrencesAll [] (letsOf b)).map Occurrence.key).Nodup
  lets_maps : FreeRule (mergedLets b)

/-- The job that a block declares. -/
structure DeclaresJob (b : Block) (x : ScriptJob) : Prop where
  name : x.name = b.attributes.expr? "name"
  description : x.description = b.attributes.expr? "description"
  command : (∃ e, b.attributes.expr? "command" = some e ∧ x.command = .one e) ∨
    ∃ e, b.attributes.expr? "commands" = some e ∧ x.command = .many e
  range : x.range = b.range

/-- The script that a block declares: its jobs one by one, and its `lets` as one block. -/
structure Declares (b : Block) (x : Script) : Prop where
  labels : x.labels = b.labelTexts
  name : x.name = b.attributes.expr? "name"
  description : x.description = b.attributes.expr? "description"
  jobs : List.Forall₂ DeclaresJob (b.blocks.filter (·.blockType = "job")) x.jobs
  lets : x.lets = if letsOf b = [] then none else some (mergedLets b)
  range : x.range = b.range

/-! ## Parts of the rule -/

/-- A block is free of unwanted labels exactly if it has no labels. -/
theorem noLabels_eq_nil_iff {b : Block} : noLabels b = [] ↔ b.labels = [] := by
  rw [← Block.labelsRange?_eq_none_iff]
  unfold noLabels
  cases b.labelsRange? <;> simp

/-- In a table that demands an expression of each name, a name is found exactly if it is listed. -/
theorem lookup_expression (names : List String) (name : String) :
    (names.map fun n => (n, Demand.expression)).lookup name =
      if name ∈ names then some .expression else none := by
  induction names with
  | nil => rfl
  | cons n names ih =>
    rw [List.map_cons, List.lookup_cons]
    by_cases hn : name = n
    · simp [hn]
    · simp [beq_false_of_ne hn, hn, ih]

/-- Where nothing is demanded of attributes but their names, nothing is wrong with those that have
one of the names. -/
theorem attributeFaults_expressions_eq_nil_iff (owner : String) (names : List String)
    (t : AttributeTable) :
    attributeFaults owner (names.map fun n => (n, Demand.expression)) t = [] ↔
      ∀ a ∈ t.entries, a.name ∈ names := by
  rw [attributeFaults, List.flatMap_eq_nil_iff]
  refine forall₂_congr fun a _ => ?_
  rw [attributeFault, lookup_expression]
  by_cases ha : a.name ∈ names
  · simp [ha, Demand.faults]
  · simp [ha]

/-- The commands of a job are accepted exactly if one of the two attributes is there, and not
both. -/
theorem commandFaults_eq_nil_iff {b : Block} :
    commandFaults b = [] ↔
      ("command" ∈ b.attributes.names ↔ "commands" ∉ b.attributes.names) := by
  unfold commandFaults
  cases hone : b.attributes.find? "command" <;> cases hmany : b.attributes.find? "commands" <;>
    simp [← AttributeTable.has_iff, AttributeTable.has, hone, hmany]

/-- A job is accepted exactly if it has the form of a job. -/
theorem jobFaults_eq_nil_iff {b : Block} : jobFaults b = [] ↔ JobForm b := by
  have hallowed : attributeFaults "script.job" jobAttributes b.attributes = [] ↔
      ∀ a ∈ b.attributes.entries, a.name ∈ ["name", "description", "command", "commands"] :=
    attributeFaults_expressions_eq_nil_iff _ ["name", "description", "command", "commands"] _
  simp only [jobFaults, List.append_eq_nil_iff, noLabels_eq_nil_iff, hallowed, List.map_eq_nil_iff,
    commandFaults_eq_nil_iff]
  constructor
  · rintro ⟨⟨⟨hlabels, hallowed⟩, hblocks⟩, hcommand⟩
    exact ⟨hlabels, hblocks, hallowed, hcommand⟩
  · exact fun h => ⟨⟨⟨h.labels, h.allowed⟩, h.blocks⟩, h.command⟩

/-- Everything that is reported of a job is shown inside the job. -/
theorem inBlock_jobFaults {b : Block} (hb : b.Nested) : ∀ d ∈ jobFaults b, d.InBlock b := by
  intro d hd
  simp only [jobFaults, List.mem_append] at hd
  rcases hd with ((hd | hd) | hd) | hd
  · exact inBlock_noLabels hb.holds d hd
  · exact inBlock_attributeFaults hb.holds _ _ d hd
  · obtain ⟨c, hc, rfl⟩ := List.mem_map.1 hd
    exact inBlock_unknownBlock hb hc _
  · unfold commandFaults at hd
    split at hd
    · rename_i one many hone hmany
      have hname : ∀ {name a}, b.attributes.find? name = some a →
          (Diagnostic.schema .bothCommands a.nameRange).InBlock b := fun ha =>
        Diagnostic.inBlock_schema
          (hb.holds.attributes _ (List.mem_of_find?_eq_some ha)).name _
      rcases List.mem_cons.1 hd with rfl | hd
      · exact hname hone
      · obtain rfl := List.mem_singleton.1 hd
        exact hname hmany
    · obtain rfl := List.mem_singleton.1 hd
      exact Diagnostic.inBlock_schema hb.holds.inside _
    · cases hd

/-- A job with both forms of command is reported at both of them. -/
theorem both_sublist_jobFaults {b : Block} {one many : Attribute}
    (hone : b.attributes.find? "command" = some one)
    (hmany : b.attributes.find? "commands" = some many) :
    [.schema .bothCommands one.nameRange, .schema .bothCommands many.nameRange].Sublist
      (jobFaults b) := by
  have hcommand : commandFaults b =
      [.schema .bothCommands one.nameRange, .schema .bothCommands many.nameRange] := by
    simp [commandFaults, hone, hmany]
  rw [jobFaults, hcommand]
  exact List.sublist_append_right _ _

/-! ## The pass over the inner blocks -/

section WithLets

variable (other : Block → List Diagnostic) (lets : List MergedBlock) (bs : List Block)

/-- The pass fuses the `lets` blocks, and leaves out all others. -/
theorem withLets_fst :
    (withLets other lets bs).1 =
      (MergedBlock.absorbAll lets (bs.filter (·.blockType = "lets"))).1 := by
  induction bs generalizing lets with
  | nil => simp [withLets, MergedBlock.absorbAll]
  | cons b bs ih =>
    by_cases hb : b.blockType = "lets"
    · simp [withLets, hb, ih, MergedBlock.absorbAll]
    · simp [withLets, hb, ih]

/-- The pass finds nothing when nothing is wrong with the other blocks and the `lets` blocks can be
fused without a conflict. -/
theorem withLets_snd_eq_nil_iff :
    (withLets other lets bs).2 = [] ↔ (∀ b ∈ bs, b.blockType ≠ "lets" → other b = []) ∧
      (MergedBlock.absorbAll lets (bs.filter (·.blockType = "lets"))).2 = [] := by
  induction bs generalizing lets with
  | nil => simp [withLets, MergedBlock.absorbAll]
  | cons b bs ih =>
    by_cases hb : b.blockType = "lets"
    · simp [withLets, hb, ih, MergedBlock.absorbAll, and_left_comm]
    · simp [withLets, hb, ih, and_assoc]

/-- What is found in a block stands together in what the pass finds. -/
theorem infix_withLets_snd {b : Block} (hb : b ∈ bs) (hne : b.blockType ≠ "lets") :
    other b <:+: (withLets other lets bs).2 := by
  induction bs generalizing lets with
  | nil => cases hb
  | cons c bs ih =>
    simp only [withLets]
    rcases List.mem_cons.1 hb with rfl | hb
    · rw [if_neg hne]
      exact (List.prefix_append _ _).isInfix
    · exact (ih _ hb).trans (List.suffix_append _ _).isInfix

end WithLets

/-! ## The `lets` of a script -/

/-- Blocks of one identity, if there are any, are fused into one. -/
theorem absorbAll_of_identity {bs : List Block} {i : BlockIdentity}
    (h : ∀ b ∈ bs, b.identity = i) :
    (MergedBlock.absorbAll [] bs).1 = if bs = [] then [] else [.fuse i bs] := by
  by_cases hempty : bs = []
  · rw [if_pos hempty, hempty, MergedBlock.absorbAll]
  · rw [if_neg hempty, MergedBlock.absorbAll_eq_singleton hempty h]

/-- The `lets` of a block, all without labels, merge into one block, or none if there are none. -/
theorem absorbAll_letsOf {b : Block} (hlabels : ∀ c ∈ letsOf b, c.labels = []) :
    (MergedBlock.absorbAll [] (letsOf b)).1 = if letsOf b = [] then [] else [mergedLets b] := by
  refine absorbAll_of_identity fun c hc => ?_
  have htype : c.blockType = "lets" := by simpa using (List.mem_filter.1 hc).2
  rw [Block.identity, Block.labelTexts, hlabels c hc, htype]
  rfl

/-- Nothing is wrong with the fused `lets` of a script when they have no labels and obey the map
rule. -/
theorem letsFaults_eq_nil_iff {b : Block} :
    letsFaults (MergedBlock.absorbAll [] (letsOf b)).1 = [] ↔
      (∀ c ∈ letsOf b, c.labels = []) ∧ FreeRule (mergedLets b) := by
  have hfused : MergedBlock.Fused (MergedBlock.absorbAll [] (letsOf b)).1 (letsOf b) := by
    simpa using MergedBlock.Fused.nil.absorbAll (letsOf b)
  have hlabels : (∀ m ∈ (MergedBlock.absorbAll [] (letsOf b)).1, mergedNoLabels m = []) ↔
      ∀ c ∈ letsOf b, c.labels = [] := by
    simp only [mergedNoLabels, List.flatMap_eq_nil_iff, noLabels_eq_nil_iff]
    constructor
    · intro h c hc
      obtain ⟨m, ⟨hm, hcm⟩, -⟩ := hfused.groups.existsUnique_origin hc
      exact h m hm c hcm
    · intro h m hm c hc
      rw [hfused.groups.origins m hm] at hc
      exact h c (List.mem_filter.1 hc).1
  have hsplit : letsFaults (MergedBlock.absorbAll [] (letsOf b)).1 = [] ↔
      (∀ c ∈ letsOf b, c.labels = []) ∧
        ∀ m ∈ (MergedBlock.absorbAll [] (letsOf b)).1, freeFaults m = [] := by
    rw [letsFaults, List.flatMap_eq_nil_iff, ← hlabels, ← forall₂_and]
    exact forall₂_congr fun m _ => List.append_eq_nil_iff
  rw [hsplit]
  refine and_congr_right fun hnone => ?_
  rw [absorbAll_letsOf hnone] at hfused ⊢
  by_cases hempty : letsOf b = []
  · -- without `lets` there is nothing that could break the map rule
    have hfree : FreeRule (mergedLets b) := by
      rw [mergedLets, hempty]
      exact ⟨by rintro c ⟨⟩, by rintro c ⟨⟩⟩
    simp [hempty, hfree]
  · rw [if_neg hempty] at hfused ⊢
    have hmade := hfused.made (List.mem_singleton_self _)
    simpa using (mapFaults_and_freeFaults_eq_nil_iff _ hmade).2

/-! ## Whole scripts -/

/-- There is a job among the blocks exactly if one of them is of that type. -/
theorem any_isJob_iff {bs : List Block} :
    bs.any isJob = true ↔ ∃ c ∈ bs, c.blockType = "job" := by
  simp [isJob]

/-- Nothing is wrong with the inner blocks that are not `lets` when they are well-formed jobs. -/
theorem scriptChild_eq_nil_iff {c : Block} :
    scriptChild c = [] ↔ c.blockType = "job" ∧ JobForm c := by
  unfold scriptChild isJob
  by_cases hc : c.blockType = "job"
  · simp [hc, jobFaults_eq_nil_iff]
  · simp [hc]

/-- Nothing is wrong with a script exactly if it is well formed. -/
theorem scriptFaults_eq_nil_iff {b : Block} : scriptFaults b = [] ↔ ScriptForm b := by
  -- each part of the check, and what it means that it finds nothing
  have hallowed : attributeFaults "script" scriptAttributes b.attributes = [] ↔
      ∀ a ∈ b.attributes.entries, a.name ∈ ["name", "description"] :=
    attributeFaults_expressions_eq_nil_iff _ ["name", "description"] _
  have hlabels :
      (if b.labels.isEmpty then [Diagnostic.schema .scriptLabel b.typeRange] else []) = []
      ↔ b.labels ≠ [] := by
    cases b.labels <;> simp
  have hjob : (if b.blocks.any isJob then [] else [Diagnostic.schema .scriptJob b.braceRange]) = []
      ↔ ∃ c ∈ b.blocks, c.blockType = "job" := by
    rw [← any_isJob_iff]
    split <;> simp_all
  have hfst : (scriptChildren b).1 = (MergedBlock.absorbAll [] (letsOf b)).1 := withLets_fst ..
  have hsnd : (scriptChildren b).2 = [] ↔
      (∀ c ∈ b.blocks, c.blockType ≠ "lets" → scriptChild c = []) ∧
        (MergedBlock.absorbAll [] (letsOf b)).2 = [] := withLets_snd_eq_nil_iff ..
  simp only [scriptFaults, List.append_eq_nil_iff, hlabels, hallowed, hsnd, hjob, hfst,
    letsFaults_eq_nil_iff, scriptChild_eq_nil_iff, MergedBlock.absorbAll_reports,
    redeclarations_eq_nil_iff]
  constructor
  · rintro ⟨⟨⟨⟨hlabels, hallowed⟩, hchildren, honce⟩, hjob⟩, hnone, hmaps⟩
    refine ⟨hlabels, hallowed, fun c hc => ?_, hjob, fun c hc htype => ?_, hnone, honce, hmaps⟩
    · by_cases htype : c.blockType = "lets"
      · exact .inr htype
      · exact .inl (hchildren c hc htype).1
    · exact (hchildren c hc (by simp [htype])).2
  · intro h
    refine ⟨⟨⟨⟨h.labels, h.allowed⟩, fun c hc hne => ?_, h.lets_once⟩, h.some_job⟩, h.lets_labels,
      h.lets_maps⟩
    have htype := (h.inner c hc).resolve_right hne
    exact ⟨htype, h.jobs c hc htype⟩

/-- The faults of a job stand together among those of the script, whatever else is wrong. -/
theorem infix_scriptFaults {b j : Block} (hj : j ∈ b.blocks) (htype : j.blockType = "job") :
    jobFaults j <:+: scriptFaults b := by
  have hchild : jobFaults j <:+: (scriptChildren b).2 := by
    have hinfix := infix_withLets_snd scriptChild [] b.blocks hj (by simp [htype])
    rwa [scriptChild, isJob, htype, if_pos (decide_eq_true rfl)] at hinfix
  refine hchild.trans ?_
  unfold scriptFaults
  exact ((List.suffix_append _ _).isInfix.trans (List.prefix_append _ _).isInfix).trans
    (List.prefix_append _ _).isInfix

/-! ## What scripts declare -/

/-- A block of the form of a job has its record, which is what the block declares. -/
theorem declaresJob_of_form {j : Block} (h : JobForm j) :
    ∃ x, job? j = some x ∧ DeclaresJob j x := by
  have hcommand := h.command
  rw [← AttributeTable.has_iff, ← AttributeTable.has_iff, AttributeTable.has,
    AttributeTable.has] at hcommand
  unfold job? jobCommand? AttributeTable.expr?
  cases hone : j.attributes.find? "command" with
  | some one =>
    cases hmany : j.attributes.find? "commands" with
    | some many => simp [hone, hmany] at hcommand
    | none =>
      refine ⟨_, rfl, rfl, rfl, .inl ⟨one.expr, ?_, rfl⟩, rfl⟩
      simp [AttributeTable.expr?, hone]
  | none =>
    cases hmany : j.attributes.find? "commands" with
    | some many =>
      refine ⟨_, rfl, rfl, rfl, .inr ⟨many.expr, ?_, rfl⟩, rfl⟩
      simp [AttributeTable.expr?, hmany]
    | none => simp [hone, hmany] at hcommand

/-- Well-formed jobs declare one job each, in order. -/
theorem forall₂_declaresJob {js : List Block} (h : ∀ j ∈ js, JobForm j) :
    List.Forall₂ DeclaresJob js (js.filterMap job?) := by
  induction js with
  | nil => exact .nil
  | cons j js ih =>
    obtain ⟨x, hx, hdeclares⟩ := declaresJob_of_form (h j List.mem_cons_self)
    rw [List.filterMap_cons_some hx]
    exact .cons hdeclares (ih fun i hi => h i (List.mem_cons_of_mem j hi))

/-- A well-formed script declares what it says. -/
theorem declares_scriptOf {b : Block} (h : ScriptForm b) : Declares b (scriptOf b) where
  labels := rfl
  name := rfl
  description := rfl
  jobs := forall₂_declaresJob fun j hj => by
    obtain ⟨hmem, htype⟩ := List.mem_filter.1 hj
    exact h.jobs j hmem (by simpa using htype)
  lets := by
    have hfst : (scriptChildren b).1 = (MergedBlock.absorbAll [] (letsOf b)).1 := withLets_fst ..
    show (scriptChildren b).1.getLast? = _
    rw [hfst, absorbAll_letsOf h.lets_labels]
    split <;> rfl
  range := rfl

/-- When scripts are enabled, reading a script accepts it if nothing is wrong with it. -/
theorem read_scriptKind {options : Options} {c : Config}
    (henabled : c.hasExperiment options scriptsExperiment = true) (b : Block) :
    scriptKind.read options c (.raw b) =
      acceptIf (scriptFaults b) c { c with scripts := c.scripts ++ [scriptOf b] } := by
  simp [scriptKind, gate, henabled]

/-- Scripts are accepted exactly, and no job hides another. Where scripts are enabled, a script that
stands in a text is accepted exactly if it is well formed, and what is recorded then is the script
that it declares: one job for each of its jobs, in order, and its `lets` as one block. When it is
not accepted, every job that is not well formed has reports of its own, which stand together in the
list and are all shown inside the job, whatever else is wrong with the script; a job with both forms
of command is reported at the names of both. -/
theorem script_exact {options : Options} {c : Config} {b : Block} (hb : b.Parsed)
    (henabled : c.hasExperiment options scriptsExperiment = true) :
    ((∃ c', scriptKind.read options c (.raw b) = (c', .ok ())) ↔ ScriptForm b) ∧
      (∀ c', scriptKind.read options c (.raw b) = (c', .ok ()) →
        ∃ x, Declares b x ∧ c' = { c with scripts := c.scripts ++ [x] }) ∧
      ∀ faults, (scriptKind.read options c (.raw b)).2 = .error faults →
        ∀ j ∈ b.blocks, j.blockType = "job" → ¬JobForm j →
          ∃ own, own <:+: faults ∧ own ≠ [] ∧ (∀ d ∈ own, d.InBlock j) ∧
            ∀ one many, j.attributes.find? "command" = some one →
              j.attributes.find? "commands" = some many →
                [.schema .bothCommands one.nameRange,
                  .schema .bothCommands many.nameRange].Sublist own := by
  rw [read_scriptKind henabled]
  refine ⟨?_, fun c' hok => ?_, fun faults herror j hj htype hform => ?_⟩
  · simp only [acceptIf_eq_ok_iff, scriptFaults_eq_nil_iff, exists_and_left, exists_eq', and_true]
  · obtain ⟨hnone, rfl⟩ := acceptIf_eq_ok_iff.1 hok
    exact ⟨scriptOf b, declares_scriptOf (scriptFaults_eq_nil_iff.1 hnone), rfl⟩
  · obtain ⟨-, -, rfl⟩ := acceptIf_eq_error_iff.1 (Prod.ext rfl herror)
    exact ⟨jobFaults j, infix_scriptFaults hj htype, mt jobFaults_eq_nil_iff.1 hform,
      inBlock_jobFaults (hb.nested.inner hj), fun one many => both_sublist_jobFaults⟩

/-- A script without labels, with a job that has both forms of command and one that has neither,
and with `lets` that define a name twice. -/
def brokenScript : String :=
  "script\x7bjob\x7bcommand=1\ncommands=2\x7d\njob\x7bname=3\x7d\n" ++
    "lets\x7ba=4\x7d\nlets\x7ba=5\x7d\n\x7d"

/-- The jobs of the script and its `lets`, as the text is read. -/
theorem jobs_brokenScript :
    (Body.parse "/s/a.tm" brokenScript).toOption.map (fun body => body.blocks.map fun b =>
        b.blocks.map fun j => (j.blockType, j.attributes.names)) =
      some [[("job", ["command", "commands"]), ("job", ["name"]), ("lets", ["a"]),
        ("lets", ["a"])]] := by
  decide +kernel

/-- Both jobs are reported inside themselves. -/
theorem script_exact_brokenScript :
    ∃ b j k faults, b.Parsed ∧ b.blocks.take 2 = [j, k] ∧
      scriptKind.read ⟨.ofList ["scripts"]⟩ (.new .root) (.raw b) =
        (.new .root, .error faults) ∧
      ∀ x ∈ [j, k], ¬JobForm x ∧ ∃ d ∈ faults, d.InBlock x := by
  obtain ⟨body, hparse, hblocks⟩ := Option.map_eq_some_iff.1 jobs_brokenScript
  have hbody : Body.parse "/s/a.tm" brokenScript = .ok body := Glob.toOption_eq_some_iff.1 hparse
  obtain ⟨b, hb, hinner⟩ := List.map_eq_singleton_iff.1 hblocks
  have hparsed : b.Parsed := ⟨_, _, body, hbody, .top (hb ▸ List.mem_singleton_self b)⟩
  obtain ⟨j, rest, hj, hjob, hrest⟩ := List.map_eq_cons_iff.1 hinner
  obtain ⟨k, more, rfl, hkob, -⟩ := List.map_eq_cons_iff.1 hrest
  simp only [Prod.mk.injEq] at hjob hkob
  have hform : ∀ x ∈ [j, k], ¬JobForm x := by
    intro x hx h
    have hcommand := h.command
    rcases List.mem_cons.1 hx with rfl | hx
    · simp [hjob.2] at hcommand
    · obtain rfl := List.mem_singleton.1 hx
      simp [hkob.2] at hcommand
  have htype : ∀ x ∈ [j, k], x.blockType = "job" := by simp [hjob.1, hkob.1]
  have hmem : ∀ x ∈ [j, k], x ∈ b.blocks := by simp [hj]
  have henabled :
      (Config.new .root).hasExperiment ⟨.ofList ["scripts"]⟩ scriptsExperiment = true := by decide
  obtain ⟨-, -, hreported⟩ := script_exact hparsed henabled
  have hscript : ¬ScriptForm b := fun h =>
    hform j (by simp) (h.jobs j (hmem j (by simp)) (htype j (by simp)))
  have hread : scriptKind.read ⟨.ofList ["scripts"]⟩ (.new .root) (.raw b) =
      (.new .root, .error (scriptFaults b)) :=
    (read_scriptKind henabled b).trans
      (acceptIf_eq_error_iff.2 ⟨mt scriptFaults_eq_nil_iff.1 hscript, rfl, rfl⟩)
  refine ⟨b, j, k, scriptFaults b, hparsed, by simp [hj], hread, fun x hx => ⟨hform x hx, ?_⟩⟩
  obtain ⟨own, hinfix, hsome, hinside, -⟩ :=
    hreported _ (congrArg Prod.snd hread) x (hmem x hx) (htype x hx) (hform x hx)
  obtain ⟨d, hd⟩ := List.exists_mem_of_ne_nil own hsome
  exact ⟨d, hinfix.subset hd, hinside d hd⟩

end Blocks

end ScopeConfig
