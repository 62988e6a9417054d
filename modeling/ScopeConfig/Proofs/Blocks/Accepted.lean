import ScopeConfig.Scope.Registry

/-!
# Blocks without faults

When nothing is wrong with a block, what it declares is there: every reader that a kind uses finds
its value, so that a kind that accepts a block also records it.

## Main statements

* `assertion?_of_no_faults` and its likes: a block without faults declares something, at its range.
-/

namespace ScopeConfig.Blocks

open Syntax

/-! ## Labels and attributes -/

/-- A block is recorded when nothing is wrong with it. -/
theorem acceptIf_eq_ok_iff {faults : List Diagnostic} {c next c' : Config} :
    acceptIf faults c next = (c', .ok ()) ↔ faults = [] ∧ next = c' := by
  unfold acceptIf
  cases faults <;> simp

/-- A block is refused when something is wrong with it, and leaves the configuration alone. -/
theorem acceptIf_eq_error_iff {faults found : List Diagnostic} {c next c' : Config} :
    acceptIf faults c next = (c', .error found) ↔ faults ≠ [] ∧ c = c' ∧ faults = found := by
  unfold acceptIf
  cases faults <;> simp

/-- A block that the rule of one label accepts has its label. -/
theorem label?_of_oneLabel {b : Block} (h : oneLabel b = []) : ∃ label, label? b = some label := by
  unfold oneLabel at h
  split at h
  · rename_i label hlabel
    exact ⟨label, hlabel⟩
  · simp at h

/-- A block that the label rule of generated files accepts has its label. -/
theorem label?_of_fileLabelFaults {b : Block} (h : fileLabelFaults b = []) :
    ∃ label, label? b = some label := by
  unfold fileLabelFaults at h
  split at h
  · rename_i label hlabel
    exact ⟨label, hlabel⟩
  · exact label?_of_oneLabel h

/-- A required attribute is there. -/
theorem find?_of_missingFaults {owner : String} {required : List String} {t : AttributeTable}
    {range : SourceRange} (h : missingFaults owner required t range = []) (name : String)
    (hname : name ∈ required) : ∃ a, t.find? name = some a := by
  rw [missingFaults, List.map_eq_nil_iff, List.filter_eq_nil_iff] at h
  have hhas : t.has name = true := by simpa using h name hname
  exact Option.isSome_iff_exists.1 hhas

/-- Where no required attribute is reported as missing, each of them has an expression. -/
theorem expr?_of_missingFaults {owner : String} {required : List String} {t : AttributeTable}
    {range : SourceRange} (h : missingFaults owner required t range = []) (name : String)
    (hname : name ∈ required) : ∃ e, t.expr? name = some e := by
  obtain ⟨a, ha⟩ := find?_of_missingFaults h name hname
  exact ⟨a.expr, by simp [AttributeTable.expr?, ha]⟩

/-- An attribute of a block without faults meets the demand on it. -/
theorem faults_of_attributeFaults {owner name : String} {rules : AttributeRules}
    {t : AttributeTable} {a : Attribute} {demand : Demand} (h : attributeFaults owner rules t = [])
    (ha : t.find? name = some a) (hrule : rules.lookup name = some demand) :
    demand.faults a = [] := by
  have hname : a.name = name := by simpa using List.find?_some ha
  have hfault := List.flatMap_eq_nil_iff.1 h a (List.mem_of_find?_eq_some ha)
  simpa [attributeFault, hname, hrule] using hfault

/-- A value that is read without a fault is there. -/
theorem ok_of_readFaults {α : Type} {outcome : Except Diagnostic α}
    (h : readFaults outcome = []) : ∃ value, outcome = .ok value := by
  cases outcome with
  | ok value => exact ⟨value, rfl⟩
  | error d => simp [readFaults] at h

/-- An attribute that passes as a file name holds a text. -/
theorem textOf_of_filename {a : Attribute} (h : Demand.filename.faults a = []) :
    ∃ s, textOf a = .ok s := by
  cases htext : textOf a with
  | ok s => exact ⟨s, rfl⟩
  | error d => simp [Demand.faults, htext] at h

/-- The only type of a sharing backend that passes is `terraform`. -/
theorem backendTypeOf_of_demand {a : Attribute} (h : Demand.backendType.faults a = []) :
    backendTypeOf a = .ok .terraform := by
  unfold backendTypeOf
  by_cases hkeyword : a.expr.keyword? = some BackendType.terraform.keyword
  · rw [if_pos hkeyword]
  · simp [Demand.faults, hkeyword] at h

/-- What a reader makes of an attribute is found under the name of the attribute. -/
theorem read?_of_ok {α : Type} {reader : Attribute → Except Diagnostic α} {t : AttributeTable}
    {name : String} {a : Attribute} {value : α} (ha : t.find? name = some a)
    (hread : reader a = .ok value) : read? reader t name = some value := by
  simp [read?, ha, hread]

/-! ## What blocks declare -/

/-- An assertion without a fault is recorded, with the range of its block. -/
theorem assertion?_of_no_faults {b : Block} (h : assertFaults b = []) :
    ∃ x, assertion? b = some x ∧ x.range = b.range := by
  simp only [assertFaults, List.append_eq_nil_iff] at h
  obtain ⟨-, hmissing⟩ := h
  obtain ⟨assertion, hassertion⟩ := expr?_of_missingFaults hmissing "assertion" (by simp)
  obtain ⟨message, hmessage⟩ := expr?_of_missingFaults hmissing "message" (by simp)
  simp [assertion?, hassertion, hmessage]

/-- A `generate_hcl` block without a fault is recorded, with the range of its block. -/
theorem generatedHcl?_of_no_faults {b : Block} (h : hclFaults b = []) :
    ∃ x, generatedHcl? b = some x ∧ x.range = b.range := by
  simp only [hclFaults, List.append_eq_nil_iff] at h
  obtain ⟨⟨⟨⟨hlabel, -⟩, -⟩, hcontent⟩, -⟩ := h
  obtain ⟨label, hlabel⟩ := label?_of_fileLabelFaults hlabel
  have hlength : (b.blocks.filter isContent).length = 1 := by
    by_cases hone : (b.blocks.filter isContent).length = 1
    · exact hone
    · simp [contentFaults, hone] at hcontent
  obtain ⟨content, hcontent⟩ := List.length_eq_one_iff.1 hlength
  simp [generatedHcl?, hlabel, hcontent]

theorem generatedFile?_of_no_faults {b : Block} (h : fileFaults b = []) :
    ∃ x, generatedFile? b = some x ∧ x.range = b.range := by
  simp only [fileFaults, List.append_eq_nil_iff] at h
  obtain ⟨⟨⟨hlabel, -⟩, -⟩, hmissing⟩ := h
  obtain ⟨label, hlabel⟩ := label?_of_fileLabelFaults hlabel
  obtain ⟨content, hcontent⟩ := expr?_of_missingFaults hmissing "content" (by simp)
  simp [generatedFile?, hlabel, hcontent]

theorem input?_of_no_faults {b : Block} (h : inputFaults b = []) :
    ∃ x, input? b = some x ∧ x.range = b.range := by
  simp only [inputFaults, namedFaults, List.append_eq_nil_iff] at h
  obtain ⟨⟨⟨-, hlabel⟩, -⟩, hmissing⟩ := h
  obtain ⟨name, hname⟩ := label?_of_oneLabel hlabel
  obtain ⟨backend, hbackend⟩ := expr?_of_missingFaults hmissing "backend" (by simp)
  obtain ⟨value, hvalue⟩ := expr?_of_missingFaults hmissing "value" (by simp)
  obtain ⟨stack, hstack⟩ := expr?_of_missingFaults hmissing "from_stack_id" (by simp)
  simp [input?, hname, hbackend, hvalue, hstack]

theorem output?_of_no_faults {b : Block} (h : outputFaults b = []) :
    ∃ x, output? b = some x ∧ x.range = b.range := by
  simp only [outputFaults, namedFaults, List.append_eq_nil_iff] at h
  obtain ⟨⟨⟨-, hlabel⟩, -⟩, hmissing⟩ := h
  obtain ⟨name, hname⟩ := label?_of_oneLabel hlabel
  obtain ⟨backend, hbackend⟩ := expr?_of_missingFaults hmissing "backend" (by simp)
  obtain ⟨value, hvalue⟩ := expr?_of_missingFaults hmissing "value" (by simp)
  simp [output?, hname, hbackend, hvalue]

theorem backend?_of_no_faults {b : Block} (h : backendFaults b = []) :
    ∃ x, backend? b = some x ∧ x.range = b.range := by
  simp only [backendFaults, namedFaults, List.append_eq_nil_iff] at h
  obtain ⟨⟨⟨-, hlabel⟩, hattributes⟩, hmissing⟩ := h
  obtain ⟨name, hname⟩ := label?_of_oneLabel hlabel
  obtain ⟨kind, hkind⟩ := find?_of_missingFaults hmissing "type" (by simp)
  obtain ⟨filename, hfilename⟩ := find?_of_missingFaults hmissing "filename" (by simp)
  obtain ⟨command, hcommand⟩ := find?_of_missingFaults hmissing "command" (by simp)
  have hterraform := backendTypeOf_of_demand (faults_of_attributeFaults hattributes hkind rfl)
  obtain ⟨file, hfile⟩ :=
    textOf_of_filename (faults_of_attributeFaults hattributes hfilename rfl)
  have hread : readFaults (textListOf command) = [] :=
    faults_of_attributeFaults hattributes hcommand rfl
  obtain ⟨words, hwords⟩ := ok_of_readFaults hread
  simp [backend?, hname, read?_of_ok hkind hterraform, read?_of_ok hfilename hfile,
    read?_of_ok hcommand hwords]

/-! ## Names -/

/-- A recorded `generate_hcl` block is recorded under its label. -/
theorem label?_of_generatedHcl? {b : Block} {x : GeneratedHcl} (h : generatedHcl? b = some x) :
    label? b = some x.label := by
  unfold generatedHcl? at h
  split at h
  · rename_i label content hlabel _
    obtain rfl := Option.some.inj h
    exact hlabel
  · cases h

theorem label?_of_generatedFile? {b : Block} {x : GeneratedFile} (h : generatedFile? b = some x) :
    label? b = some x.label := by
  unfold generatedFile? at h
  obtain ⟨label, hlabel, h⟩ := Option.bind_eq_some_iff.1 h
  obtain ⟨content, -, h⟩ := Option.bind_eq_some_iff.1 h
  obtain rfl := Option.some.inj h
  exact hlabel

theorem label?_of_input? {b : Block} {x : Input} (h : input? b = some x) :
    label? b = some x.name := by
  unfold input? at h
  obtain ⟨name, hname, h⟩ := Option.bind_eq_some_iff.1 h
  obtain ⟨backend, -, h⟩ := Option.bind_eq_some_iff.1 h
  obtain ⟨value, -, h⟩ := Option.bind_eq_some_iff.1 h
  obtain ⟨stack, -, h⟩ := Option.bind_eq_some_iff.1 h
  obtain rfl := Option.some.inj h
  exact hname

theorem label?_of_output? {b : Block} {x : Output} (h : output? b = some x) :
    label? b = some x.name := by
  unfold output? at h
  obtain ⟨name, hname, h⟩ := Option.bind_eq_some_iff.1 h
  obtain ⟨backend, -, h⟩ := Option.bind_eq_some_iff.1 h
  obtain ⟨value, -, h⟩ := Option.bind_eq_some_iff.1 h
  obtain rfl := Option.some.inj h
  exact hname

theorem label?_of_backend? {b : Block} {x : SharingBackend} (h : backend? b = some x) :
    label? b = some x.name := by
  unfold backend? at h
  obtain ⟨name, hname, h⟩ := Option.bind_eq_some_iff.1 h
  obtain ⟨backendType, -, h⟩ := Option.bind_eq_some_iff.1 h
  obtain ⟨filename, -, h⟩ := Option.bind_eq_some_iff.1 h
  obtain ⟨command, -, h⟩ := Option.bind_eq_some_iff.1 h
  obtain rfl := Option.some.inj h
  exact hname

/-! ## Jobs of scripts -/

/-- A job without a fault is recorded, with the range of its block. -/
theorem job?_of_no_faults {b : Block} (h : jobFaults b = []) :
    ∃ x, job? b = some x ∧ x.range = b.range := by
  simp only [jobFaults, List.append_eq_nil_iff] at h
  obtain ⟨-, hcommand⟩ := h
  cases hone : b.attributes.find? "command" with
  | none =>
    cases hmany : b.attributes.find? "commands" with
    | none => simp [commandFaults, hone, hmany] at hcommand
    | some many => simp [job?, jobCommand?, AttributeTable.expr?, hone, hmany]
  | some one =>
    cases hmany : b.attributes.find? "commands" with
    | none => simp [job?, jobCommand?, AttributeTable.expr?, hone, hmany]
    | some many => simp [commandFaults, hone, hmany] at hcommand

/-- Nothing is wrong with the inner blocks when nothing is found on the way through them. -/
theorem other_of_withLets {other : Block → List Diagnostic} {lets : List MergedBlock}
    {blocks : List Block} (h : (withLets other lets blocks).2 = []) {b : Block} (hb : b ∈ blocks)
    (hne : b.blockType ≠ "lets") : other b = [] := by
  induction blocks generalizing lets with
  | nil => cases hb
  | cons b' blocks ih =>
    simp only [withLets, List.append_eq_nil_iff] at h
    obtain ⟨hone, hrest⟩ := h
    rcases List.mem_cons.1 hb with rfl | hb
    · simpa [hne] using hone
    · exact ih hrest hb

/-- Every job of a script without faults is among the jobs that the script declares. -/
theorem jobs_of_no_faults {b : Block} (h : scriptFaults b = []) :
    (scriptOf b).jobs.map (·.range) = (b.blocks.filter isJob).map Block.range := by
  simp only [scriptFaults, List.append_eq_nil_iff] at h
  obtain ⟨⟨⟨-, hchildren⟩, -⟩, -⟩ := h
  have hjobs : ∀ x ∈ b.blocks.filter isJob, ∃ j, job? x = some j ∧ j.range = x.range := by
    intro x hx
    obtain ⟨hmem, hjob⟩ := List.mem_filter.1 hx
    have htype : x.blockType = "job" := by simpa [isJob] using hjob
    have hchild := other_of_withLets hchildren hmem (by simp [htype])
    rw [scriptChild, if_pos hjob] at hchild
    exact job?_of_no_faults hchild
  show ((b.blocks.filter isJob).filterMap job?).map (·.range) = _
  generalize b.blocks.filter isJob = jobs at hjobs
  induction jobs with
  | nil => rfl
  | cons x jobs ih =>
    obtain ⟨j, hj, hrange⟩ := hjobs x List.mem_cons_self
    rw [List.filterMap_cons_some hj, List.map_cons, List.map_cons, hrange,
      ih fun y hy => hjobs y (List.mem_cons_of_mem x hy)]

end ScopeConfig.Blocks
