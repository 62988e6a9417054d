import ScopeConfig.Proofs.Blocks.Violations

/-!
# What raw blocks declare

A kind that is given a block as it was written refuses it with one error for each violation of its
schema, or accepts it and sets the one field of the configuration that belongs to it. What is
recorded then is what the block says: its label, the expressions of its attributes, and the values
of those attributes that have to be literals.

## Main statements

* `Recorded`: what becomes of the configuration when a block is accepted.
* `recorded_of_no_faults`: a block without faults is recorded as it stands.
* `violations_exact`: what reading a block does.
-/

namespace ScopeConfig

open Syntax

/-- The members of a set made from a list are those of the list. -/
theorem NameSet.mem_ofList {names : List String} {s : String} :
    s ∈ (ofList names).names ↔ s ∈ names := by
  have hfold : ∀ set : NameSet,
      s ∈ (names.foldl insert set).names ↔ s ∈ set.names ∨ s ∈ names := by
    induction names with
    | nil => simp
    | cons t names ih =>
      intro set
      rw [List.foldl_cons, ih, mem_insert, List.mem_cons]
      tauto
  simpa [ofList, empty] using hfold empty

namespace Blocks

/-! ## Values of attributes -/

section Values

variable (b : Block) (name : String)

/-- The attribute of this name is the text as a literal; without the attribute there is no text. -/
def TextAt (text : Option String) : Prop :=
  (b.attributes.expr? name).map Literal.evaluate = text.map fun s => .ok (.text s)

/-- The attribute of this name is a list of the names in the set, without repetition; without the
attribute the set is empty. -/
def SetAt (set : NameSet) : Prop :=
  match b.attributes.expr? name with
  | none => set.names = []
  | some e => ∃ ss : List String, ss.Nodup ∧ Literal.evaluate e = .ok (.list (ss.map .text)) ∧
    ∀ s, s ∈ set.names ↔ s ∈ ss

variable {b name}

/-- A value is read exactly if the attribute is there and the reader makes that value of it. -/
theorem read?_eq_some_iff {α : Type} {reader : Attribute → Except Diagnostic α}
    {t : AttributeTable} {value : α} :
    read? reader t name = some value ↔ ∃ a, t.find? name = some a ∧ reader a = .ok value := by
  unfold read?
  cases t.find? name with
  | none => simp
  | some a => cases hread : reader a <;> simp [hread]

/-- What is read as an optional text is what the block declares under the name. -/
theorem textAt_read? {owner : String} {rules : AttributeRules}
    (h : attributeFaults owner rules b.attributes = []) (hrule : rules.lookup name = some .text) :
    TextAt b name (read? textOf b.attributes name) := by
  unfold TextAt AttributeTable.expr?
  cases hfind : b.attributes.find? name with
  | none => simp [read?, hfind]
  | some a =>
    have hfaults : readFaults (textOf a) = [] := faults_of_attributeFaults h hfind hrule
    obtain ⟨s, hs⟩ := ok_of_readFaults hfaults
    simp [read?_of_ok hfind hs, textOf_eq_ok_iff.1 hs]

/-- What is read as an optional set of texts is what the block declares under the name. -/
theorem setAt_setOr {owner : String} {rules : AttributeRules}
    (h : attributeFaults owner rules b.attributes = [])
    (hrule : rules.lookup name = some .textSet) : SetAt b name (setOr b.attributes name) := by
  unfold SetAt AttributeTable.expr? setOr
  cases hfind : b.attributes.find? name with
  | none => simp [read?, hfind, NameSet.empty]
  | some a =>
    have hfaults : readFaults (textSetOf a) = [] := faults_of_attributeFaults h hfind hrule
    obtain ⟨set, hset⟩ := ok_of_readFaults hfaults
    obtain ⟨ss, honce, hvalue, rfl⟩ := textSetOf_eq_ok_iff.1 hset
    rw [read?_of_ok hfind hset]
    exact ⟨ss, honce, hvalue, fun s => NameSet.mem_ofList⟩

end Values

/-! ## What blocks declare -/

/-- The stack that a block declares. -/
structure DeclaresStack (b : Block) (x : Stack) : Prop where
  id : TextAt b "id" x.id
  name : TextAt b "name" x.name
  description : TextAt b "description" x.description
  tags : SetAt b "tags" x.tags
  after : SetAt b "after" x.after
  before : SetAt b "before" x.before
  wants : SetAt b "wants" x.wants
  wantedBy : SetAt b "wanted_by" x.wantedBy
  watch : SetAt b "watch" x.watch
  range : x.range = b.range

/-- The condition that a block states. -/
structure DeclaresAssertion (b : Block) (x : Assertion) : Prop where
  assertion : b.attributes.expr? "assertion" = some x.assertion
  message : b.attributes.expr? "message" = some x.message
  warning : b.attributes.expr? "warning" = x.warning
  range : x.range = b.range

/-- The backend that a block declares. -/
structure DeclaresBackend (b : Block) (x : SharingBackend) : Prop where
  name : b.labelTexts = [x.name]
  backendType : ∃ e t, b.attributes.expr? "type" = some e ∧ e.tokens = [t] ∧
    t.token = .word x.backendType.keyword
  filename : ∃ e, b.attributes.expr? "filename" = some e ∧
    Literal.evaluate e = .ok (.text x.filename)
  command : ∃ e, b.attributes.expr? "command" = some e ∧
    Literal.evaluate e = .ok (.list (x.command.map .text))
  range : x.range = b.range

/-- The input that a block declares. -/
structure DeclaresInput (b : Block) (x : Input) : Prop where
  name : b.labelTexts = [x.name]
  backend : b.attributes.expr? "backend" = some x.backend
  value : b.attributes.expr? "value" = some x.value
  fromStackId : b.attributes.expr? "from_stack_id" = some x.fromStackId
  sensitive : b.attributes.expr? "sensitive" = x.sensitive
  mock : b.attributes.expr? "mock" = x.mock
  range : x.range = b.range

/-- The output that a block declares. -/
structure DeclaresOutput (b : Block) (x : Output) : Prop where
  name : b.labelTexts = [x.name]
  backend : b.attributes.expr? "backend" = some x.backend
  value : b.attributes.expr? "value" = some x.value
  description : b.attributes.expr? "description" = x.description
  sensitive : b.attributes.expr? "sensitive" = x.sensitive
  range : x.range = b.range

/-- The file that a block generates. -/
structure DeclaresFile (b : Block) (x : GeneratedFile) : Prop where
  label : b.labelTexts = [x.label]
  content : b.attributes.expr? "content" = some x.content
  condition : b.attributes.expr? "condition" = x.condition
  range : x.range = b.range

/-- The configuration file that a block generates: with the `content` block as it stands, and the
`lets` blocks as one. -/
structure DeclaresHcl (b : Block) (x : GeneratedHcl) : Prop where
  label : b.labelTexts = [x.label]
  content : b.blocks.filter (·.blockType = "content") = [x.content]
  condition : b.attributes.expr? "condition" = x.condition
  lets : x.lets = if letsOf b = [] then none else some (mergedLets b)
  range : x.range = b.range

/-- What becomes of a configuration when a block is accepted: the field that belongs to the kind is
set, or has one more entry, to what the block declares. -/
inductive Recorded (c : Config) (b : Block) : RawKind → Config → Prop
  | stack {x : Stack} (h : DeclaresStack b x) :
    Recorded c b .stack { c with stack := some x }
  | assertion {x : Assertion} (h : DeclaresAssertion b x) :
    Recorded c b .assertion { c with asserts := c.asserts ++ [x] }
  | backend {x : SharingBackend} (h : DeclaresBackend b x) :
    Recorded c b .backend { c with sharingBackends := c.sharingBackends ++ [x] }
  | input {x : Input} (h : DeclaresInput b x) :
    Recorded c b .input { c with inputs := c.inputs ++ [x] }
  | output {x : Output} (h : DeclaresOutput b x) :
    Recorded c b .output { c with outputs := c.outputs ++ [x] }
  | file {x : GeneratedFile} (h : DeclaresFile b x) :
    Recorded c b .file { c with generatedFiles := c.generatedFiles ++ [x] }
  | hcl {x : GeneratedHcl} (h : DeclaresHcl b x) :
    Recorded c b .hcl { c with generatedHcls := c.generatedHcls ++ [x] }

section Declared

variable {b : Block}

/-- The record of an accepted stack is what its block declares. -/
theorem declares_stackOf (h : stackFaults b = []) : DeclaresStack b (stackOf b) := by
  simp only [stackFaults, List.append_eq_nil_iff] at h
  obtain ⟨⟨-, h⟩, -⟩ := h
  exact ⟨textAt_read? h rfl, textAt_read? h rfl, textAt_read? h rfl, setAt_setOr h rfl,
    setAt_setOr h rfl, setAt_setOr h rfl, setAt_setOr h rfl, setAt_setOr h rfl, setAt_setOr h rfl,
    rfl⟩

/-- The record of an assertion is what its block declares. -/
theorem declares_assertion? {x : Assertion} (h : assertion? b = some x) :
    DeclaresAssertion b x := by
  unfold assertion? at h
  obtain ⟨assertion, hassertion, h⟩ := Option.bind_eq_some_iff.1 h
  obtain ⟨message, hmessage, h⟩ := Option.bind_eq_some_iff.1 h
  obtain rfl := Option.some.inj h
  exact ⟨hassertion, hmessage, rfl, rfl⟩

theorem declares_backend? {x : SharingBackend} (h : backend? b = some x) :
    DeclaresBackend b x := by
  unfold backend? at h
  obtain ⟨name, hname, h⟩ := Option.bind_eq_some_iff.1 h
  obtain ⟨backendType, htype, h⟩ := Option.bind_eq_some_iff.1 h
  obtain ⟨filename, hfilename, h⟩ := Option.bind_eq_some_iff.1 h
  obtain ⟨command, hcommand, h⟩ := Option.bind_eq_some_iff.1 h
  obtain rfl := Option.some.inj h
  obtain ⟨t, ht, htype⟩ := read?_eq_some_iff.1 htype
  obtain ⟨f, hf, hfilename⟩ := read?_eq_some_iff.1 hfilename
  obtain ⟨w, hw, hcommand⟩ := read?_eq_some_iff.1 hcommand
  have hterraform : ∃ u, t.expr.tokens = [u] ∧ u.token = .word backendType.keyword := by
    unfold backendTypeOf at htype
    split at htype
    · rename_i hkeyword
      obtain rfl := Except.ok.inj htype
      exact keyword?_eq_some_iff.1 hkeyword
    · cases htype
  obtain ⟨u, htokens, hword⟩ := hterraform
  refine ⟨label?_eq_some_iff.1 hname, ⟨t.expr, u, ?_, htokens, hword⟩,
    ⟨f.expr, ?_, textOf_eq_ok_iff.1 hfilename⟩, ⟨w.expr, ?_, textListOf_eq_ok_iff.1 hcommand⟩, rfl⟩
  all_goals simp [AttributeTable.expr?, *]

theorem declares_input? {x : Input} (h : input? b = some x) : DeclaresInput b x := by
  unfold input? at h
  obtain ⟨name, hname, h⟩ := Option.bind_eq_some_iff.1 h
  obtain ⟨backend, hbackend, h⟩ := Option.bind_eq_some_iff.1 h
  obtain ⟨value, hvalue, h⟩ := Option.bind_eq_some_iff.1 h
  obtain ⟨stack, hstack, h⟩ := Option.bind_eq_some_iff.1 h
  obtain rfl := Option.some.inj h
  exact ⟨label?_eq_some_iff.1 hname, hbackend, hvalue, hstack, rfl, rfl, rfl⟩

theorem declares_output? {x : Output} (h : output? b = some x) : DeclaresOutput b x := by
  unfold output? at h
  obtain ⟨name, hname, h⟩ := Option.bind_eq_some_iff.1 h
  obtain ⟨backend, hbackend, h⟩ := Option.bind_eq_some_iff.1 h
  obtain ⟨value, hvalue, h⟩ := Option.bind_eq_some_iff.1 h
  obtain rfl := Option.some.inj h
  exact ⟨label?_eq_some_iff.1 hname, hbackend, hvalue, rfl, rfl, rfl⟩

theorem declares_generatedFile? {x : GeneratedFile} (h : generatedFile? b = some x) :
    DeclaresFile b x := by
  unfold generatedFile? at h
  obtain ⟨label, hlabel, h⟩ := Option.bind_eq_some_iff.1 h
  obtain ⟨content, hcontent, h⟩ := Option.bind_eq_some_iff.1 h
  obtain rfl := Option.some.inj h
  exact ⟨label?_eq_some_iff.1 hlabel, hcontent, rfl, rfl⟩

/-- The record of a `generate_hcl` block is what its block declares. -/
theorem declares_generatedHcl? {x : GeneratedHcl} (h : generatedHcl? b = some x)
    (hlabels : ∀ c ∈ letsOf b, c.labels = []) : DeclaresHcl b x := by
  unfold generatedHcl? at h
  split at h
  · rename_i label content hlabel hcontent
    obtain rfl := Option.some.inj h
    refine ⟨label?_eq_some_iff.1 hlabel, hcontent, rfl, ?_, rfl⟩
    have hfst : (hclChildren b).1 = (MergedBlock.absorbAll [] (letsOf b)).1 := withLets_fst ..
    show (hclChildren b).1.getLast? = _
    rw [hfst, absorbAll_letsOf hlabels]
    split <;> rfl
  · cases h

end Declared

/-! ## Reading blocks -/

/-- The configuration with a block recorded. -/
def RawKind.record (c : Config) (b : Block) : RawKind → Config
  | stack => { c with stack := some (stackOf b) }
  | assertion =>
    ((assertion? b).map fun x => { c with asserts := c.asserts ++ [x] }).getD c
  | backend =>
    ((backend? b).map fun x => { c with sharingBackends := c.sharingBackends ++ [x] }).getD c
  | input => ((input? b).map fun x => { c with inputs := c.inputs ++ [x] }).getD c
  | output => ((output? b).map fun x => { c with outputs := c.outputs ++ [x] }).getD c
  | file =>
    ((generatedFile? b).map fun x => { c with generatedFiles := c.generatedFiles ++ [x] }).getD c
  | hcl =>
    ((generatedHcl? b).map fun x => { c with generatedHcls := c.generatedHcls ++ [x] }).getD c

section Read

variable {k : RawKind} {options : Options} {c : Config}

/-- When its experiment is enabled, a kind accepts a block if nothing is wrong with it. -/
theorem read_rawKind (henabled : k.Enabled options c) (b : Block) :
    k.kind.read options c (.raw b) = acceptIf (k.faults b) c (k.record c b) := by
  cases k with
  | backend | input | output =>
    have hexperiment : c.hasExperiment options outputsSharingExperiment = true := henabled
    simp [RawKind.kind, backendKind, inputKind, outputKind, readShared, gate, hexperiment,
      RawKind.faults, RawKind.record]
  | stack | assertion | file | hcl => rfl

/-- The errors of a block are all that is wrong with it. -/
theorem ofResult_acceptIf (faults : List Diagnostic) (c next : Config) :
    Diagnostic.ofResult (acceptIf faults c next).2 = faults := by
  unfold acceptIf
  cases faults <;> rfl

/-- A block without faults is recorded as it stands. -/
theorem recorded_of_no_faults {b : Block} (h : k.faults b = []) :
    Recorded c b k (k.record c b) := by
  -- without faults the record is there, and what is there is what the block declares
  cases k with
  | stack => exact .stack (declares_stackOf h)
  | assertion =>
    obtain ⟨x, hx, -⟩ := assertion?_of_no_faults h
    rw [RawKind.record, hx]
    exact .assertion (declares_assertion? hx)
  | backend =>
    obtain ⟨x, hx, -⟩ := backend?_of_no_faults h
    rw [RawKind.record, hx]
    exact .backend (declares_backend? hx)
  | input =>
    obtain ⟨x, hx, -⟩ := input?_of_no_faults h
    rw [RawKind.record, hx]
    exact .input (declares_input? hx)
  | output =>
    obtain ⟨x, hx, -⟩ := output?_of_no_faults h
    rw [RawKind.record, hx]
    exact .output (declares_output? hx)
  | file =>
    obtain ⟨x, hx, -⟩ := generatedFile?_of_no_faults h
    rw [RawKind.record, hx]
    exact .file (declares_generatedFile? hx)
  | hcl =>
    obtain ⟨x, hx, -⟩ := generatedHcl?_of_no_faults h
    rw [RawKind.record, hx]
    refine .hcl (declares_generatedHcl? hx ?_)
    have hfst : (hclChildren b).1 = (MergedBlock.absorbAll [] (letsOf b)).1 := withLets_fst ..
    have hlets : letsFaults (hclChildren b).1 = [] := (List.append_eq_nil_iff.1 h).2
    exact (letsFaults_eq_nil_iff.1 (hfst ▸ hlets)).1

/-- Every violation is reported, once. When the kind of a block needs no experiment, or the one that
it needs is enabled, reading the block gives as many errors as the block has violations of the
schema of its kind, whatever they are; it is accepted exactly if it has none, and what is recorded
then is what its label, its attributes and its inner blocks say. -/
theorem violations_exact (henabled : k.Enabled options c) (b : Block) :
    {v | Violates k b v}.encard =
        (Diagnostic.ofResult (k.kind.read options c (.raw b)).2).length ∧
      ((∃ c', k.kind.read options c (.raw b) = (c', .ok ())) ↔
        {v | Violates k b v}.encard = 0) ∧
      ∀ c', k.kind.read options c (.raw b) = (c', .ok ()) → Recorded c b k c' := by
  rw [read_rawKind henabled, ofResult_acceptIf, ← length_faults]
  refine ⟨rfl, ?_, fun c' hok => ?_⟩
  · simp only [acceptIf_eq_ok_iff, exists_and_left, exists_eq', and_true, Nat.cast_eq_zero,
      List.length_eq_zero_iff]
  · obtain ⟨hnone, rfl⟩ := acceptIf_eq_ok_iff.1 hok
    exact recorded_of_no_faults hnone

end Read

/-- A backend with everything wrong that can be wrong with one, and one that is as it should be. -/
def twoBackends : String :=
  "sharing_backend \"a\" \"b\" \x7b\ntype = x\nfilename = \"\"\nfoo = 1\nbar \x7b\x7d\n\x7d\n" ++
    "sharing_backend \"c\" \x7b\ntype = terraform\nfilename = \"f\"\ncommand = [\"x\"]\n\x7d\n"

/-- The options that enable the sharing of outputs. -/
def sharingEnabled : Options := ⟨.ofList [outputsSharingExperiment]⟩

/-- Reading the first of the two backends gives six errors, reading the second none. -/
theorem errors_twoBackends :
    (Body.parse "/s/a.tm" twoBackends).toOption.map (fun body => body.blocks.map fun b =>
        (Diagnostic.ofResult (backendKind.read sharingEnabled (.new .root) (.raw b)).2).length) =
      some [6, 0] := by
  decide +kernel

/-- The first one has two labels, a type and a file name that are not what they should be, an
attribute and an inner block that are unknown, and no command. -/
theorem violations_exact_twoBackends :
    ∃ body b g, Body.parse "/s/a.tm" twoBackends = .ok body ∧ body.blocks = [b, g] ∧
      {v | Violates .backend b v}.encard = 6 ∧
      ∃ c', backendKind.read sharingEnabled (.new .root) (.raw g) = (c', .ok ()) ∧
        Recorded (.new .root) g .backend c' := by
  obtain ⟨body, hparse, hblocks⟩ := Option.map_eq_some_iff.1 errors_twoBackends
  obtain ⟨b, rest, hb, hsix, hrest⟩ := List.map_eq_cons_iff.1 hblocks
  obtain ⟨g, rfl, hnone⟩ := List.map_eq_singleton_iff.1 hrest
  have henabled : RawKind.backend.Enabled sharingEnabled (.new .root) := by
    show (Config.new .root).hasExperiment sharingEnabled outputsSharingExperiment = true
    decide
  obtain ⟨hcount, -, -⟩ := violations_exact henabled b
  obtain ⟨hcountG, haccepted, hrecorded⟩ := violations_exact henabled g
  have hzero : {v | Violates .backend g v}.encard = 0 := by
    rw [hcountG]
    exact_mod_cast hnone
  obtain ⟨c', hc'⟩ := haccepted.2 hzero
  refine ⟨body, b, g, Glob.toOption_eq_some_iff.1 hparse, hb, ?_, c', hc', hrecorded c' hc'⟩
  rw [hcount]
  exact_mod_cast hsix

end Blocks

end ScopeConfig
