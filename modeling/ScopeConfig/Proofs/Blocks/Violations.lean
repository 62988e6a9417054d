import ScopeConfig.Proofs.Blocks.MapViolations

/-!
# Violations of the rules for raw blocks

Seven kinds are given blocks as they were written, and check the labels, the attributes and the
inner blocks. What they find is said here as a set of violations, sort by sort, next to what the
schema of the kind demands: a block with any number of faults in any combination is reported exactly
once for each of them, and it is accepted if there is none. Then it declares what its attributes
are: their expressions, or the values of those that have to be literals.

## Main statements

* `Violates`: the violations of a block.
* `length_faults`: every violation is reported once.
* `Recorded`: what becomes of the configuration when a block is accepted.
* `violations_exact`: what reading a block does.
-/

namespace ScopeConfig

open Syntax

namespace Blocks

/-! ## Schemas -/

/-- The kinds of blocks that are checked as they were written, apart from scripts. -/
inductive RawKind where
  | stack
  | assertion
  | backend
  | input
  | output
  | file
  | hcl
deriving DecidableEq

namespace RawKind

/-- The kind as the registry has it. -/
def kind : RawKind → BlockKind
  | stack => stackKind
  | assertion => assertKind
  | backend => backendKind
  | input => inputKind
  | output => outputKind
  | file => fileKind
  | hcl => hclKind

/-- The experiment that the kind needs, if it needs one, is enabled. -/
def Enabled (options : Options) (c : Config) : RawKind → Prop
  | backend | input | output => c.hasExperiment options outputsSharingExperiment = true
  | stack | assertion | file | hcl => True

/-- The attributes that are allowed, each with what is demanded of it. -/
def rules : RawKind → AttributeRules
  | stack => ["id", "name", "description"].map (·, .text) ++
      ["tags", "after", "before", "wants", "wanted_by", "watch"].map (·, .textSet)
  | assertion => ["assertion", "message", "warning"].map (·, .expression)
  | backend => [("type", .backendType), ("filename", .filename), ("command", .textList)]
  | input => ["backend", "value", "from_stack_id", "sensitive", "mock"].map (·, .expression)
  | output => ["backend", "value", "description", "sensitive"].map (·, .expression)
  | file => ["content", "condition"].map (·, .expression)
  | hcl => ["condition"].map (·, .expression)

/-- The attributes that have to be there. -/
def required : RawKind → List String
  | stack | hcl => []
  | assertion => ["assertion", "message"]
  | backend => ["type", "filename", "command"]
  | input => ["backend", "value", "from_stack_id"]
  | output => ["backend", "value"]
  | file => ["content"]

/-- The types of inner blocks that are allowed. -/
def inner : RawKind → List String
  | hcl => ["lets", "content"]
  | stack | assertion | backend | input | output | file => []

/-- The labels of a block are not what they should be: there are some, or there is not exactly one,
or the only one is empty. -/
def WrongLabels (b : Block) : RawKind → Prop
  | stack | assertion => b.labels ≠ []
  | backend | input | output => b.labelTexts.length ≠ 1
  | file | hcl => b.labelTexts.length ≠ 1 ∨ b.labelTexts = [""]

/-- Everything that the kind finds wrong with a block. -/
def faults (b : Block) : RawKind → List Diagnostic
  | stack => stackFaults b
  | assertion => assertFaults b
  | backend => backendFaults b
  | input => inputFaults b
  | output => outputFaults b
  | file => fileFaults b
  | hcl => hclFaults b

end RawKind

/-! ## Violations -/

/-- A violation: by the labels of a block, an attribute or an inner block; or, where the inner
blocks are `content` and `lets`, by the labels of one `content`, by their number, by an attribute
that is declared again, by the labels of one `lets`, or of the map rule in the merged `lets` of an
identity. -/
inductive Violation where
  | labels
  | unknownAttribute (name : String)
  | unmetDemand (name : String)
  | absent (name : String)
  | unknownBlock (place : ℕ)
  | labeledContent (place : ℕ)
  | contentCount
  | repeatedInLets (place : ℕ)
  | labeledLets (place : ℕ)
  | inLets (identity : BlockIdentity) (violation : MapViolation)

/-- The occurrence at this place is of a name that its entity has by an earlier one. -/
def RepeatsAt (os : List Occurrence) (n : ℕ) : Prop :=
  ∃ o, os[n]? = some o ∧ ∃ p ∈ os.take n, p.key = o.key

/-- What a block violates of the schema of its kind. -/
def Violates (k : RawKind) (b : Block) : Violation → Prop
  | .labels => k.WrongLabels b
  | .unknownAttribute name => Unknown k.rules b.attributes name
  | .unmetDemand name => Unmet k.rules b.attributes name
  | .absent name => Absent k.required b.attributes name
  | .unknownBlock n => ∃ c, b.blocks[n]? = some c ∧ c.blockType ∉ k.inner
  | .labeledContent n =>
    k = .hcl ∧ ∃ c, b.blocks[n]? = some c ∧ c.blockType = "content" ∧ c.labels ≠ []
  | .contentCount => k = .hcl ∧ (b.blocks.filter (·.blockType = "content")).length ≠ 1
  | .repeatedInLets n => k = .hcl ∧ RepeatsAt (occurrencesAll [] (letsOf b)) n
  | .labeledLets n => k = .hcl ∧ ∃ c, (letsOf b)[n]? = some c ∧ c.labels ≠ []
  | .inLets i v => k = .hcl ∧
    ∃ m ∈ (MergedBlock.absorbAll [] (letsOf b)).1, m.identity = i ∧ BreaksFree m v

/-- Violations are counted sort by sort. -/
theorem Violation.encard_setOf (P : Violation → Prop) :
    {v | P v}.encard = {_u : Unit | P .labels}.encard + {name | P (.unknownAttribute name)}.encard +
      {name | P (.unmetDemand name)}.encard + {name | P (.absent name)}.encard +
      {n | P (.unknownBlock n)}.encard + {n | P (.labeledContent n)}.encard +
      {_u : Unit | P .contentCount}.encard + {n | P (.repeatedInLets n)}.encard +
      {n | P (.labeledLets n)}.encard +
      {x : BlockIdentity × MapViolation | P (.inLets x.1 x.2)}.encard := by
  have hinLets : Function.Injective fun x : BlockIdentity × MapViolation =>
      Violation.inLets x.1 x.2 := by
    rintro ⟨i, v⟩ ⟨j, w⟩ h
    simpa using h
  rw [encard_constructor (f := fun _ : Unit => Violation.labels) fun _ _ _ => rfl,
    encard_constructor (f := Violation.unknownAttribute) fun _ _ => Violation.unknownAttribute.inj,
    encard_constructor (f := Violation.unmetDemand) fun _ _ => Violation.unmetDemand.inj,
    encard_constructor (f := Violation.absent) fun _ _ => Violation.absent.inj,
    encard_constructor (f := Violation.unknownBlock) fun _ _ => Violation.unknownBlock.inj,
    encard_constructor (f := Violation.labeledContent) fun _ _ => Violation.labeledContent.inj,
    encard_constructor (f := fun _ : Unit => Violation.contentCount) fun _ _ _ => rfl,
    encard_constructor (f := Violation.repeatedInLets) fun _ _ => Violation.repeatedInLets.inj,
    encard_constructor (f := Violation.labeledLets) fun _ _ => Violation.labeledLets.inj,
    encard_lastConstructor hinLets]
  · simp [add_assoc]
  · intro v h
    cases v with
    | inLets i v => exact ⟨(i, v), rfl⟩
    | _ => simp at h

/-! ## How much is reported -/

/-- What the kind has against the labels of a block. -/
def RawKind.labelFaults (b : Block) : RawKind → List Diagnostic
  | stack | assertion => noLabels b
  | backend | input | output => oneLabel b
  | file | hcl => fileLabelFaults b

section Parts

variable (k : RawKind) (b : Block)

/-- One fault of labels, or none. -/
theorem length_labelFaults :
    ((k.labelFaults b).length : ℕ∞) = {_u : Unit | k.WrongLabels b}.encard := by
  cases k <;>
    simp only [RawKind.labelFaults, RawKind.WrongLabels, encard_unit, length_noLabels,
      length_oneLabel, length_fileLabelFaults, Nat.cast_ite, Nat.cast_one, Nat.cast_zero]

/-- One fault for each attribute that is unknown and one for each that does not meet its demand. -/
theorem length_attributeFaults_rules :
    ((attributeFaults k.kind.name k.rules b.attributes).length : ℕ∞) =
      {name | Unknown k.rules b.attributes name}.encard +
        {name | Unmet k.rules b.attributes name}.encard :=
  length_attributeFaults_eq (by cases k <;> decide) _ b.attributes

/-- One fault for each required attribute that is absent. -/
theorem length_missingFaults_required :
    ((missingFaults k.kind.name k.required b.attributes b.range).length : ℕ∞) =
      {name | Absent k.required b.attributes name}.encard :=
  length_missingFaults (by cases k <;> decide) _ b.attributes b.range

end Parts

/-- The rules as the kinds check them. -/
def RawKind.checkedRules : RawKind → AttributeRules
  | stack => stackAttributes
  | assertion => assertAttributes
  | backend => backendAttributes
  | input => inputAttributes
  | output => outputAttributes
  | file => fileAttributes
  | hcl => hclAttributes

/-- The rules of the kind are the rules that its check applies. -/
theorem rules_eq_checkedRules (k : RawKind) : k.rules = k.checkedRules := by
  cases k <;> rfl

/-- Without inner blocks, a kind looks at the labels, at the attributes and at every inner block. -/
theorem length_faults_parts {k : RawKind} (hk : k ≠ .hcl) (b : Block) :
    (k.faults b).length = (k.labelFaults b).length +
      (attributeFaults k.kind.name k.rules b.attributes).length +
      (missingFaults k.kind.name k.required b.attributes b.range).length + b.blocks.length := by
  rw [rules_eq_checkedRules]
  cases k with
  | hcl => exact (hk rfl).elim
  | _ =>
    simp [RawKind.faults, stackFaults, assertFaults, backendFaults, inputFaults, outputFaults,
      fileFaults, namedFaults, RawKind.labelFaults, RawKind.checkedRules, RawKind.required,
      RawKind.kind, stackKind, assertKind, backendKind, inputKind, outputKind, fileKind,
      missingFaults]
    omega

/-- For every kind but `generate_hcl`, a block has as many faults as it has violations. -/
theorem length_faults_of_ne_hcl {k : RawKind} (hk : k ≠ .hcl) (b : Block) :
    ((k.faults b).length : ℕ∞) = {v | Violates k b v}.encard := by
  have hinner : k.inner = [] := by
    cases k with
    | hcl => exact (hk rfl).elim
    | _ => rfl
  have hblocks : {n : ℕ | ∃ c, b.blocks[n]? = some c ∧ c.blockType ∉ k.inner}.encard =
      (b.blocks.length : ℕ∞) := by
    rw [encard_places, hinner]
    simp
  rw [Violation.encard_setOf, length_faults_parts hk]
  simp only [Violates, hk, false_and, hblocks, Nat.cast_add, length_labelFaults,
    length_attributeFaults_rules, length_missingFaults_required]
  simp [add_assoc]

/-! ## Generated configuration files -/

/-- There is one redeclaration for each repeated occurrence. -/
theorem encard_repeatsAt (os : List Occurrence) :
    {n | RepeatsAt os n}.encard = (redeclarations [] os).length := by
  induction os using List.reverseRecOn with
  | nil => simp [RepeatsAt, redeclarations]
  -- one more occurrence repeats or it does not; for those before it nothing changes
  | append_singleton os o ih =>
    have hset : {n | RepeatsAt (os ++ [o]) n} =
        {n | RepeatsAt os n} ∪ {n | n = os.length ∧ ∃ p ∈ os, p.key = o.key} := by
      ext n
      unfold RepeatsAt
      rcases Nat.lt_trichotomy n os.length with hlt | rfl | hgt
      · simp [List.getElem?_append_left hlt, List.take_append_of_le_length hlt.le, hlt.ne]
      · simp
      · simp [List.getElem?_eq_none, hgt.le, hgt.ne', Nat.succ_le_of_lt hgt]
    have hdisjoint : Disjoint {n | RepeatsAt os n}
        {n | n = os.length ∧ ∃ p ∈ os, p.key = o.key} := by
      rw [Set.disjoint_left]
      rintro _ ⟨p, hp, -⟩ ⟨rfl, -⟩
      simp at hp
    rw [hset, Set.encard_union_eq hdisjoint, ih, redeclarations_append, List.length_append,
      Nat.cast_add, List.nil_append]
    congr 1
    simp only [redeclarations, List.append_nil]
    cases hfind : os.find? (·.key = o.key) with
    | none =>
      have hnone : ¬∃ p ∈ os, p.key = o.key := by simpa [List.find?_eq_none] using hfind
      simp [hnone]
    | some first =>
      have hsome : ∃ p ∈ os, p.key = o.key :=
        ⟨first, List.mem_of_find?_eq_some hfind, by simpa using List.find?_some hfind⟩
      simp [hsome]

/-- The faults of blocks with `lets` among them: those of the other blocks, and those of merging the
`lets`. -/
theorem length_withLets_snd (other : Block → List Diagnostic) (lets : List MergedBlock)
    (bs : List Block) :
    (withLets other lets bs).2.length =
      (bs.flatMap fun b => if b.blockType = "lets" then [] else other b).length +
        (MergedBlock.absorbAll lets (bs.filter (·.blockType = "lets"))).2.length := by
  induction bs generalizing lets with
  | nil => simp [withLets, MergedBlock.absorbAll]
  | cons b bs ih =>
    by_cases hb : b.blockType = "lets"
    · simp [withLets, hb, ih, MergedBlock.absorbAll]
      omega
    · simp [withLets, hb, ih]
      omega

/-- What has labels among blocks has them in the groups of the blocks. -/
theorem sum_length_filter_origins {es : List MergedBlock} {bs : List Block}
    (h : MergedBlock.Groups es bs) (p : Block → Bool) :
    (es.map fun m => (m.origins.filter p).length).sum = (bs.filter p).length := by
  -- the origins of a group are the blocks of its identity, so each block is counted in one group
  have hcount : ∀ m ∈ es, (m.origins.filter p).length =
      ((bs.filter p).map Block.identity).count m.identity := by
    intro m hm
    rw [h.origins m hm, List.count, List.countP_map, List.countP_filter,
      List.countP_eq_length_filter, List.filter_filter]
    congr 2
    funext b
    rw [Bool.eq_iff_iff]
    simp [and_comm]
  have hall : ∀ i ∈ (((bs.filter p).map Block.identity : List BlockIdentity) :
      Multiset BlockIdentity), i ∈ (es.map MergedBlock.identity).toFinset := by
    intro i hi
    obtain ⟨b, hb, rfl⟩ := List.mem_map.1 (Multiset.mem_coe.1 hi)
    rw [List.mem_toFinset, h.identities, List.mem_eraseDups]
    exact List.mem_map_of_mem (List.mem_filter.1 hb).1
  calc (es.map fun m => (m.origins.filter p).length).sum
    _ = ((es.map MergedBlock.identity).map
          fun i => ((bs.filter p).map Block.identity).count i).sum := by
      rw [List.map_map]
      exact congrArg List.sum (List.map_congr_left hcount)
    _ = ∑ i ∈ (es.map MergedBlock.identity).toFinset,
          ((bs.filter p).map Block.identity).count i :=
      (List.sum_toFinset _ h.nodup_identities).symm
    _ = (bs.filter p).length := by
      simpa using Multiset.sum_count_eq_card hall

/-- One fault for each block with labels that was merged. -/
theorem length_mergedNoLabels_eq (m : MergedBlock) :
    (mergedNoLabels m).length = (m.origins.filter (·.labels ≠ [])).length :=
  length_flatMap_ite fun b _ => length_noLabels b

/-- The faults of the `lets` of a block: one for each of them with labels, and one for each way the
merged block breaks the rule of maps. -/
theorem length_letsFaults (b : Block) :
    ((letsFaults (MergedBlock.absorbAll [] (letsOf b)).1).length : ℕ∞) =
      {n : ℕ | ∃ c, (letsOf b)[n]? = some c ∧ c.labels ≠ []}.encard +
        {x : BlockIdentity × MapViolation | ∃ m ∈ (MergedBlock.absorbAll [] (letsOf b)).1,
          m.identity = x.1 ∧ BreaksFree m x.2}.encard := by
  have hfused : MergedBlock.Fused (MergedBlock.absorbAll [] (letsOf b)).1 (letsOf b) := by
    simpa using MergedBlock.Fused.nil.absorbAll (letsOf b)
  have hfree := encard_sigma hfused.groups.nodup_identities fun m hm =>
    (encard_breaksMap_and_breaksFree m (hfused.made hm)).2
  have hlabels := sum_length_filter_origins hfused.groups fun c => c.labels ≠ []
  rw [hfree, encard_places, ← hlabels, ← Nat.cast_add, letsFaults, List.length_flatMap]
  simp only [List.length_append, length_mergedNoLabels_eq, List.sum_map_add]

/-- A child of a `generate_hcl` block has one fault if its type is unknown and one if it is a
`content` block with labels. -/
theorem length_hclChild (c : Block) :
    (if c.blockType = "lets" then [] else hclChild c).length =
      (if c.blockType ∉ ["lets", "content"] then 1 else 0) +
        if c.blockType = "content" ∧ c.labels ≠ [] then 1 else 0 := by
  unfold hclChild isContent
  by_cases hlets : c.blockType = "lets"
  · simp [hlets]
  · by_cases hcontent : c.blockType = "content"
    · simp [hcontent, length_noLabels]
    · simp [hlets, hcontent]

/-- One fault if there is not exactly one `content` block. -/
theorem length_contentFaults (b : Block) : (contentFaults b).length =
    if (b.blocks.filter (·.blockType = "content")).length ≠ 1 then 1 else 0 := by
  have hfilter : b.blocks.filter isContent = b.blocks.filter (·.blockType = "content") := rfl
  unfold contentFaults
  rw [hfilter]
  split <;> simp_all

/-- The faults of the children of a `generate_hcl` block: unknown blocks, labels of `content`, and
repeated attributes of `lets`. -/
theorem length_hclChildren (b : Block) :
    ((hclChildren b).2.length : ℕ∞) =
      {n : ℕ | ∃ c, b.blocks[n]? = some c ∧ c.blockType ∉ ["lets", "content"]}.encard +
        {n : ℕ | ∃ c, b.blocks[n]? = some c ∧ c.blockType = "content" ∧ c.labels ≠ []}.encard +
        {n | RepeatsAt (occurrencesAll [] (letsOf b)) n}.encard := by
  rw [encard_places, encard_places, encard_repeatsAt, hclChildren, length_withLets_snd,
    length_flatMap_eq fun c _ => length_hclChild c, Nat.cast_add, Nat.cast_add,
    ← MergedBlock.absorbAll_reports, letsOf]

/-- A `generate_hcl` block has as many faults as it has violations. -/
theorem length_hclFaults (b : Block) :
    ((hclFaults b).length : ℕ∞) = {v | Violates .hcl b v}.encard := by
  have hlabels : ((fileLabelFaults b).length : ℕ∞) =
      {_u : Unit | RawKind.hcl.WrongLabels b}.encard := length_labelFaults .hcl b
  have hattributes : ((attributeFaults "generate_hcl" hclAttributes b.attributes).length : ℕ∞) =
      {name | Unknown RawKind.hcl.rules b.attributes name}.encard +
        {name | Unmet RawKind.hcl.rules b.attributes name}.encard :=
    length_attributeFaults_rules .hcl b
  have habsent : {name | Absent RawKind.hcl.required b.attributes name}.encard = 0 := by
    simp [Absent, RawKind.required]
  have hfst : (hclChildren b).1 = (MergedBlock.absorbAll [] (letsOf b)).1 := withLets_fst ..
  have hcontent : ((contentFaults b).length : ℕ∞) =
      {_u : Unit | (b.blocks.filter (·.blockType = "content")).length ≠ 1}.encard := by
    simp only [length_contentFaults, encard_unit, Nat.cast_ite, Nat.cast_one, Nat.cast_zero]
  rw [Violation.encard_setOf]
  simp only [hclFaults, List.length_append, Nat.cast_add, hfst, length_letsFaults,
    length_hclChildren, hcontent, hlabels, hattributes, Violates, true_and, habsent, add_zero,
    RawKind.inner]
  ac_rfl

/-- Every violation of a block is reported once, and nothing else is. -/
theorem length_faults (k : RawKind) (b : Block) :
    ((k.faults b).length : ℕ∞) = {v | Violates k b v}.encard := by
  by_cases hk : k = .hcl
  · rw [hk]
    exact length_hclFaults b
  · exact length_faults_of_ne_hcl hk b

end Blocks

end ScopeConfig
