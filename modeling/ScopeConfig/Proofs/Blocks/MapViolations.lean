import ScopeConfig.Proofs.Blocks.Counting

/-!
# How many errors the map rule reports

What can be wrong with merged blocks under the map rule is said here as a set of violations, each
with the place at which it stands: the identities of the merged blocks on the way to it, and then
the place of an inner block or of an origin, or the name of an attribute. The walk through the
merged blocks reports every violation once.

## Main statements

* `BreaksFree`, `BreaksMap`: the violations of a block that holds maps, and of a map.
* `encard_breaksMap_and_breaksFree`: how many there are.
-/

namespace ScopeConfig

open Syntax

namespace Blocks

/-- A violation of the map rule: by an inner block, by the labels of an origin, by an attribute, or
by the value of a map; or a violation inside the merged inner block of an identity. -/
inductive MapViolation where
  | inner (place : ℕ)
  | labels (place : ℕ)
  | unknownAttribute (name : String)
  | unmetDemand (name : String)
  | absent (name : String)
  | manyValues
  | wrongValue
  | inside (identity : BlockIdentity) (violation : MapViolation)

mutual

/-- A violation in a block that holds maps: an inner block that is none, or a violation in one. -/
def BreaksFree (m : MergedBlock) : MapViolation → Prop
  | .inner n => ∃ b, m.rawChildren[n]? = some b ∧ b.blockType ≠ "map"
  | .inside i v => ∃ c ∈ m.childrenOf "map", c.identity = i ∧ BreaksMap c v
  | _ => False

/-- A violation in a map: an inner block that is no `value` block or one with labels; an origin with
a number of labels other than one; an attribute that is not allowed, not what it should be, or
absent; more than one `value` block; a value given in both ways or not at all; or a violation in its
value. -/
def BreaksMap (m : MergedBlock) : MapViolation → Prop
  | .inner n => ∃ b, m.rawChildren[n]? = some b ∧ (b.blockType ≠ "value" ∨ b.labels ≠ [])
  | .labels n => ∃ b, m.origins[n]? = some b ∧ b.labels.length ≠ 1
  | .unknownAttribute name => Unknown mapAttributes m.attributes name
  | .unmetDemand name => Unmet mapAttributes m.attributes name
  | .absent name => Absent ["for_each", "key"] m.attributes name
  | .manyValues => 1 < (m.rawChildren.filter (·.blockType = "value")).length
  | .wrongValue => "value" ∈ m.attributes.names ↔ ∃ b ∈ m.rawChildren, b.blockType = "value"
  | .inside i v => ∃ c ∈ m.childrenOf "value", c.identity = i ∧ BreaksFree c v

end

/-- Violations are counted sort by sort. -/
theorem MapViolation.encard_setOf (P : MapViolation → Prop) :
    {v | P v}.encard = {n | P (.inner n)}.encard + {n | P (.labels n)}.encard +
      {name | P (.unknownAttribute name)}.encard + {name | P (.unmetDemand name)}.encard +
      {name | P (.absent name)}.encard + {_u : Unit | P .manyValues}.encard +
      {_u : Unit | P .wrongValue}.encard +
      {x : BlockIdentity × MapViolation | P (.inside x.1 x.2)}.encard := by
  have hinside : Function.Injective fun x : BlockIdentity × MapViolation =>
      MapViolation.inside x.1 x.2 := by
    rintro ⟨i, v⟩ ⟨j, w⟩ h
    simpa using h
  rw [encard_constructor (f := MapViolation.inner) fun _ _ => MapViolation.inner.inj,
    encard_constructor (f := MapViolation.labels) fun _ _ => MapViolation.labels.inj,
    encard_constructor (f := MapViolation.unknownAttribute) fun _ _ =>
      MapViolation.unknownAttribute.inj,
    encard_constructor (f := MapViolation.unmetDemand) fun _ _ => MapViolation.unmetDemand.inj,
    encard_constructor (f := MapViolation.absent) fun _ _ => MapViolation.absent.inj,
    encard_constructor (f := fun _ : Unit => MapViolation.manyValues) fun _ _ _ => rfl,
    encard_constructor (f := fun _ : Unit => MapViolation.wrongValue) fun _ _ _ => rfl,
    encard_lastConstructor hinside]
  · simp [add_assoc]
  · intro v h
    cases v with
    | inside i v => exact ⟨(i, v), rfl⟩
    | _ => simp at h

/-- The merged inner blocks of one type have distinct identities. -/
theorem nodup_childrenOf {m : MergedBlock} (hm : m.Made) (blockType : String) :
    ((m.childrenOf blockType).map MergedBlock.identity).Nodup :=
  hm.children.groups.nodup_identities.sublist (List.filter_sublist.map _)

/-- A child of a map has one fault if it is not a `value` block without labels, and none
otherwise. -/
theorem length_mapChild (b : Block) :
    (mapChild b).length = if b.blockType ≠ "value" ∨ b.labels ≠ [] then 1 else 0 := by
  unfold mapChild
  by_cases hb : b.blockType = "value"
  · have hlabels := @Block.labelsRange?_eq_none_iff b
    cases hrange : b.labelsRange? <;> simp_all
  · simp [hb]

section Own

variable {m : MergedBlock} (hm : m.Made)
include hm

/-- One fault for each required attribute that a map lacks. -/
theorem length_mapMissing :
    ((m.header?.toList.flatMap fun range =>
        missingFaults "map" ["for_each", "key"] m.attributes range).length : ℕ∞) =
      {name | Absent ["for_each", "key"] m.attributes name}.encard := by
  obtain ⟨b, -, hheader⟩ := hm.exists_header
  simpa [hheader] using length_missingFaults (by decide) "map" m.attributes b.header

/-- One fault for too many `value` blocks and one for a value that is missing or given twice. -/
theorem length_mapValue_eq :
    ((mapValue m).length : ℕ∞) = {_u : Unit | BreaksMap m .manyValues}.encard +
      {_u : Unit | BreaksMap m .wrongValue}.encard := by
  obtain ⟨b, -, hheader⟩ := hm.exists_header
  have hsome : (∃ b ∈ m.rawChildren, b.blockType = "value") ↔
      0 < (m.rawChildren.filter (·.blockType = "value")).length := by
    simp [List.length_pos_iff_exists_mem]
  simp only [BreaksMap, hsome, ← AttributeTable.has_iff, encard_unit]
  unfold mapValue
  generalize (m.rawChildren.filter (·.blockType = "value")).length = blocks
  cases hhas : m.attributes.has "value" <;> rcases blocks with _ | _ | blocks <;>
    simp [hheader, at?, one_add_one_eq_two]

/-- What is reported of a map itself. -/
theorem length_mapOwnFaults_eq :
    ((mapOwnFaults m).length : ℕ∞) =
      {n | BreaksMap m (.inner n)}.encard + {n | BreaksMap m (.labels n)}.encard +
        {name | BreaksMap m (.unknownAttribute name)}.encard +
        {name | BreaksMap m (.unmetDemand name)}.encard +
        {name | BreaksMap m (.absent name)}.encard +
        {_u : Unit | BreaksMap m .manyValues}.encard +
        {_u : Unit | BreaksMap m .wrongValue}.encard := by
  have hlabels : ((mapLabels m).length : ℕ∞) = {n | BreaksMap m (.labels n)}.encard := by
    simp only [BreaksMap]
    rw [encard_places, mapLabels, List.length_map]
  have hinner : ((m.rawChildren.flatMap mapChild).length : ℕ∞) =
      {n | BreaksMap m (.inner n)}.encard := by
    simp only [BreaksMap]
    rw [encard_places, length_flatMap_ite fun b _ => length_mapChild b]
  have hattributes :
      ((attributeFaults "map" mapAttributes m.attributes).length : ℕ∞) =
        {name | BreaksMap m (.unknownAttribute name)}.encard +
          {name | BreaksMap m (.unmetDemand name)}.encard :=
    length_attributeFaults_eq (by decide) "map" m.attributes
  have hmissing := length_mapMissing hm
  have hvalue := length_mapValue_eq hm
  simp only [mapOwnFaults, List.length_append, Nat.cast_add, hlabels, hinner, hattributes,
    hmissing, hvalue, BreaksMap]
  ac_rfl

end Own

/-- Every violation of the map rule is reported once: by induction on the merged block, for maps and
for the blocks that hold them at once. -/
theorem encard_breaksMap_and_breaksFree : ∀ m : MergedBlock, m.Made →
    {v | BreaksMap m v}.encard = (mapFaults m).length ∧
      {v | BreaksFree m v}.encard = (freeFaults m).length
  | ⟨identity, attributes, origins, children⟩, hm => by
    have ih : ∀ c ∈ children, {v | BreaksMap c v}.encard = (mapFaults c).length ∧
        {v | BreaksFree c v}.encard = (freeFaults c).length :=
      fun c hc => encard_breaksMap_and_breaksFree c (hm.child hc)
    generalize hself : (⟨identity, attributes, origins, children⟩ : MergedBlock) = m at hm
    have hchildren : m.children = children := by rw [← hself]
    have hmem : ∀ blockType, ∀ c ∈ m.childrenOf blockType, c ∈ children :=
      fun blockType c hc => hchildren ▸ (List.mem_filter.1 hc).1
    have hvalues := encard_sigma (nodup_childrenOf hm "value")
      fun c hc => (ih c (hmem "value" c hc)).2
    have hmaps := encard_sigma (nodup_childrenOf hm "map")
      fun c hc => (ih c (hmem "map" c hc)).1
    constructor
    · rw [mapFaults_eq, List.length_append, Nat.cast_add, length_mapOwnFaults_eq hm,
        List.length_flatMap, ← hvalues, MapViolation.encard_setOf]
      simp only [BreaksMap]
    · rw [freeFaults_eq, List.length_append, Nat.cast_add, List.length_flatMap, ← hmaps,
        MapViolation.encard_setOf]
      simp [BreaksFree, unknownChildren, encard_places]

end Blocks

end ScopeConfig
