import ScopeConfig.Proofs.Blocks.Located
import ScopeConfig.Proofs.Blocks.OrderFree
import ScopeConfig.Proofs.Glob.Literal

/-!
# The map rule, by its form

`freeFaults` and `mapFaults` walk through merged blocks and look at three things at once: at what
was merged, at the inner blocks as they were written, and at every block that something was merged
from. Here the rule is said without the walk. A map is well formed (`MapForm`) apart from the maps
inside its value, and it obeys the rule (`MapRule`) if these do so in turn.

## Main statements

* `mapReports_eq_nil_iff`: nothing is wrong with a map itself when it is well formed.
* `freeFaults_eq_nil_iff`: the walk finds nothing when the rule is obeyed at every depth.
* `inBlock_mapReports`: what is wrong with a map itself is shown inside its own blocks.
* `map_rule_exact`: both, for whatever the merging of blocks produces.
-/

namespace ScopeConfig

open Syntax

/-- A table has an attribute exactly if the name is one of its names. -/
theorem Syntax.AttributeTable.has_iff {t : AttributeTable} {name : String} :
    t.has name = true ↔ name ∈ t.names := by
  rw [AttributeTable.has, Option.isSome_iff_ne_none, ne_eq, AttributeTable.find?_eq_none_iff,
    Decidable.not_not]

/-- The first attributes of their names are among the attributes that they are taken from. -/
theorem FirstOf.subset {t : AttributeTable} {as : List Attribute} (h : FirstOf t as)
    {a : Attribute} (ha : a ∈ t.entries) : a ∈ as := by
  have hfind : t.find? a.name = some a := by
    unfold AttributeTable.find?
    rw [List.find?_eq_some_iff_append]
    obtain ⟨before, after, hentries⟩ := List.append_of_mem ha
    refine ⟨by simp, before, after, hentries, fun b hb => ?_⟩
    have hnodup := t.nodup
    rw [hentries, List.map_append, List.nodup_append] at hnodup
    have hne := hnodup.2.2 b.name (List.mem_map_of_mem hb) a.name (by simp)
    simpa using hne
  exact List.mem_of_find?_eq_some (h.find?_eq a.name ▸ hfind)

namespace MergedBlock

/-! ## Blocks that were merged -/

/-- What holds of a merged block that blocks were fused into: it has some of them, all of its
identity, the first attribute of each of their names, and children that are made of the blocks
inside them. -/
structure Made (m : MergedBlock) : Prop where
  origins_ne_nil : m.origins ≠ []
  identity_eq : ∀ b ∈ m.origins, b.identity = m.identity
  attributes : FirstOf m.attributes m.rawAttributes
  children : Fused m.children m.rawChildren

/-- Each member of a list merged from blocks was itself made by merging blocks. -/
theorem Fused.made {es : List MergedBlock} {bs : List Block} (h : Fused es bs) {m : MergedBlock}
    (hm : m ∈ es) : m.Made where
  origins_ne_nil := h.groups.origins_ne_nil hm
  identity_eq b hb := by
    rw [h.groups.origins m hm, List.mem_filter] at hb
    simpa using hb.2
  attributes := h.attributes m hm
  children := h.children m hm

/-- A child of a merged block was made by merging blocks. -/
theorem Made.child {m c : MergedBlock} (h : m.Made) (hc : c ∈ m.children) : c.Made :=
  h.children.made hc

/-- A child of a given type of a merged block was made by merging blocks. -/
theorem Made.childOf {m c : MergedBlock} (h : m.Made) {blockType : String}
    (hc : c ∈ m.childrenOf blockType) : c.Made :=
  h.child (List.mem_filter.1 hc).1

/-- Each block at any depth of a list merged from blocks was made by merging blocks. -/
theorem Fused.made_of_within {es : List MergedBlock} {bs : List Block} (h : Fused es bs)
    {m : MergedBlock} (hm : Within es m) : m.Made := by
  induction hm with
  | top hmem => exact h.made hmem
  | child _ hc ih => exact ih.child hc

/-- An origin of a child stands in an origin of the parent. -/
theorem Made.exists_parent {m c : MergedBlock} (h : m.Made) (hc : c ∈ m.children) {b : Block}
    (hb : b ∈ c.origins) : ∃ o ∈ m.origins, b ∈ o.blocks := by
  rw [h.children.groups.origins c hc, List.mem_filter] at hb
  exact List.mem_flatMap.1 hb.1

/-- What merged blocks are made of are the blocks that were fused, or blocks inside these. -/
theorem Fused.among_of_within {es : List MergedBlock} {bs : List Block} (h : Fused es bs)
    {m : MergedBlock} (hm : Within es m) : ∀ b ∈ m.origins, b.Among bs := by
  induction hm with
  | top hmem =>
    intro b hb
    rw [h.groups.origins _ hmem, List.mem_filter] at hb
    exact .top hb.1
  | child hparent hc ih =>
    intro b hb
    obtain ⟨o, ho, hin⟩ := (h.made_of_within hparent).exists_parent hc hb
    exact .inner (ih o ho) hin

/-- A merged block is reported at the header of one of the blocks it was merged from. -/
theorem Made.exists_header {m : MergedBlock} (h : m.Made) :
    ∃ b ∈ m.origins, m.header? = some b.header := by
  obtain ⟨b, rest, horigins⟩ := List.exists_cons_of_ne_nil h.origins_ne_nil
  exact ⟨b, horigins ▸ List.mem_cons_self, by rw [header?, horigins]; rfl⟩

end MergedBlock

namespace Blocks

/-! ## The rule -/

/-- A map as it should be, apart from the maps inside its value: one label; the attributes
`for_each` and `key`, and no others but `value` and `iterator`; an iterator that is one word; inner
blocks that are `value` blocks without labels, at most one of them; a value that is given either as
an attribute or as a block; and only maps inside the block. -/
structure MapForm (m : MergedBlock) : Prop where
  label : m.labels.length = 1
  allowed : ∀ a ∈ m.attributes.entries, a.name ∈ ["for_each", "key", "value", "iterator"]
  for_each : "for_each" ∈ m.attributes.names
  key : "key" ∈ m.attributes.names
  iterator : ∀ a ∈ m.attributes.entries, a.name = "iterator" →
    ∃ t word, a.expr.tokens = [t] ∧ t.token = .word word
  inner : ∀ b ∈ m.rawChildren, b.blockType = "value" ∧ b.labels = []
  at_most_one : (m.rawChildren.filter (·.blockType = "value")).length ≤ 1
  value : "value" ∈ m.attributes.names ↔ ∀ b ∈ m.rawChildren, b.blockType ≠ "value"
  maps : ∀ v ∈ m.childrenOf "value", ∀ b ∈ v.rawChildren, b.blockType = "map"

/-- A map that is well formed, and with it the maps inside its value, at every depth. -/
inductive MapRule : MergedBlock → Prop
  | intro {m : MergedBlock} (form : MapForm m)
    (inside : ∀ v ∈ m.childrenOf "value", ∀ c ∈ v.childrenOf "map", MapRule c) : MapRule m

/-- A block that holds only maps, all of which obey the rule. -/
structure FreeRule (m : MergedBlock) : Prop where
  maps : ∀ b ∈ m.rawChildren, b.blockType = "map"
  inside : ∀ c ∈ m.childrenOf "map", MapRule c

/-- A map among the children of a merged block, or inside the value of such a map, at any depth. -/
inductive MapIn (m : MergedBlock) : MergedBlock → Prop
  | child {c : MergedBlock} (h : c ∈ m.childrenOf "map") : MapIn m c
  | value {c v d : MergedBlock} (h : MapIn m c) (hv : v ∈ c.childrenOf "value")
    (hd : d ∈ v.childrenOf "map") : MapIn m d

/-! ## What is wrong with a map itself -/

/-- An expression is a keyword exactly if it is one word. -/
theorem keyword?_eq_some_iff {e : Expr} {word : String} :
    e.keyword? = some word ↔ ∃ t, e.tokens = [t] ∧ t.token = .word word := by
  unfold Expr.keyword?
  constructor
  · intro h
    split at h
    · rename_i htokens
      obtain rfl := Option.some.inj h
      exact ⟨_, htokens, rfl⟩
    · cases h
  · rintro ⟨⟨token, start, stop⟩, htokens, rfl⟩
    rw [htokens]

/-- An expression has a keyword exactly if it is one word, whichever. -/
theorem isSome_keyword?_iff {e : Expr} :
    e.keyword?.isSome = true ↔ ∃ t word, e.tokens = [t] ∧ t.token = .word word := by
  simp only [Option.isSome_iff_exists, keyword?_eq_some_iff]
  exact exists_comm

/-- An attribute of a map is accepted exactly if it is one of the four, and the iterator is a
word. -/
theorem attributeFault_map_eq_nil_iff {a : Attribute} :
    attributeFault "map" mapAttributes a = [] ↔
      a.name ∈ ["for_each", "key", "value", "iterator"] ∧
        (a.name = "iterator" → a.expr.keyword?.isSome = true) := by
  unfold attributeFault mapAttributes
  by_cases hiterator : a.name = "iterator"
  · simp [hiterator, List.lookup_cons, Demand.faults, Option.isSome_iff_ne_none]
  · by_cases hknown : a.name ∈ ["for_each", "key", "value"]
    · simp only [List.mem_cons, List.not_mem_nil, or_false] at hknown
      rcases hknown with hname | hname | hname
      all_goals simp [hname, List.lookup_cons, Demand.faults]
    · simp only [List.mem_cons, List.not_mem_nil, or_false, not_or] at hknown
      obtain ⟨hforEach, hkey, hvalue⟩ := hknown
      simp [List.lookup_cons, beq_false_of_ne hforEach, beq_false_of_ne hkey,
        beq_false_of_ne hvalue, beq_false_of_ne hiterator, hforEach, hkey, hvalue, hiterator]

/-- A child of a map is accepted exactly if it is a `value` block without labels. -/
theorem mapChild_eq_nil_iff {b : Block} :
    mapChild b = [] ↔ b.blockType = "value" ∧ b.labels = [] := by
  unfold mapChild
  by_cases hb : b.blockType = "value"
  · rw [if_pos hb, List.map_eq_nil_iff, Option.toList_eq_nil_iff, and_iff_right hb,
      Block.labelsRange?_eq_none_iff]
  · simp [hb]

/-- The children of a free block are accepted exactly if all of them are maps. -/
theorem unknownChildren_map_eq_nil_iff {m : MergedBlock} :
    unknownChildren ["map"] m = [] ↔ ∀ b ∈ m.rawChildren, b.blockType = "map" := by
  simp [unknownChildren, List.filter_eq_nil_iff]

section Own

variable {m : MergedBlock} (hm : m.Made)
include hm

/-- A label is asked of every origin, and they all have those of the map. -/
theorem mapLabels_eq_nil_iff : mapLabels m = [] ↔ m.labels.length = 1 := by
  have hlength : ∀ b ∈ m.origins, b.labels.length = m.labels.length := by
    intro b hb
    rw [MergedBlock.labels, ← hm.identity_eq b hb]
    exact (List.length_map _).symm
  simp only [mapLabels, List.map_eq_nil_iff, List.filter_eq_nil_iff, decide_eq_true_eq,
    Decidable.not_not]
  constructor
  · intro h
    obtain ⟨b, hb, -⟩ := hm.exists_header
    exact (hlength b hb).symm.trans (h b hb)
  · exact fun h b hb => (hlength b hb).trans h

/-- What has to be there is asked for at the first origin. -/
theorem missing_eq_nil_iff :
    (m.header?.toList.flatMap fun range =>
        missingFaults "map" ["for_each", "key"] m.attributes range) = [] ↔
      "for_each" ∈ m.attributes.names ∧ "key" ∈ m.attributes.names := by
  obtain ⟨b, -, hheader⟩ := hm.exists_header
  simp [hheader, missingFaults, AttributeTable.has_iff, List.filter_eq_nil_iff]

/-- The value of a map is accepted exactly if there is at most one `value` block and either the
attribute or the block, but not both. -/
theorem mapValue_eq_nil_iff :
    mapValue m = [] ↔ (m.rawChildren.filter (·.blockType = "value")).length ≤ 1 ∧
      ("value" ∈ m.attributes.names ↔ ∀ b ∈ m.rawChildren, b.blockType ≠ "value") := by
  obtain ⟨b, -, hheader⟩ := hm.exists_header
  have hnone : (∀ b ∈ m.rawChildren, b.blockType ≠ "value") ↔
      (m.rawChildren.filter (·.blockType = "value")).length = 0 := by
    rw [List.length_eq_zero_iff, List.filter_eq_nil_iff]
    simp
  rw [hnone, ← AttributeTable.has_iff]
  unfold mapValue
  generalize (m.rawChildren.filter (·.blockType = "value")).length = blocks
  cases hhas : m.attributes.has "value" <;> simp [hheader, at?]

/-- What is reported of a map itself: everything but what is reported of the maps inside it. -/
theorem mapOwnFaults_eq_nil_iff :
    mapOwnFaults m = [] ↔ m.labels.length = 1 ∧
      (∀ a ∈ m.attributes.entries, a.name ∈ ["for_each", "key", "value", "iterator"] ∧
        (a.name = "iterator" → a.expr.keyword?.isSome = true)) ∧
      ("for_each" ∈ m.attributes.names ∧ "key" ∈ m.attributes.names) ∧
      (∀ b ∈ m.rawChildren, b.blockType = "value" ∧ b.labels = []) ∧
      (m.rawChildren.filter (·.blockType = "value")).length ≤ 1 ∧
      ("value" ∈ m.attributes.names ↔ ∀ b ∈ m.rawChildren, b.blockType ≠ "value") := by
  simp only [mapOwnFaults, List.append_eq_nil_iff, mapLabels_eq_nil_iff hm,
    missing_eq_nil_iff hm, mapValue_eq_nil_iff hm, attributeFaults, List.flatMap_eq_nil_iff,
    attributeFault_map_eq_nil_iff, mapChild_eq_nil_iff, and_assoc]

end Own

/-- Everything that is reported of a map itself: what is wrong with its labels, attributes and inner
blocks, and the blocks inside its value that are no maps. -/
def mapReports (m : MergedBlock) : List Diagnostic :=
  mapOwnFaults m ++ (m.childrenOf "value").flatMap (unknownChildren ["map"])

/-- Nothing is reported of a map itself exactly if it is well formed. -/
theorem mapReports_eq_nil_iff {m : MergedBlock} (hm : m.Made) :
    mapReports m = [] ↔ MapForm m := by
  rw [mapReports, List.append_eq_nil_iff, mapOwnFaults_eq_nil_iff hm, List.flatMap_eq_nil_iff]
  simp only [unknownChildren_map_eq_nil_iff]
  constructor
  · rintro ⟨⟨hlabel, hattributes, ⟨hforEach, hkey⟩, hinner, hone, hvalue⟩, hmaps⟩
    exact ⟨hlabel, fun a ha => (hattributes a ha).1, hforEach, hkey,
      fun a ha hname => isSome_keyword?_iff.1 ((hattributes a ha).2 hname), hinner, hone, hvalue,
      hmaps⟩
  · intro h
    exact ⟨⟨h.label, fun a ha => ⟨h.allowed a ha,
      fun hname => isSome_keyword?_iff.2 (h.iterator a ha hname)⟩, ⟨h.for_each, h.key⟩, h.inner,
      h.at_most_one, h.value⟩, h.maps⟩

/-- Nothing is wrong with a map exactly if it obeys the rule, and with what is inside a block
exactly if there are only maps, which obey it: by induction on the merged block, for both at
once. -/
theorem mapFaults_and_freeFaults_eq_nil_iff : ∀ m : MergedBlock, m.Made →
    (mapFaults m = [] ↔ MapRule m) ∧ (freeFaults m = [] ↔ FreeRule m)
  | ⟨identity, attributes, origins, children⟩, hm => by
    have ih : ∀ c ∈ children, (mapFaults c = [] ↔ MapRule c) ∧ (freeFaults c = [] ↔ FreeRule c) :=
      fun c hc => mapFaults_and_freeFaults_eq_nil_iff c (hm.child hc)
    generalize hself : (⟨identity, attributes, origins, children⟩ : MergedBlock) = m at hm
    have hchildren : m.children = children := by rw [← hself]
    -- children of a type are children, so the induction hypothesis is there for maps and for values
    have ihOf : ∀ blockType, ∀ c ∈ m.childrenOf blockType,
        (mapFaults c = [] ↔ MapRule c) ∧ (freeFaults c = [] ↔ FreeRule c) :=
      fun blockType c hc => ih c (hchildren ▸ (List.mem_filter.1 hc).1)
    constructor
    -- the unknown blocks in a value are reported by the map as well as by the value
    · have hvalues : mapFaults m = [] ↔
          mapReports m = [] ∧ ∀ v ∈ m.childrenOf "value", freeFaults v = [] := by
        simp only [mapFaults_eq, mapReports, List.append_eq_nil_iff, List.flatMap_eq_nil_iff]
        have hunknown : ∀ v, freeFaults v = [] → unknownChildren ["map"] v = [] :=
          fun v hv => (List.append_eq_nil_iff.1 (freeFaults_eq v ▸ hv)).1
        grind
      rw [hvalues, mapReports_eq_nil_iff hm]
      constructor
      · rintro ⟨hform, hall⟩
        exact .intro hform fun v hv => ((ihOf "value" v hv).2.1 (hall v hv)).inside
      · rintro ⟨hform, hinside⟩
        exact ⟨hform, fun v hv => (ihOf "value" v hv).2.2 ⟨hform.maps v hv, hinside v hv⟩⟩
    · rw [freeFaults_eq, List.append_eq_nil_iff, unknownChildren_map_eq_nil_iff,
        List.flatMap_eq_nil_iff]
      constructor
      · rintro ⟨honly, hall⟩
        exact ⟨honly, fun c hc => (ihOf "map" c hc).1.1 (hall c hc)⟩
      · rintro ⟨honly, hall⟩
        exact ⟨honly, fun c hc => (ihOf "map" c hc).1.2 (hall c hc)⟩

/-! ## Where it is reported -/

/-- The faults of a map are faults of the block it stands in. -/
theorem mem_freeFaults_of_map {m c : MergedBlock} (hc : c ∈ m.childrenOf "map") {d : Diagnostic}
    (hd : d ∈ mapFaults c) : d ∈ freeFaults m := by
  rw [freeFaults_eq, List.mem_append]
  exact .inr (List.mem_flatMap.2 ⟨c, hc, hd⟩)

/-- The faults of the `value` block of a map are faults of the map. -/
theorem mem_mapFaults_of_value {m v : MergedBlock} (hv : v ∈ m.childrenOf "value")
    {d : Diagnostic} (hd : d ∈ freeFaults v) : d ∈ mapFaults m := by
  rw [mapFaults_eq, List.mem_append]
  exact .inr (List.mem_flatMap.2 ⟨v, hv, hd⟩)

/-- What is reported of a map itself is among what is wrong with the map. -/
theorem mem_mapFaults_of_mem_mapReports {m : MergedBlock} {d : Diagnostic}
    (hd : d ∈ mapReports m) : d ∈ mapFaults m := by
  rcases List.mem_append.1 hd with hd | hd
  · rw [mapFaults_eq]
    exact List.mem_append_left _ hd
  · obtain ⟨v, hv, hd⟩ := List.mem_flatMap.1 hd
    refine mem_mapFaults_of_value hv ?_
    rw [freeFaults_eq]
    exact List.mem_append_left _ hd

/-- What is wrong with a map at any depth is reported, whatever other maps do. -/
theorem mem_freeFaults_of_mapIn {m c : MergedBlock} (h : MapIn m c) :
    ∀ d ∈ mapFaults c, d ∈ freeFaults m := by
  induction h with
  | child hc => exact fun d hd => mem_freeFaults_of_map hc hd
  | value _ hv hc ih =>
    exact fun d hd => ih d (mem_mapFaults_of_value hv (mem_freeFaults_of_map hc hd))

/-- A map at any depth of a merged block was made by merging blocks. -/
theorem MapIn.made {m c : MergedBlock} (h : MapIn m c) (hm : m.Made) : c.Made := by
  induction h with
  | child hc => exact hm.childOf hc
  | value _ hv hc ih => exact (ih.childOf hv).childOf hc

/-- The blocks that a map at any depth was merged from are inside those around it. -/
theorem MapIn.nested {m c : MergedBlock} (h : MapIn m c) (hm : m.Made)
    (hnested : ∀ b ∈ m.origins, b.Nested) : ∀ b ∈ c.origins, b.Nested := by
  have hstep : ∀ {m c : MergedBlock} {blockType : String}, m.Made → (∀ b ∈ m.origins, b.Nested) →
      c ∈ m.childrenOf blockType → ∀ b ∈ c.origins, b.Nested := by
    intro m c blockType hm hnested hc b hb
    obtain ⟨o, ho, hbo⟩ := hm.exists_parent (List.mem_filter.1 hc).1 hb
    exact (hnested o ho).inner hbo
  induction h with
  | child hc => exact hstep hm hnested hc
  | value h hv hc ih =>
    exact hstep ((h.made hm).childOf hv) (hstep (h.made hm) ih hv) hc

/-- What is wrong with an inner block of a map is shown inside the block around it. -/
theorem inBlock_mapChild {b c : Block} (hb : b.Nested) (hc : c ∈ b.blocks) :
    ∀ d ∈ mapChild c, d.InBlock b := by
  intro d hd
  unfold mapChild at hd
  split at hd
  · obtain ⟨r, hr, rfl⟩ := List.mem_map.1 hd
    have hlabels := (hb.inner hc).holds.labels r (Option.mem_toList.1 hr)
    exact (Diagnostic.inBlock_schema hlabels _).of_inner (hb.holds.blocks c hc)
  · obtain rfl := List.mem_singleton.1 hd
    exact inBlock_unknownBlock hb hc _

/-- What is wrong with the value of a map is shown at the head of its first block. -/
theorem inBlock_mapValue {m : MergedBlock} {first : Block} (hheader : m.header? = some first.header)
    (hfirst : first.Nested) : ∀ d ∈ mapValue m, d.InBlock first := by
  have hat : ∀ fault, ∀ d ∈ at? m.header? fault, d.InBlock first := by
    intro fault d hd
    rw [hheader] at hd
    obtain rfl := List.mem_singleton.1 hd
    exact Diagnostic.inBlock_schema hfirst.holds.header fault
  intro d hd
  rw [mapValue, List.mem_append] at hd
  rcases hd with hd | hd
  · split at hd
    · exact hat _ d hd
    · cases hd
  · split at hd
    · exact hat _ d hd
    · split at hd
      · exact hat _ d hd
      · cases hd

/-- What is reported of a map itself is shown inside one of the blocks that it was merged from. -/
theorem inBlock_mapReports {m : MergedBlock} (hm : m.Made) (hnested : ∀ b ∈ m.origins, b.Nested) :
    ∀ d ∈ mapReports m, ∃ b ∈ m.origins, d.InBlock b := by
  obtain ⟨first, hfirst, hheader⟩ := hm.exists_header
  intro d hd
  simp only [mapReports, mapOwnFaults, List.mem_append] at hd
  rcases hd with ((((hd | hd) | hd) | hd) | hd) | hd
  · obtain ⟨b, hb, rfl⟩ := List.mem_map.1 hd
    have hmem := (List.mem_filter.1 hb).1
    exact ⟨b, hmem, Diagnostic.inBlock_schema (hnested b hmem).holds.labelsOrHeader _⟩
  · obtain ⟨a, ha, hd⟩ := List.mem_flatMap.1 hd
    obtain ⟨b, hb, hab⟩ := List.mem_flatMap.1 (hm.attributes.subset ha)
    exact ⟨b, hb, inBlock_attributeFault (hnested b hb).holds hab _ _ d hd⟩
  · rw [hheader] at hd
    simp only [Option.toList_some, List.flatMap_cons, List.flatMap_nil, List.append_nil] at hd
    obtain ⟨name, -, rfl⟩ := List.mem_map.1 hd
    exact ⟨first, hfirst, Diagnostic.inBlock_schema (hnested first hfirst).holds.header _⟩
  · obtain ⟨c, hc, hd⟩ := List.mem_flatMap.1 hd
    obtain ⟨b, hb, hcb⟩ := List.mem_flatMap.1 hc
    exact ⟨b, hb, inBlock_mapChild (hnested b hb) hcb d hd⟩
  · exact ⟨first, hfirst, inBlock_mapValue hheader (hnested first hfirst) d hd⟩
  · -- a block inside the value, which stands in an origin of the map
    obtain ⟨v, hv, hd⟩ := List.mem_flatMap.1 hd
    obtain ⟨c, hc, rfl⟩ := List.mem_map.1 hd
    obtain ⟨o, ho, hco⟩ := List.mem_flatMap.1 (List.mem_filter.1 hc).1
    obtain ⟨b, hb, hob⟩ := hm.exists_parent (List.mem_filter.1 hv).1 ho
    exact ⟨b, hb, (inBlock_unknownBlock ((hnested b hb).inner hob) hco _).of_inner
      ((hnested b hb).holds.blocks o hob)⟩

end Blocks

/-! ## What merging produces -/

/-- A merged block, at any depth, that merging makes of the given blocks: in a table, after any
operations that give it the blocks, or where blocks are fused on their own. -/
inductive MergedBlock.Produced (bs : List Block) (m : MergedBlock) : Prop
  | merged {policies : List (String × MergePolicy)} {ops : List MergeTable.Operation}
    (given : ops.flatMap MergeTable.Operation.given = bs)
    (within : Within ((MergeTable.new policies).applyAll ops).1.merged m)
  | fused (within : Within (absorbAll [] bs).1 m)

/-- Whatever merging makes of blocks is fused from some of them. -/
theorem MergedBlock.Produced.exists_fused {bs : List Block} {m : MergedBlock}
    (h : m.Produced bs) : ∃ es cs, Fused es cs ∧ (∀ b ∈ cs, b ∈ bs) ∧ Within es m := by
  cases h with
  | @merged policies ops hgiven hwithin =>
    have hmerged := (MergeTable.Merged.new policies).applyAll ops
    refine ⟨_, _, hmerged.fused, fun b hb => ?_, hwithin⟩
    rw [← hgiven]
    exact (List.mem_filter.1 hb).1
  | fused hwithin => exact ⟨_, _, Fused.nil.absorbAll bs, fun b hb => by simpa using hb, hwithin⟩

namespace Blocks

/-- The map rule is checked exactly, for every merged block that merging produces. Nothing is
reported exactly if every inner block is a map and all of these obey the rule, at every depth. And
for every map at any depth of maps and values that is not well formed itself there is a report about
this map, shown inside one of the blocks that it was merged from, whatever other maps are like. -/
theorem map_rule_exact {bs : List Block} {m : MergedBlock} (h : m.Produced bs) :
    (freeFaults m = [] ↔ FreeRule m) ∧
      ((∀ b ∈ bs, b.Parsed) → ∀ c, MapIn m c → ¬MapForm c →
        ∃ d ∈ mapReports c, d ∈ freeFaults m ∧ ∃ b ∈ c.origins, d.InBlock b) := by
  obtain ⟨es, cs, hfused, hsubset, hwithin⟩ := h.exists_fused
  have hmade := hfused.made_of_within hwithin
  refine ⟨(mapFaults_and_freeFaults_eq_nil_iff m hmade).2, fun hparsed c hc hform => ?_⟩
  have hnested : ∀ b ∈ m.origins, b.Nested := fun b hb =>
    (hfused.among_of_within hwithin b hb).nested fun b hb => (hparsed b (hsubset b hb)).nested
  have hsome : mapReports c ≠ [] := mt (mapReports_eq_nil_iff (hc.made hmade)).1 hform
  obtain ⟨d, hd⟩ := List.exists_mem_of_ne_nil _ hsome
  exact ⟨d, hd, mem_freeFaults_of_mapIn hc d (mem_mapFaults_of_mem_mapReports hd),
    inBlock_mapReports (hc.made hmade) (hc.nested hmade hnested) d hd⟩

/-- A map `a` in two parts, both with a value, and inside one of these a map `b` without
`for_each`. -/
def brokenMaps : String :=
  "globals\x7bmap a\x7bfor_each=1\nkey=2\nvalue\x7bmap b\x7bkey=3\nvalue=4\x7d\x7d\x7d\x7d\n" ++
    "globals\x7bmap a\x7bvalue\x7b\x7d\x7d\x7d"

/-- The maps inside the values of the maps of some merged blocks, with these blocks. -/
def innerMaps (es : List MergedBlock) : List (MergedBlock × MergedBlock) :=
  es.flatMap fun m => (m.childrenOf "map").flatMap fun a => (a.childrenOf "value").flatMap fun v =>
    (v.childrenOf "map").map fun c => (m, c)

/-- The text has one map inside a map: `b`, with a key and a value, in what the two `globals` blocks
merge into. -/
theorem innerMaps_brokenMaps :
    (Body.parse "/s/a.tm" brokenMaps).toOption.map (fun body =>
        (innerMaps (MergedBlock.absorbAll [] body.blocks).1).map fun (m, c) =>
          (m.origins.length, c.labels, c.attributes.names)) =
      some [(2, ["b"], ["key", "value"])] := by
  decide +kernel

/-- The inner map is reported although the map around it is broken as well. -/
theorem map_rule_exact_brokenMaps :
    ∃ body m c, Body.parse "/s/a.tm" brokenMaps = .ok body ∧ m.Produced body.blocks ∧
      MapIn m c ∧ c.labels = ["b"] ∧ ¬MapForm c ∧
      ∃ d ∈ mapReports c, d ∈ freeFaults m ∧ ∃ b ∈ c.origins, d.InBlock b := by
  obtain ⟨body, hparse, hmaps⟩ := Option.map_eq_some_iff.1 innerMaps_brokenMaps
  have hbody : Body.parse "/s/a.tm" brokenMaps = .ok body := Glob.toOption_eq_some_iff.1 hparse
  obtain ⟨⟨m, c⟩, hpair, hfields⟩ := List.map_eq_singleton_iff.1 hmaps
  have hmem : (m, c) ∈ innerMaps (MergedBlock.absorbAll [] body.blocks).1 := by
    rw [hpair]
    exact List.mem_singleton_self _
  obtain ⟨m', hm, hmem⟩ := List.mem_flatMap.1 hmem
  obtain ⟨a, ha, hmem⟩ := List.mem_flatMap.1 hmem
  obtain ⟨v, hv, hmem⟩ := List.mem_flatMap.1 hmem
  obtain ⟨c', hc, heq⟩ := List.mem_map.1 hmem
  obtain ⟨rfl, rfl⟩ := Prod.mk.inj heq
  simp only [Prod.mk.injEq] at hfields
  have hproduced : MergedBlock.Produced body.blocks m' := .fused (.top hm)
  have hin : MapIn m' c' := .value (.child ha) hv hc
  have hform : ¬MapForm c' := by
    intro h
    have hforEach := h.for_each
    simp [hfields.2.2] at hforEach
  exact ⟨body, m', c', hbody, hproduced, hin, hfields.2.1, hform,
    (map_rule_exact hproduced).2 (fun b hb => ⟨_, _, body, hbody, .top hb⟩) c' hin hform⟩

end Blocks

end ScopeConfig
