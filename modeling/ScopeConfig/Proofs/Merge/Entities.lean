import Mathlib.Data.List.Nodup
import ScopeConfig.Proofs.Merge.Complete

/-!
# Merged blocks at every depth

Whatever is merged into a table, and whatever conflicts there are, the merged blocks of the table
are the blocks given to it, grouped by identity, and so are the children of every merged block with
respect to the inner blocks of its origins, at every depth. The attributes of a merged block are the
first of each name among those of its origins.

`Fused` says so of a list of merged blocks and the blocks that were fused into them. Fusing one more
block keeps it, at all depths at once: the block goes to the entry of its identity, and its inner
blocks to the children of that entry.

## Main statements

* `Fused.absorbAll`: merged blocks stay fused from the blocks that were merged into them.
* `MergeTable.merged_shape`: the merged blocks of a table after any operations.
-/

namespace ScopeConfig

open Syntax

/-! ## First occurrences -/

section EraseDups

variable {α : Type} [BEq α] [LawfulBEq α]

/-- What is left of a list without its repetitions has no duplicates. -/
theorem nodup_eraseDups (l : List α) : l.eraseDups.Nodup := by
  induction l using List.reverseRecOn with
  | nil => simp
  | append_singleton l a ih =>
    rw [eraseDups_concat]
    by_cases ha : a ∈ l
    · rwa [if_pos ha]
    · rw [if_neg ha]
      refine List.nodup_append.2 ⟨ih, by simp, fun b hb c hc heq => ha ?_⟩
      rwa [← List.mem_singleton.1 hc, ← heq, ← List.mem_eraseDups]

end EraseDups

/-! ## Attributes -/

/-- A table has the attributes `as` as far as names allow: every name once, in the order in which
the names occur first, each with its first attribute. -/
structure FirstOf (t : AttributeTable) (as : List Attribute) : Prop where
  names_eq : t.names = (as.map Attribute.name).eraseDups
  find?_eq : ∀ name, t.find? name = as.find? (·.name = name)

namespace FirstOf

variable {t : AttributeTable} {as : List Attribute}

theorem empty : FirstOf .empty [] :=
  ⟨rfl, fun _ => rfl⟩

/-- An attribute whose name is taken is left out. -/
theorem skip (h : FirstOf t as) {a : Attribute} (ha : a.name ∈ t.names) :
    FirstOf t (as ++ [a]) where
  names_eq := by
    rw [h.names_eq, List.mem_eraseDups] at ha
    rw [List.map_append, List.map_singleton, eraseDups_concat, if_pos ha, h.names_eq]
  find?_eq name := by
    rw [List.find?_append, ← h.find?_eq]
    by_cases hname : a.name = name
    · cases hfind : t.find? name with
      | some first => simp
      | none => exact (AttributeTable.find?_eq_none_iff.1 hfind (hname ▸ ha)).elim
    · simp [hname]

/-- An attribute whose name is new comes at the end. -/
theorem add (h : FirstOf t as) {a : Attribute} (ha : a.name ∉ t.names) :
    FirstOf (t.add a) (as ++ [a]) where
  names_eq := by
    have hnew : a.name ∉ as.map Attribute.name := by rwa [h.names_eq, List.mem_eraseDups] at ha
    rw [AttributeTable.names, AttributeTable.entries_add_of_not_mem ha, List.map_append,
      List.map_append, List.map_singleton, eraseDups_concat, if_neg hnew, ← h.names_eq]
    rfl
  find?_eq name := by
    rw [AttributeTable.find?, AttributeTable.entries_add_of_not_mem ha, List.find?_append,
      List.find?_append, ← h.find?_eq]
    rfl

/-- Absorbing attributes keeps the first of each name, whether names are taken or not. -/
theorem absorbAttributes (h : FirstOf t as) (describe : String → SourceRange → Redeclaration)
    (more : List Attribute) :
    FirstOf (ScopeConfig.absorbAttributes describe t more).1 (as ++ more) := by
  induction more generalizing t as with
  | nil => simpa [ScopeConfig.absorbAttributes] using h
  | cons a more ih =>
    rw [List.append_cons]
    unfold ScopeConfig.absorbAttributes
    split
    · rename_i first hfind
      have htaken : a.name ∈ t.names := by
        by_contra hnew
        simp [AttributeTable.find?_eq_none_iff.2 hnew] at hfind
      exact ih (h.skip htaken)
    · rename_i hfind
      exact ih (h.add (AttributeTable.find?_eq_none_iff.1 hfind))

end FirstOf

namespace MergedBlock

/-- The attributes of all origins, one origin after the other. -/
def rawAttributes (m : MergedBlock) : List Attribute :=
  m.origins.flatMap (·.attributes.entries)

/-! ## One more block -/

section Absorb

variable (m : MergedBlock) (b : Block)

/-- Fusing a block adds its attributes to those that were given. -/
@[simp] theorem rawAttributes_absorb :
    (m.absorb b).1.rawAttributes = m.rawAttributes ++ b.attributes.entries := by
  simp [rawAttributes]

/-- Fusing a block adds its inner blocks to those that were given. -/
@[simp] theorem rawChildren_absorb : (m.absorb b).1.rawChildren = m.rawChildren ++ b.blocks := by
  simp [rawChildren]

/-- The children after a block is fused: those before, with its inner blocks fused into them. -/
theorem children_absorb : (m.absorb b).1.children = (absorbAll m.children b.blocks).1 := by
  cases b
  simp [absorb]

end Absorb

/-! ## All depths -/

/-- The merged blocks `es` are made of the blocks `bs`: they are the groups of these by identity,
each has the first attribute of each name of its origins, and its children are made of the inner
blocks of its origins in the same way. -/
inductive Fused : List MergedBlock → List Block → Prop
  | intro {es : List MergedBlock} {bs : List Block} (groups : Groups es bs)
    (attributes : ∀ m ∈ es, FirstOf m.attributes m.rawAttributes)
    (children : ∀ m ∈ es, Fused m.children m.rawChildren) : Fused es bs

namespace Fused

variable {es : List MergedBlock} {bs : List Block}

/-- Merged blocks are the groups of the blocks they are made of. -/
theorem groups (h : Fused es bs) : Groups es bs := by
  cases h
  assumption

/-- Every merged block has the first attribute of each name of its origins. -/
theorem attributes (h : Fused es bs) : ∀ m ∈ es, FirstOf m.attributes m.rawAttributes := by
  cases h
  assumption

/-- The children of every merged block are made of the inner blocks of its origins. -/
theorem children (h : Fused es bs) : ∀ m ∈ es, Fused m.children m.rawChildren := by
  cases h
  assumption

theorem nil : Fused [] [] :=
  .intro .nil (by simp) (by simp)

/-- The merged block of an identity, present or not, has the first attribute of each name of its
origins. -/
theorem attributes_find (h : Fused es bs) (i : BlockIdentity) :
    FirstOf (find es i).attributes (find es i).rawAttributes := by
  rcases find_cases es i with ⟨hmem, -⟩ | ⟨hnew, -⟩
  · exact h.attributes _ hmem
  · rw [hnew]
    exact .empty

/-- The children of the merged block of an identity, present or not, are made of the inner blocks of
its origins. -/
theorem children_find (h : Fused es bs) (i : BlockIdentity) :
    Fused (find es i).children (find es i).rawChildren := by
  rcases find_cases es i with ⟨hmem, -⟩ | ⟨hnew, -⟩
  · exact h.children _ hmem
  · rw [hnew]
    exact nil

/-- Fusing a block into the entry of its identity, when the children of that entry are in order. -/
theorem absorb (h : Fused es bs) {b : Block}
    (hchildren : Fused ((find es b.identity).absorb b).1.children
      ((find es b.identity).absorb b).1.rawChildren) :
    Fused (put es ((find es b.identity).absorb b).1) (bs ++ [b]) := by
  refine .intro (h.groups.absorb b) (fun m hm => ?_) (fun m hm => ?_)
  · rcases mem_put hm with rfl | ⟨hmem, -⟩
    · rw [attributes_absorb, rawAttributes_absorb]
      exact (h.attributes_find b.identity).absorbAttributes _ _
    · exact h.attributes m hmem
  · rcases mem_put hm with rfl | ⟨hmem, -⟩
    · exact hchildren
    · exact h.children m hmem

/-- A merged block and the list that it stands in are fused together: by induction on the block that
is fused, for every state that the entries may be in. -/
theorem absorb_and_absorbAll :
    (∀ (m : MergedBlock) (b : Block), Fused m.children m.rawChildren →
        Fused (m.absorb b).1.children (m.absorb b).1.rawChildren) ∧
      ∀ (es : List MergedBlock) (cs bs : List Block), Fused es bs →
        Fused (MergedBlock.absorbAll es cs).1 (bs ++ cs) := by
  have h := absorb.mutual_induct
    (fun m b => Fused m.children m.rawChildren →
      Fused (m.absorb b).1.children (m.absorb b).1.rawChildren)
    (fun es cs => ∀ bs, Fused es bs → Fused (MergedBlock.absorbAll es cs).1 (bs ++ cs))
  apply h
  · intro m blockType labels attributes blocks range typeRange braceRange t faults _ children
      inner _ ih hm
    rw [children_absorb, rawChildren_absorb]
    exact ih _ hm
  · intro es bs h
    simpa [MergedBlock.absorbAll] using h
  · intro es c cs m faults hm children inner _ ihBlock ihRest bs h
    have hput := h.absorb (ihBlock (h.children_find c.identity))
    rw [hm] at hput
    have hrest := ihRest _ hput
    simpa [MergedBlock.absorbAll, hm] using hrest

/-- Merged blocks stay fused from the blocks that were merged into them. -/
theorem absorbAll (h : Fused es bs) (cs : List Block) :
    Fused (MergedBlock.absorbAll es cs).1 (bs ++ cs) :=
  absorb_and_absorbAll.2 es cs bs h

end Fused

/-- A merged block among `es` or, at any depth, among their children. -/
inductive Within (es : List MergedBlock) : MergedBlock → Prop
  | top {m : MergedBlock} (h : m ∈ es) : Within es m
  | child {m c : MergedBlock} (h : Within es m) (hc : c ∈ m.children) : Within es c

/-- No two groups have the same identity. -/
theorem Groups.nodup_identities {es : List MergedBlock} {bs : List Block} (h : Groups es bs) :
    (es.map identity).Nodup :=
  h.identities ▸ nodup_eraseDups _

/-- A group has a block. -/
theorem Groups.origins_ne_nil {es : List MergedBlock} {bs : List Block} (h : Groups es bs)
    {m : MergedBlock} (hm : m ∈ es) : m.origins ≠ [] := by
  have hid : m.identity ∈ (bs.map Block.identity).eraseDups :=
    h.identities ▸ List.mem_map_of_mem hm
  obtain ⟨b, hb, hbid⟩ := List.mem_map.1 (List.mem_eraseDups.1 hid)
  rw [h.origins m hm]
  exact List.ne_nil_of_mem (List.mem_filter.2 ⟨hb, by simpa using hbid⟩)

/-- Each block is an origin of exactly one group. -/
theorem Groups.existsUnique_origin {es : List MergedBlock} {bs : List Block} (h : Groups es bs)
    {b : Block} (hb : b ∈ bs) : ∃! m, m ∈ es ∧ b ∈ m.origins := by
  have hid : b.identity ∈ es.map identity := by
    rw [h.identities, List.mem_eraseDups]
    exact List.mem_map_of_mem hb
  obtain ⟨m, hm, hmid⟩ := List.mem_map.1 hid
  refine ⟨m, ⟨hm, ?_⟩, ?_⟩
  · rw [h.origins m hm, List.mem_filter]
    exact ⟨hb, by simp [hmid]⟩
  · rintro m' ⟨hm', hb'⟩
    have hmid' : b.identity = m'.identity := by
      rw [h.origins m' hm', List.mem_filter] at hb'
      simpa using hb'.2
    exact List.inj_on_of_nodup_map h.nodup_identities hm' hm (hmid'.symm.trans hmid.symm)

/-- What holds of fused blocks holds of every merged block at every depth. -/
theorem Fused.of_within {es : List MergedBlock} {bs : List Block} (h : Fused es bs)
    {m : MergedBlock} (hm : Within es m) :
    FirstOf m.attributes m.rawAttributes ∧ Fused m.children m.rawChildren := by
  induction hm with
  | top hmem => exact ⟨h.attributes _ hmem, h.children _ hmem⟩
  | child _ hc ih => exact ⟨ih.2.attributes _ hc, ih.2.children _ hc⟩

end MergedBlock

namespace MergeTable

/-! ## Operations on a table -/

/-- Something that is merged into a table. -/
inductive Operation where
  | attributes (given : AttributeTable)
  | block (given : Block)
  | blocks (given : List Block)
  | body (given : Body)

/-- The blocks that an operation merges. -/
def Operation.given : Operation → List Block
  | attributes _ => []
  | block b => [b]
  | blocks bs => bs
  | body b => b.blocks

/-- Merges what an operation gives. -/
def apply (t : MergeTable) : Operation → MergeTable × List Diagnostic
  | .attributes given => t.mergeAttributes given
  | .block given => t.mergeBlock given
  | .blocks given => t.mergeBlocks given
  | .body given => t.mergeBody given

/-- Carries out operations, one after the other, whether there are errors or not. -/
def applyAll (t : MergeTable) : List Operation → MergeTable × List Diagnostic
  | [] => (t, [])
  | op :: ops =>
    let (t, faults) := t.apply op
    let (t, more) := t.applyAll ops
    (t, faults ++ more)

/-- A relation between the blocks that were given and the table which merging attributes and merging
one block preserve. -/
structure Preserved (P : List Block → MergeTable → Prop) : Prop where
  attributes : ∀ {bs : List Block} {t : MergeTable} (given : AttributeTable),
    P bs t → P bs (t.mergeAttributes given).1
  block : ∀ {bs : List Block} {t : MergeTable} (b : Block),
    P bs t → P (bs ++ [b]) (t.mergeBlock b).1

namespace Preserved

variable {P : List Block → MergeTable → Prop} {bs : List Block} {t : MergeTable}

/-- What merging one block preserves, merging any blocks preserves. -/
theorem mergeBlocks (hP : Preserved P) (h : P bs t) (cs : List Block) :
    P (bs ++ cs) (t.mergeBlocks cs).1 := by
  induction cs generalizing t bs with
  | nil => simpa [MergeTable.mergeBlocks] using h
  | cons c cs ih =>
    have hrest := ih (hP.block c h)
    simpa [MergeTable.mergeBlocks] using hrest

/-- What merging one block and merging attributes preserve, every operation preserves. -/
theorem apply (hP : Preserved P) (h : P bs t) (op : Operation) :
    P (bs ++ op.given) (t.apply op).1 := by
  cases op with
  | attributes given => simpa [Operation.given, MergeTable.apply] using hP.attributes given h
  | block given => exact hP.block given h
  | blocks given => exact hP.mergeBlocks h given
  | body given => exact hP.mergeBlocks (hP.attributes given.attributes h) given.blocks

/-- The relation holds after any operations: by induction on these, whatever errors they found. -/
theorem applyAll (hP : Preserved P) (h : P bs t) (ops : List Operation) :
    P (bs ++ ops.flatMap Operation.given) (t.applyAll ops).1 := by
  induction ops generalizing t bs with
  | nil => simpa [MergeTable.applyAll] using h
  | cons op ops ih =>
    have hrest := ih (hP.apply h op)
    simpa [MergeTable.applyAll] using hrest

end Preserved

/-- The blocks of those types that are merged by label. -/
def fusedBlocks (policies : List (String × MergePolicy)) (bs : List Block) : List Block :=
  bs.filter fun b => policyFor policies b.blockType = some .mergeByLabel

/-- A table with these policies into which the blocks were merged, with or without errors. -/
structure Merged (policies : List (String × MergePolicy)) (bs : List Block) (t : MergeTable) :
    Prop where
  policies_eq : t.policies = policies
  fused : MergedBlock.Fused t.merged (fusedBlocks policies bs)

namespace Merged

variable {policies : List (String × MergePolicy)} {bs : List Block} {t : MergeTable}

theorem new (policies : List (String × MergePolicy)) : Merged policies [] (.new policies) :=
  ⟨rfl, .nil⟩

/-- A block that is not fused leaves the merged blocks as they were. -/
theorem keep (h : Merged policies bs t) {b : Block} {t' : MergeTable}
    (hpolicy : policyFor policies b.blockType ≠ some .mergeByLabel)
    (hpolicies : t'.policies = t.policies) (hmerged : t'.merged = t.merged) :
    Merged policies (bs ++ [b]) t' where
  policies_eq := hpolicies.trans h.policies_eq
  fused := by
    rw [hmerged]
    simpa [fusedBlocks, hpolicy] using h.fused

/-- Merging a block adds it to the blocks that were merged, with or without an error. -/
theorem mergeBlock (h : Merged policies bs t) (b : Block) :
    Merged policies (bs ++ [b]) (t.mergeBlock b).1 := by
  have hcase := t.mergeCase b
  rw [policy?_eq_policyFor, h.policies_eq] at hcase
  generalize hpolicy : policyFor policies b.blockType = policy at hcase
  generalize t.mergeBlock b = result at hcase ⊢
  cases hcase with
  | fused =>
    refine ⟨h.policies_eq, ?_⟩
    have hfused := h.fused.absorbAll [b]
    simpa [fusedBlocks, hpolicy] using hfused
  | unknown | appended | repeated | unique | replaced | added =>
    exact h.keep (by simp [hpolicy]) rfl rfl

/-- Merging attributes leaves the merged blocks as they were. -/
theorem mergeAttributes (h : Merged policies bs t) (given : AttributeTable) :
    Merged policies bs (t.mergeAttributes given).1 :=
  ⟨h.policies_eq, h.fused⟩

/-- Being the table of the given blocks is preserved by every operation. -/
theorem preserved (policies : List (String × MergePolicy)) : Preserved (Merged policies) :=
  ⟨fun given h => h.mergeAttributes given, fun b h => h.mergeBlock b⟩

/-- After any operations a table is that of all the blocks they gave. -/
theorem applyAll (h : Merged policies bs t) (ops : List Operation) :
    Merged policies (bs ++ ops.flatMap Operation.given) (t.applyAll ops).1 :=
  (preserved policies).applyAll h ops

end Merged

/-- The shape of the merged blocks of a table, after any operations on it and whatever errors they
found. At the top they are the groups, by identity and in the order in which the identities were
first seen, of all blocks given to the table whose type is merged by label; the origins of each are
the blocks of its identity in order. Every merged block, at any depth, has every name among the
attributes of its origins once, in the order in which the names occur first and with the first
attribute of the name, and its children are the groups of the inner blocks of its origins, each of
which is an origin of exactly one child. -/
theorem merged_shape (policies : List (String × MergePolicy)) (ops : List Operation) :
    let es := ((new policies).applyAll ops).1.merged
    MergedBlock.Groups es (fusedBlocks policies (ops.flatMap Operation.given)) ∧
      ∀ m, MergedBlock.Within es m →
        FirstOf m.attributes m.rawAttributes ∧ MergedBlock.Groups m.children m.rawChildren ∧
          ∀ b ∈ m.rawChildren, ∃! c, c ∈ m.children ∧ b ∈ c.origins := by
  intro es
  have hmerged := (Merged.new policies).applyAll ops
  rw [List.nil_append] at hmerged
  refine ⟨hmerged.fused.groups, fun m hm => ?_⟩
  obtain ⟨hattributes, hchildren⟩ := hmerged.fused.of_within hm
  exact ⟨hattributes, hchildren.groups, fun b hb => hchildren.groups.existsUnique_origin hb⟩

/-! ## A map in two parts -/

/-- Two `globals` blocks that declare one map between them and name its key twice. -/
def splitMap : String :=
  "globals\x7bmap m\x7bkey=1\x7d\x7d\nglobals\x7bmap m\x7bkey=2\nvalue=3\x7d\x7d"

/-- Only the `globals` blocks, which are merged by label. -/
def globalsOnly : List (String × MergePolicy) := [("globals", .mergeByLabel)]

/-- The merged blocks inside those of `splitMap`. -/
def splitMapChildren (body : Body) : List MergedBlock :=
  ((new globalsOnly).applyAll [.body body]).1.merged.flatMap (·.children)

/-- The two `map` blocks of the text make one map with two origins and the attributes of both. -/
theorem splitMapChildren_eq :
    (Body.parse "/s/a.tm" splitMap).toOption.map (fun body =>
        (splitMapChildren body).map fun m => (m.labels, m.origins.length, m.attributes.names)) =
      some [(["m"], 2, ["key", "value"])] := by
  decide +kernel

/-- The parts of the map are one merged block, with the first `key` although the second is an
error. -/
theorem merged_shape_splitMap :
    ∃ body m, Body.parse "/s/a.tm" splitMap = .ok body ∧
      MergedBlock.Within ((new globalsOnly).applyAll [.body body]).1.merged m ∧
      m.origins.length = 2 ∧ m.attributes.names = ["key", "value"] ∧
      FirstOf m.attributes m.rawAttributes := by
  obtain ⟨body, hparse, hchildren⟩ := Option.map_eq_some_iff.1 splitMapChildren_eq
  obtain ⟨m, hsingle, hfields⟩ := List.map_eq_singleton_iff.1 hchildren
  have hm : m ∈ splitMapChildren body := by rw [hsingle]; exact List.mem_singleton_self m
  obtain ⟨parent, hparent, hchild⟩ := List.mem_flatMap.1 hm
  have hwithin : MergedBlock.Within ((new globalsOnly).applyAll [.body body]).1.merged m :=
    .child (.top hparent) hchild
  simp only [Prod.mk.injEq] at hfields
  refine ⟨body, m, ?_, hwithin, hfields.2.1, hfields.2.2, ?_⟩
  · cases hbody : Body.parse "/s/a.tm" splitMap with
    | error faults => simp [hbody, Except.toOption] at hparse
    | ok found =>
      rw [hbody] at hparse
      exact congrArg Except.ok (Option.some.inj hparse)
  · exact ((merged_shape globalsOnly [.body body]).2 m hwithin).1

end MergeTable

end ScopeConfig
