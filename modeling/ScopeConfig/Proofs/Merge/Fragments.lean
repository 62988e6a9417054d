import ScopeConfig.Proofs.Merge.Fusion

/-!
# Fragments of one block

A block can be declared in fragments: blocks of its identity that have its attributes and inner
blocks between them, where the inner blocks are in fragments in the same way. Fusing the fragments
makes the same merged block as fusing the whole block alone, except for the origins. Of these it is
the same whether one of them has labels, and which identities there are among their inner blocks.

## Main statements

* `Whole`: the one block that blocks are fragments of.
* `exists_whole`: blocks of one identity that are fused without conflicts have a whole block.
* `Whole.sameContent`: fusing fragments against fusing the whole block.
-/

namespace ScopeConfig

open Syntax

/-! ## Whole blocks -/

/-- The blocks `bs` are fragments of the block `whole`. It is of their identity, has all their
attributes in order, and has one inner block for each identity among their inner blocks, in the
order in which the identities occur first: the whole of the inner blocks of that identity. -/
inductive Whole : List Block → Block → Prop
  | intro {bs : List Block} {whole : Block} (identity : ∀ b ∈ bs, b.identity = whole.identity)
    (attributes : whole.attributes.entries = bs.flatMap (·.attributes.entries))
    (identities : whole.blocks.map Block.identity = identitiesOf (bs.flatMap Block.blocks))
    (inner : ∀ c ∈ whole.blocks,
      Whole ((bs.flatMap Block.blocks).filter (·.identity = c.identity)) c) : Whole bs whole

/-- The first occurrences of elements without repetition. -/
theorem eraseDups_eq_self {α : Type} [BEq α] [LawfulBEq α] {l : List α} (h : l.Nodup) :
    l.eraseDups = l := by
  induction l using List.reverseRecOn with
  | nil => rfl
  | append_singleton l a ih =>
    obtain ⟨hl, -, hdisjoint⟩ := List.nodup_append.1 h
    rw [eraseDups_concat, if_neg fun ha => hdisjoint a ha a (List.mem_singleton_self a) rfl, ih hl]

/-- Attributes with distinct names are their names, each with the attribute that is found for it. -/
theorem eq_filterMap_find? {as : List Attribute} (h : (as.map Attribute.name).Nodup) :
    (as.map Attribute.name).filterMap (fun name => as.find? (·.name = name)) = as := by
  have hfind : ∀ a ∈ as, as.find? (·.name = a.name) = some a := fun a ha =>
    (find?_name_eq_some_iff h a.name a).2 ⟨ha, rfl⟩
  rw [List.filterMap_map]
  exact (List.filterMap_congr hfind).trans (List.filterMap_some)

/-- A table has all the attributes in order, if no name is among them twice. -/
theorem FirstOf.entries_eq {t : AttributeTable} {as : List Attribute} (h : FirstOf t as)
    (hnodup : (as.map Attribute.name).Nodup) : t.entries = as := by
  have hnames : t.entries.map Attribute.name = as.map Attribute.name :=
    h.names_eq.trans (eraseDups_eq_self hnodup)
  calc t.entries
    _ = (t.entries.map Attribute.name).filterMap t.find? := (eq_filterMap_find? t.nodup).symm
    _ = (as.map Attribute.name).filterMap fun name => as.find? (·.name = name) := by
      rw [hnames]
      exact List.filterMap_congr fun name _ => h.find?_eq name
    _ = as := eq_filterMap_find? hnodup

/-- A table is determined by its entries. -/
theorem AttributeTable.eq_of_entries {t t' : AttributeTable} (h : t.entries = t'.entries) :
    t = t' := by
  cases t
  cases t'
  simpa using h

namespace MergedBlock

/-! ## Without conflicts -/

/-- Blocks of distinct identities are fused without conflicts when each of them is on its own. -/
theorem faults_absorbAll_of_nodup {es : List MergedBlock} {bs : List Block}
    (hnodup : (es.map identity ++ bs.map Block.identity).Nodup)
    (hone : ∀ b ∈ bs, ((new b.identity).absorb b).2 = []) : (absorbAll es bs).2 = [] := by
  induction bs generalizing es with
  | nil => simp [absorbAll]
  | cons b bs ih =>
    have hnew : b.identity ∉ es.map identity := fun hmem =>
      (List.nodup_append.1 hnodup).2.2 _ hmem _ List.mem_cons_self rfl
    have hfind : find es b.identity = new b.identity :=
      (find_cases es b.identity).elim
        (fun h => (hnew (h.2 ▸ List.mem_map_of_mem h.1)).elim) And.left
    have hput : (put es ((new b.identity).absorb b).1).map identity =
        es.map identity ++ [b.identity] := by
      rw [map_identity_put, identity_absorb]
      exact if_neg hnew
    simp only [absorbAll, hfind, hone b List.mem_cons_self, List.nil_append]
    exact ih (by simpa [hput] using hnodup) fun c hc => hone c (List.mem_cons_of_mem b hc)

/-- What is declared once for every entity is declared once in the entities inside one of them. -/
theorem nodup_inside {bs : List Block} {path : List BlockIdentity}
    (h : ((occurrencesAll path bs).map Occurrence.key).Nodup) (i : BlockIdentity) :
    (((bs.filter (·.identity = i)).flatMap (·.attributes.entries)).map Attribute.name).Nodup ∧
      ((occurrencesAll (path ++ [i]) ((bs.filter (·.identity = i)).flatMap Block.blocks)).map
        Occurrence.key).Nodup := by
  refine ⟨?_, h.sublist ((rawChildren_sublist path i bs).map _)⟩
  have hkeys := h.sublist ((rawAttributes_sublist path i bs).map Occurrence.key)
  rw [List.map_map] at hkeys
  exact .of_map (⟨path, i, ·⟩ : String → EntityName)
    (by simpa [Function.comp_def, Occurrence.key] using hkeys)

mutual

/-- A merged block written as one block, with everything at one place. -/
def asBlock (place : SourceRange) : MergedBlock → Block
  | ⟨identity, attributes, _, children⟩ =>
    ⟨identity.blockType, identity.labels.map (⟨·, place⟩), attributes, asBlocks place children,
      place, place, place⟩

/-- Merged blocks, each written as one block. -/
def asBlocks (place : SourceRange) : List MergedBlock → List Block
  | [] => []
  | m :: ms => asBlock place m :: asBlocks place ms

end

/-- A list of merged blocks is put back block by block. -/
theorem asBlocks_eq_map (place : SourceRange) (ms : List MergedBlock) :
    asBlocks place ms = ms.map (asBlock place) := by
  induction ms with
  | nil => rfl
  | cons m ms ih => rw [asBlocks, ih, List.map_cons]

/-- A merged block that is put back as a block keeps its identity. -/
@[simp] theorem identity_asBlock (place : SourceRange) (m : MergedBlock) :
    (m.asBlock place).identity = m.identity := by
  cases m
  simp [asBlock, Block.identity, Block.labelTexts, Function.comp_def]

/-- A merged block that is put back as a block keeps its attributes. -/
theorem attributes_asBlock (place : SourceRange) (m : MergedBlock) :
    (m.asBlock place).attributes = m.attributes := by
  cases m
  rfl

/-- The inner blocks of a merged block that is put back are its children, put back. -/
theorem blocks_asBlock (place : SourceRange) (m : MergedBlock) :
    (m.asBlock place).blocks = m.children.map (asBlock place) := by
  cases m
  exact asBlocks_eq_map place _

/-- A merged block without conflicts, written as one block, is the whole of its origins: by
induction on the merged blocks, from the outermost on. -/
theorem Fused.whole_asBlock (place : SourceRange) {es : List MergedBlock} {bs : List Block}
    {path : List BlockIdentity} (h : Fused es bs)
    (hnodup : ((occurrencesAll path bs).map Occurrence.key).Nodup) :
    ∀ m ∈ es, Whole m.origins (m.asBlock place) := by
  induction h generalizing path with
  | @intro es bs groups attributes children ih =>
    intro m hm
    have horigins := groups.origins m hm
    obtain ⟨hnames, hinner⟩ := nodup_inside hnodup m.identity
    rw [← horigins] at hnames hinner
    refine .intro (fun b hb => ?_) ?_ ?_ fun c hc => ?_
    · rw [horigins] at hb
      rw [identity_asBlock]
      exact of_decide_eq_true (List.mem_filter.1 hb).2
    · rw [attributes_asBlock]
      exact (attributes m hm).entries_eq hnames
    · rw [blocks_asBlock, List.map_map]
      exact (List.map_congr_left fun c _ => identity_asBlock place c).trans
        (children m hm).groups.identities
    · rw [blocks_asBlock] at hc
      obtain ⟨n, hn, rfl⟩ := List.mem_map.1 hc
      have hwhole := ih m hm hinner n hn
      rwa [(children m hm).groups.origins n hn, ← identity_asBlock place n] at hwhole

/-! ## Fragments against the whole -/

/-- Two merged blocks have the same content, whatever their origins are: the same attributes, and
children with the same content. Their origins have labels or not, and have inner blocks of the same
identities. -/
inductive SameContent : MergedBlock → MergedBlock → Prop
  | intro {m n : MergedBlock} (identity : m.identity = n.identity)
    (attributes : m.attributes = n.attributes)
    (labels : (∀ b ∈ m.origins, b.labels = []) ↔ ∀ b ∈ n.origins, b.labels = [])
    (inner : ∀ i, i ∈ m.rawChildren.map Block.identity ↔ i ∈ n.rawChildren.map Block.identity)
    (children : List.Forall₂ SameContent m.children n.children) : SameContent m n

/-- Lists with the same distinct keys are related when elements of one key are. -/
theorem forall₂_of_map_eq {α β κ : Type} {f : α → κ} {g : β → κ} {R : α → β → Prop} {as : List α}
    {bs : List β} (h : as.map f = bs.map g) (hR : ∀ a ∈ as, ∀ b ∈ bs, f a = g b → R a b) :
    List.Forall₂ R as bs := by
  induction as generalizing bs with
  | nil =>
    obtain rfl := List.map_eq_nil_iff.1 h.symm
    exact .nil
  | cons a as ih =>
    obtain ⟨b, bs, rfl, hab, hrest⟩ := List.map_eq_cons_iff.1 h.symm
    exact .cons (hR a List.mem_cons_self b List.mem_cons_self hab.symm)
      (ih hrest.symm fun a' ha' b' hb' =>
        hR a' (List.mem_cons_of_mem a ha') b' (List.mem_cons_of_mem b hb'))

/-- Among blocks of distinct identities, those of the identity of one of them are this one. -/
theorem filter_identity_eq_singleton {bs : List Block} (h : (bs.map Block.identity).Nodup)
    {c : Block} (hc : c ∈ bs) : bs.filter (·.identity = c.identity) = [c] := by
  refine List.perm_singleton.1 ((List.perm_ext_iff_of_nodup ?_ (List.nodup_singleton c)).2 ?_)
  · exact (h.of_map _).filter _
  · intro b
    rw [List.mem_filter, List.mem_singleton, decide_eq_true_eq]
    exact ⟨fun hb => List.inj_on_of_nodup_map h hb.1 hc hb.2, fun hb => ⟨hb ▸ hc, hb ▸ rfl⟩⟩

/-- A block has no labels exactly if its identity has none. -/
theorem labels_eq_nil_iff {b : Block} : b.labels = [] ↔ b.identity.labels = [] := by
  simp [Block.identity, Block.labelTexts]

/-- A merged block made of fragments and one made of their whole alone, when their children have the
same content. -/
theorem sameContent_of_whole {m n : MergedBlock} {c : Block} (hwhole : Whole m.origins c)
    (hm : FirstOf m.attributes m.rawAttributes) (hne : m.origins ≠ [])
    (hn : FirstOf n.attributes n.rawAttributes) (horigin : n.origins = [c])
    (hid : m.identity = n.identity) (hchildren : List.Forall₂ SameContent m.children n.children) :
    SameContent m n := by
  obtain ⟨hidentity, hattributes, hidentities, -⟩ := hwhole
  have hrawAttributes : n.rawAttributes = m.rawAttributes := by
    simp [rawAttributes, horigin, hattributes]
  have hrawChildren : n.rawChildren = c.blocks := by simp [rawChildren, horigin]
  have hnodup : (m.rawAttributes.map Attribute.name).Nodup := by
    rw [rawAttributes, ← hattributes]
    exact c.attributes.nodup
  refine .intro hid (AttributeTable.eq_of_entries ?_) ?_ (fun i => ?_) hchildren
  · rw [hm.entries_eq hnodup, hn.entries_eq (hrawAttributes ▸ hnodup), hrawAttributes]
  · rw [horigin, List.forall_mem_singleton]
    simp only [labels_eq_nil_iff]
    obtain ⟨b, hb⟩ := List.exists_mem_of_ne_nil _ hne
    exact ⟨fun h => hidentity b hb ▸ h b hb, fun h b' hb' => hidentity b' hb' ▸ h⟩
  · rw [hrawChildren, hidentities, identitiesOf, List.mem_eraseDups, rawChildren]

/-- Merged blocks made of fragments and merged blocks made of the whole blocks have the same content
one by one: by induction on the merged blocks that are made of the fragments. -/
theorem Fused.sameContent {es fs : List MergedBlock} {bs wholes : List Block} (h : Fused es bs)
    (h' : Fused fs wholes) (hids : wholes.map Block.identity = identitiesOf bs)
    (hwhole : ∀ c ∈ wholes, Whole (bs.filter (·.identity = c.identity)) c) :
    List.Forall₂ SameContent es fs := by
  induction h generalizing fs wholes with
  | @intro es bs groups attributes children ih =>
    have hnodup : (wholes.map Block.identity).Nodup := hids ▸ nodup_eraseDups _
    have hkeys : es.map identity = fs.map identity := by
      rw [groups.identities, h'.groups.identities, eraseDups_eq_self hnodup, hids, identitiesOf]
    refine forall₂_of_map_eq hkeys fun m hm n hn hid => ?_
    -- the one whole block of the identity, and its fragments
    have hmem : n.identity ∈ wholes.map Block.identity := by
      rw [← eraseDups_eq_self hnodup, ← h'.groups.identities]
      exact List.mem_map_of_mem hn
    obtain ⟨c, hc, hcid⟩ := List.mem_map.1 hmem
    have horigin : n.origins = [c] := by
      rw [h'.groups.origins n hn, ← hcid]
      exact filter_identity_eq_singleton hnodup hc
    have hfragments : Whole m.origins c := by
      rw [groups.origins m hm, hid, ← hcid]
      exact hwhole c hc
    have hrawChildren : n.rawChildren = c.blocks := by simp [rawChildren, horigin]
    refine sameContent_of_whole hfragments (attributes m hm) (groups.origins_ne_nil hm)
      (h'.attributes n hn) horigin hid ?_
    obtain ⟨-, -, hidentities, hinner⟩ := hfragments
    refine ih m hm (h'.children n hn) ?_ ?_
    · rw [hrawChildren, hidentities, rawChildren]
    · rw [hrawChildren]
      exact hinner

/-! ## Blocks of one identity -/

/-- Blocks of one identity are fused into one merged block of it, whose origins they are. -/
theorem exists_absorbAll_eq {bs : List Block} {i : BlockIdentity} (hne : bs ≠ [])
    (hids : ∀ b ∈ bs, b.identity = i) :
    ∃ m, (absorbAll [] bs).1 = [m] ∧ m.identity = i ∧ m.origins = bs :=
  ⟨fuse i bs, absorbAll_eq_singleton hne hids, identity_fuse i bs, origins_fuse i bs⟩

/-- Blocks of one identity that are fused without conflicts are fragments of one block. -/
theorem exists_whole {bs : List Block} {i : BlockIdentity} (hne : bs ≠ [])
    (hids : ∀ b ∈ bs, b.identity = i) (hok : (absorbAll [] bs).2 = []) :
    ∃ whole, Whole bs whole := by
  obtain ⟨b, hb⟩ := List.exists_mem_of_ne_nil bs hne
  obtain ⟨m, hm, -, horigins⟩ := exists_absorbAll_eq hne hids
  have hfused : Fused (absorbAll [] bs).1 bs := Fused.nil.absorbAll bs
  have hnodup := (redeclarations_eq_nil_iff _).1 ((absorbAll_reports bs).symm.trans hok)
  have hwhole := hfused.whole_asBlock b.range hnodup m (hm ▸ List.mem_singleton_self m)
  exact ⟨_, horigins ▸ hwhole⟩

/-- Nothing is declared twice inside a whole block. -/
theorem faults_absorb_of_whole {bs : List Block} {whole : Block} (h : Whole bs whole) :
    ((new whole.identity).absorb whole).2 = [] := by
  induction h with
  | @intro bs whole _ _ hidentities _ ih =>
    have hnodup : (whole.blocks.map Block.identity).Nodup := hidentities ▸ nodup_eraseDups _
    rw [faults_absorb, List.append_eq_nil_iff]
    exact ⟨absorbAttributes_ok_iff.2 whole.attributes.nodup,
      @faults_absorbAll_of_nodup [] whole.blocks hnodup ih⟩

end MergedBlock

open MergedBlock in
/-- Fragments are fused into one merged block, and their whole block is fused alone without
conflicts into one with the same content. -/
theorem Whole.sameContent {bs : List Block} {whole : Block} (h : Whole bs whole) (hne : bs ≠ []) :
    (absorbAll [] [whole]).2 = [] ∧ ∃ m n, (absorbAll [] bs).1 = [m] ∧
      (absorbAll [] [whole]).1 = [n] ∧ n.identity = whole.identity ∧ SameContent m n := by
  have hids : ∀ b ∈ bs, b.identity = whole.identity := by
    obtain ⟨hids, -, -, -⟩ := h
    exact hids
  have hfaults : (absorbAll [] [whole]).2 = [] :=
    @faults_absorbAll_of_nodup [] [whole] (List.nodup_singleton _)
      (List.forall_mem_singleton.2 (faults_absorb_of_whole h))
  obtain ⟨m, hm, -⟩ := exists_absorbAll_eq hne hids
  obtain ⟨n, hn, hid, -⟩ := exists_absorbAll_eq (List.cons_ne_nil whole [])
    (List.forall_mem_singleton.2 rfl)
  have hself : bs.filter (·.identity = whole.identity) = bs :=
    List.filter_eq_self.2 fun b hb => decide_eq_true (hids b hb)
  have hsame := (Fused.nil.absorbAll bs).sameContent (Fused.nil.absorbAll [whole])
    (identitiesOf_eq_singleton hne hids).symm
    (List.forall_mem_singleton.2 (by rw [List.nil_append, hself]; exact h))
  rw [hm, hn, List.forall₂_cons] at hsame
  exact ⟨hfaults, m, n, hm, hn, hid, hsame.1⟩

end ScopeConfig
