import ScopeConfig.Blocks.MapRule
import ScopeConfig.Blocks.ProjectSettings
import ScopeConfig.Proofs.Merge.Reordered

/-!
# Rules for merged blocks do not see the order

Merged blocks that differ in order only have the same number of faults, under the rules for the
settings of a project and under the map rule. The faults themselves need not be the same, since the
map rule shows some of them at the first origin. Settings that are read from blocks without faults
are the same as well, up to the order of the variables of the environment.

## Main statements

* `length_projectFaults`, `length_freeFaults_and_mapFaults`: the number of faults.
* `projectSettings_alike`: the settings of a project.
-/

namespace ScopeConfig

open Syntax

namespace MergedBlock

/-! ## Lists of merged blocks -/

/-- Merged blocks that are alike have children that are alike. -/
theorem Alike.children {m n : MergedBlock} (h : Alike m n) : AlikeAll m.children n.children := by
  obtain ⟨-, -, -, horder, halike⟩ := h
  exact ⟨_, horder, halike⟩

/-- Merged blocks that are alike have the same identity. -/
theorem Alike.identity_eq {m n : MergedBlock} (h : Alike m n) : m.identity = n.identity := by
  cases h
  assumption

/-- Merged blocks that are alike have the same attributes, up to their order. -/
theorem Alike.attributes_perm {m n : MergedBlock} (h : Alike m n) :
    m.attributes.entries.Perm n.attributes.entries := by
  cases h
  assumption

/-- Merged blocks that are alike come from the same blocks, up to their order. -/
theorem Alike.origins_perm {m n : MergedBlock} (h : Alike m n) : m.origins.Perm n.origins := by
  cases h
  assumption

/-- Merged blocks that are alike have the same raw children, up to their order. -/
theorem Alike.rawChildren_perm {m n : MergedBlock} (h : Alike m n) :
    m.rawChildren.Perm n.rawChildren :=
  h.origins_perm.flatMap_right _

namespace AlikeAll

variable {es fs : List MergedBlock}

/-- Merged blocks of one type, among lists that are alike. -/
theorem filter (h : AlikeAll es fs) (blockType : String) :
    AlikeAll (es.filter (·.blockType = blockType)) (fs.filter (·.blockType = blockType)) := by
  obtain ⟨gs, hperm, halike⟩ := h
  refine ⟨_, hperm.filter _, ?_⟩
  clear hperm
  induction halike with
  | nil => exact .nil
  | @cons m n ms ns hmn _ ih =>
    have htype : m.blockType = n.blockType := congrArg BlockIdentity.blockType hmn.identity_eq
    by_cases hm : m.blockType = blockType
    · simpa [hm, htype ▸ hm] using List.Forall₂.cons hmn ih
    · simpa [hm, htype ▸ hm] using ih

/-- Each member of one of two lists that are alike has its counterpart in the other. -/
theorem exists_of_mem (h : AlikeAll es fs) {n : MergedBlock} (hn : n ∈ fs) :
    ∃ m ∈ es, Alike m n := by
  obtain ⟨gs, hperm, halike⟩ := h
  replace hn := hperm.mem_iff.1 hn
  clear hperm
  induction halike with
  | nil => cases hn
  | @cons m n' ms ns hmn _ ih =>
    rcases List.mem_cons.1 hn with rfl | hn
    · exact ⟨m, List.mem_cons_self, hmn⟩
    · obtain ⟨m', hm', hmn'⟩ := ih hn
      exact ⟨m', List.mem_cons_of_mem _ hm', hmn'⟩

/-- What is counted over merged blocks, when merged blocks that are alike count the same. -/
theorem length_flatMap {β : Type} {f : MergedBlock → List β} (h : AlikeAll es fs)
    (hf : ∀ m ∈ es, ∀ n, Alike m n → (f m).length = (f n).length) :
    (es.flatMap f).length = (fs.flatMap f).length := by
  obtain ⟨gs, hperm, halike⟩ := h
  rw [(hperm.flatMap_right f).length_eq]
  clear hperm
  induction halike with
  | nil => rfl
  | @cons m n ms ns hmn _ ih =>
    have hrest := ih fun m' hm' => hf m' (List.mem_cons_of_mem _ hm')
    simp [hf m List.mem_cons_self n hmn, hrest]

/-- What is made of the last merged block, when there is at most one. -/
theorem rel_getLast? {β : Type} {f : MergedBlock → β} {R : β → β → Prop} (h : AlikeAll es fs)
    (hle : es.length ≤ 1) (hR : ∀ m ∈ es, ∀ n, Alike m n → R (f m) (f n)) :
    Option.Rel R (es.getLast?.map f) (fs.getLast?.map f) := by
  obtain ⟨gs, hperm, halike⟩ := h
  cases halike with
  | nil =>
    rw [List.perm_nil.1 hperm]
    exact .none
  | @cons m n ms ns hmn hrest =>
    obtain rfl : ms = [] := by simpa using hle
    cases hrest
    rw [List.perm_singleton.1 hperm]
    exact .some (hR m List.mem_cons_self n hmn)

end AlikeAll

end MergedBlock

namespace Blocks

/-! ## Parts of the rules -/

section Parts

variable {m n : MergedBlock}

/-- The number of faults of attributes does not depend on the order of the attributes. -/
theorem length_attributeFaults {t t' : AttributeTable} (h : t.entries.Perm t'.entries)
    (owner : String) (rules : AttributeRules) :
    (attributeFaults owner rules t).length = (attributeFaults owner rules t').length :=
  (h.flatMap_right _).length_eq

/-- Having an attribute does not depend on the order of the attributes. -/
theorem has_eq_of_perm {t t' : AttributeTable} (h : t.entries.Perm t'.entries) (name : String) :
    t.has name = t'.has name := by
  rw [AttributeTable.has, AttributeTable.has, find?_eq_of_perm h]

/-- Reading an attribute does not depend on the order of the attributes. -/
theorem read?_eq_of_perm {α : Type} {t t' : AttributeTable} (h : t.entries.Perm t'.entries)
    (reader : Attribute → Except Diagnostic α) (name : String) :
    read? reader t name = read? reader t' name := by
  rw [read?, read?, find?_eq_of_perm h]

/-- Merged blocks that are alike have as many unwanted labels. -/
theorem length_mergedNoLabels (h : m.Alike n) :
    (mergedNoLabels m).length = (mergedNoLabels n).length :=
  (h.origins_perm.flatMap_right _).length_eq

/-- Merged blocks that are alike have as many unknown children. -/
theorem length_unknownChildren (h : m.Alike n) (allowed : List String) :
    (unknownChildren allowed m).length = (unknownChildren allowed n).length := by
  simp only [unknownChildren, List.length_map]
  exact (h.rawChildren_perm.filter _).length_eq

/-- What is wrong with the children of one type. -/
theorem length_childrenFaults {faults : MergedBlock → List Diagnostic} (h : m.Alike n)
    (blockType : String)
    (hfaults : ∀ c ∈ m.childrenOf blockType, ∀ d, c.Alike d →
      (faults c).length = (faults d).length) :
    ((m.childrenOf blockType).flatMap faults).length =
      ((n.childrenOf blockType).flatMap faults).length :=
  (h.children.filter blockType).length_flatMap hfaults

end Parts

/-! ## Settings of the project -/

section Settings

variable {m n : MergedBlock} (h : m.Alike n)
include h

/-- `git` blocks that are alike have as many faults. -/
theorem length_gitFaults : (gitFaults m).length = (gitFaults n).length := by
  simp only [gitFaults, List.length_append, length_mergedNoLabels h,
    length_attributeFaults h.attributes_perm, length_unknownChildren h]

theorem length_envFaults : (envFaults m).length = (envFaults n).length := by
  simp only [envFaults, List.length_append, length_mergedNoLabels h, length_unknownChildren h]

theorem length_runFaults : (runFaults m).length = (runFaults n).length := by
  simp only [runFaults, List.length_append, length_mergedNoLabels h,
    length_attributeFaults h.attributes_perm, length_unknownChildren h,
    length_childrenFaults h "env" fun _ _ _ => length_envFaults]

theorem length_rootFaults : (rootFaults m).length = (rootFaults n).length := by
  simp only [rootFaults, List.length_append, length_mergedNoLabels h,
    length_attributeFaults h.attributes_perm, length_unknownChildren h,
    length_childrenFaults h "git" fun _ _ _ => length_gitFaults,
    length_childrenFaults h "run" fun _ _ _ => length_runFaults]

/-- Project blocks that are alike have as many faults. -/
theorem length_projectFaults : (projectFaults m).length = (projectFaults n).length := by
  simp only [projectFaults, List.length_append, length_mergedNoLabels h,
    length_attributeFaults h.attributes_perm, length_unknownChildren h,
    length_childrenFaults h "config" fun _ _ _ => length_rootFaults]

end Settings

/-! ### What the settings are -/

/-- A block without unwanted labels has no labels. -/
theorem labels_of_noLabels {b : Block} (h : noLabels b = []) : b.labelTexts = [] := by
  unfold noLabels Block.labelsRange? at h
  cases hlabels : b.labels with
  | nil => rw [Block.labelTexts, hlabels, List.map_nil]
  | cons first rest => simp [hlabels, List.getLast?_cons] at h

/-- A list with distinct keys that are all one key has at most one member. -/
theorem length_le_one_of_nodup_map {α κ : Type} {f : α → κ} {l : List α} {k : κ}
    (hnodup : (l.map f).Nodup) (hf : ∀ a ∈ l, f a = k) : l.length ≤ 1 := by
  rwa [List.map_congr_left hf, List.map_const', List.nodup_replicate] at hnodup

/-- Of the merged blocks of one type there is at most one, if none has labels. -/
theorem length_filter_le_one {es : List MergedBlock} {bs : List Block}
    (h : MergedBlock.Groups es bs) (blockType : String)
    (hlabels : ∀ m ∈ es.filter (·.blockType = blockType), mergedNoLabels m = []) :
    (es.filter (·.blockType = blockType)).length ≤ 1 := by
  have hidentity : ∀ m ∈ es.filter (·.blockType = blockType), m.identity = ⟨blockType, []⟩ := by
    intro m hm
    obtain ⟨hmem, htype⟩ := List.mem_filter.1 hm
    have hid : m.identity ∈ (bs.map Block.identity).eraseDups :=
      h.identities ▸ List.mem_map_of_mem hmem
    obtain ⟨b, hb, heq⟩ := List.mem_map.1 (List.mem_eraseDups.1 hid)
    have horigin : b ∈ m.origins := by
      rw [h.origins m hmem, List.mem_filter]
      exact ⟨hb, by simpa using heq⟩
    have htexts : m.identity.labels = [] := by
      rw [← heq]
      exact labels_of_noLabels (List.flatMap_eq_nil_iff.1 (hlabels m hm) b horigin)
    have hblockType : m.identity.blockType = blockType := of_decide_eq_true htype
    rw [← hblockType, ← htexts]
  have hnodup : ((es.filter (·.blockType = blockType)).map MergedBlock.identity).Nodup :=
    h.nodup_identities.sublist (List.filter_sublist.map _)
  exact length_le_one_of_nodup_map hnodup hidentity

end Blocks

/-! ### Settings up to order -/

/-- Settings for running commands that differ in the order of the variables only. -/
structure RunSettings.Alike (x y : RunSettings) : Prop where
  checkGeneratedCode : x.checkGeneratedCode = y.checkGeneratedCode
  env : x.env.Perm y.env

/-- Settings under `terramate.config` that differ in the order of the variables only. -/
structure RootSettings.Alike (x y : RootSettings) : Prop where
  experiments : x.experiments = y.experiments
  git : x.git = y.git
  run : Option.Rel RunSettings.Alike x.run y.run

/-- Settings of a project that differ in the order of the variables only. -/
structure ProjectSettings.Alike (x y : ProjectSettings) : Prop where
  requiredVersion : x.requiredVersion = y.requiredVersion
  allowPrereleases : x.allowPrereleases = y.allowPrereleases
  config : Option.Rel RootSettings.Alike x.config y.config

namespace Blocks

section Read

variable {m n : MergedBlock}

/-- What is read from the children of one type, when they are without labels. -/
theorem rel_childrenOf {β : Type} {f : MergedBlock → β} {R : β → β → Prop} (h : m.Alike n)
    (hm : MergedBlock.Fused m.children m.rawChildren) (blockType : String)
    (hlabels : ∀ c ∈ m.childrenOf blockType, mergedNoLabels c = [])
    (hR : ∀ c ∈ m.childrenOf blockType, MergedBlock.Fused c.children c.rawChildren →
      ∀ d, c.Alike d → R (f c) (f d)) :
    Option.Rel R ((m.childrenOf blockType).getLast?.map f)
      ((n.childrenOf blockType).getLast?.map f) := by
  refine (h.children.filter blockType).rel_getLast?
    (length_filter_le_one hm.groups blockType hlabels) fun c hc d hcd => ?_
  exact hR c hc (hm.children c (List.mem_filter.1 hc).1) d hcd

theorem eq_of_rel_eq {α : Type} {x y : Option α} (h : Option.Rel Eq x y) : x = y := by
  cases h with
  | some h => rw [h]
  | none => rfl

theorem rel_getD {α : Type} {R : α → α → Prop} {x y : Option α} {a : α} (h : Option.Rel R x y)
    (ha : R a a) : R (x.getD a) (y.getD a) := by
  cases h with
  | some h => exact h
  | none => exact ha

/-- `git` blocks that are alike give the same settings. -/
theorem gitSettings_eq (h : m.Alike n) : gitSettings m = gitSettings n := by
  simp only [gitSettings, read?_eq_of_perm h.attributes_perm]

/-- An accepted `run` block and one that is alike give the same settings, up to the order of the
variables. -/
theorem runSettings_alike (h : m.Alike n) (hm : MergedBlock.Fused m.children m.rawChildren)
    (hok : runFaults m = []) : (runSettings m).Alike (runSettings n) where
  checkGeneratedCode := read?_eq_of_perm h.attributes_perm _ _
  env := by
    simp only [runFaults, List.append_eq_nil_iff, List.flatMap_eq_nil_iff] at hok
    obtain ⟨-, henv⟩ := hok
    have hrel := rel_childrenOf (f := envVariables) (R := List.Perm) h hm "env"
      (fun c hc => (List.append_eq_nil_iff.1 (henv c hc)).1)
      fun c _ _ d hcd => hcd.attributes_perm.map _
    exact rel_getD hrel (.refl [])

/-- Accepted root settings and ones that are alike are read the same, up to the order of the
variables. -/
theorem rootSettings_alike (h : m.Alike n) (hm : MergedBlock.Fused m.children m.rawChildren)
    (hok : rootFaults m = []) : (rootSettings m).Alike (rootSettings n) := by
  simp only [rootFaults, List.append_eq_nil_iff, List.flatMap_eq_nil_iff] at hok
  obtain ⟨⟨-, hgit⟩, hrun⟩ := hok
  refine ⟨?_, ?_, ?_⟩
  · simp only [rootSettings, read?_eq_of_perm h.attributes_perm]
  · refine eq_of_rel_eq (rel_childrenOf h hm "git" (fun c hc => ?_) fun c _ _ d hcd =>
      gitSettings_eq hcd)
    have hfaults := hgit c hc
    simp only [gitFaults, List.append_eq_nil_iff] at hfaults
    exact hfaults.1.1
  · refine rel_childrenOf h hm "run" (fun c hc => ?_) fun c hc hfused d hcd =>
      runSettings_alike hcd hfused (hrun c hc)
    have hfaults := hrun c hc
    simp only [runFaults, List.append_eq_nil_iff] at hfaults
    exact hfaults.1.1.1

/-- An accepted project block and one that is alike give the same settings, up to the order of the
variables. -/
theorem projectSettings_alike (h : m.Alike n)
    (hm : MergedBlock.Fused m.children m.rawChildren) (hok : projectFaults m = []) :
    (projectSettings m).Alike (projectSettings n) := by
  simp only [projectFaults, List.append_eq_nil_iff, List.flatMap_eq_nil_iff] at hok
  obtain ⟨-, hroot⟩ := hok
  refine ⟨?_, ?_, ?_⟩
  · simp only [projectSettings, read?_eq_of_perm h.attributes_perm]
  · simp only [projectSettings, read?_eq_of_perm h.attributes_perm]
  · refine rel_childrenOf h hm "config" (fun c hc => ?_) fun c hc hfused d hcd =>
      rootSettings_alike hcd hfused (hroot c hc)
    have hfaults := hroot c hc
    simp only [rootFaults, List.append_eq_nil_iff] at hfaults
    exact hfaults.1.1.1.1

end Read

/-! ## The map rule -/

/-- The faults of the maps among merged blocks, map by map. -/
theorem mapsFaults_eq_flatMap (ms : List MergedBlock) :
    mapsFaults ms = (ms.filter (·.blockType = "map")).flatMap mapFaults := by
  induction ms with
  | nil => rfl
  | cons m ms ih =>
    rw [mapsFaults, ih]
    by_cases hm : m.blockType = "map" <;> simp [hm]

/-- The faults of the `value` blocks among merged blocks, block by block. -/
theorem valuesFaults_eq_flatMap (ms : List MergedBlock) :
    valuesFaults ms = (ms.filter (·.blockType = "value")).flatMap freeFaults := by
  induction ms with
  | nil => rfl
  | cons m ms ih =>
    rw [valuesFaults, ih]
    by_cases hm : m.blockType = "value" <;> simp [hm]

/-- The faults of a free block: its unknown children, and the faults of its maps. -/
theorem freeFaults_eq (m : MergedBlock) :
    freeFaults m = unknownChildren ["map"] m ++ (m.childrenOf "map").flatMap mapFaults := by
  cases m
  rw [freeFaults, mapsFaults_eq_flatMap]
  rfl

/-- The faults of a map: its own, and those of its values. -/
theorem mapFaults_eq (m : MergedBlock) :
    mapFaults m = mapOwnFaults m ++ (m.childrenOf "value").flatMap freeFaults := by
  cases m
  rw [mapFaults, valuesFaults_eq_flatMap]
  rfl

section MapRule

variable {m n : MergedBlock} (h : m.Alike n)
include h

/-- Merged blocks that are alike have a header, or have none, together. -/
theorem isSome_header? : m.header?.isSome = n.header?.isSome := by
  have hnil : m.origins = [] ↔ n.origins = [] := by
    rw [← List.length_eq_zero_iff, h.origins_perm.length_eq, List.length_eq_zero_iff]
  rw [MergedBlock.header?, MergedBlock.header?, Option.isSome_map, Option.isSome_map,
    Bool.eq_iff_iff, List.isSome_head?, List.isSome_head?]
  exact not_congr hnil

/-- Maps that are alike have as many faults in their values. -/
theorem length_mapValue : (mapValue m).length = (mapValue n).length := by
  have hcount : (m.rawChildren.filter (·.blockType = "value")).length =
      (n.rawChildren.filter (·.blockType = "value")).length :=
    (h.rawChildren_perm.filter _).length_eq
  -- every fault of the value is shown at the first origin, whichever that is
  have hat : ∀ fault, (at? m.header? fault).length = (at? n.header? fault).length := by
    intro fault
    simp only [at?, List.length_map, Option.length_toList, isSome_header? h]
  simp only [mapValue, hcount, has_eq_of_perm h.attributes_perm, List.length_append]
  congr 1
  · split
    · exact hat _
    · rfl
  · split
    · exact hat _
    · split
      · exact hat _
      · rfl

/-- Maps that are alike have as many faults of their own. -/
theorem length_mapOwnFaults : (mapOwnFaults m).length = (mapOwnFaults n).length := by
  have hlabels : (mapLabels m).length = (mapLabels n).length := by
    simp only [mapLabels, List.length_map]
    exact (h.origins_perm.filter _).length_eq
  have hmissing : (m.header?.toList.flatMap fun range =>
        missingFaults "map" ["for_each", "key"] m.attributes range).length =
      (n.header?.toList.flatMap fun range =>
        missingFaults "map" ["for_each", "key"] n.attributes range).length := by
    simp only [List.length_flatMap, missingFaults, List.length_map,
      has_eq_of_perm h.attributes_perm, List.map_const', Option.length_toList, isSome_header? h]
  simp only [mapOwnFaults, List.length_append, hlabels, hmissing,
    length_attributeFaults h.attributes_perm, (h.rawChildren_perm.flatMap_right mapChild).length_eq,
    length_mapValue h]

end MapRule

/-- The map rule finds the same number of faults: by induction on the merged block, a map and a
block that is free in turn. -/
theorem length_freeFaults_and_mapFaults : ∀ m n : MergedBlock, m.Alike n →
    (freeFaults m).length = (freeFaults n).length ∧ (mapFaults m).length = (mapFaults n).length
  | ⟨_, _, _, children⟩, n, h => by
    have ih : ∀ c ∈ children, ∀ d, c.Alike d →
        (freeFaults c).length = (freeFaults d).length ∧
          (mapFaults c).length = (mapFaults d).length :=
      fun c hc d hcd => length_freeFaults_and_mapFaults c d hcd
    have hmaps := length_childrenFaults h "map" fun c hc d hcd =>
      (ih c (List.mem_filter.1 hc).1 d hcd).2
    have hvalues := length_childrenFaults h "value" fun c hc d hcd =>
      (ih c (List.mem_filter.1 hc).1 d hcd).1
    constructor
    · simp only [freeFaults_eq, List.length_append, length_unknownChildren h, hmaps]
    · simp only [mapFaults_eq, List.length_append, length_mapOwnFaults h, hvalues]

end Blocks

end ScopeConfig
