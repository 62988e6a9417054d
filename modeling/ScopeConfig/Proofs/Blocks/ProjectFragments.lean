import ScopeConfig.Proofs.Blocks.Accepted
import ScopeConfig.Proofs.Blocks.ScriptRule
import ScopeConfig.Proofs.Merge.Fragments

/-!
# Settings of a project in fragments

The settings of a project are read from a merged block and its children, three levels deep. At each
level there are faults or not, and there are the same settings, for merged blocks with the same
content. So it makes no difference whether the settings are declared in one block or in fragments,
over any number of files.

## Main statements

* `projectFaults_eq_nil_iff`, `projectSettings_eq`: merged blocks with the same content.
* `projectKind_read_fragments`: fragments against the whole block.
-/

namespace ScopeConfig

open Syntax MergedBlock Blocks

namespace MergedBlock.SameContent

variable {m n : MergedBlock}

/-- Merged blocks of the same content have the same attributes. -/
theorem attributes_eq (h : m.SameContent n) : m.attributes = n.attributes := by
  cases h
  assumption

/-- Merged blocks of the same content are without labels together. -/
theorem labels_iff (h : m.SameContent n) :
    (∀ b ∈ m.origins, b.labels = []) ↔ ∀ b ∈ n.origins, b.labels = [] := by
  cases h
  assumption

/-- There are inner blocks of the same types. -/
theorem forall_rawChildren_iff (h : m.SameContent n) (p : String → Prop) :
    (∀ b ∈ m.rawChildren, p b.blockType) ↔ ∀ b ∈ n.rawChildren, p b.blockType := by
  obtain ⟨-, -, -, hinner, -⟩ := h
  have hall : ∀ bs : List Block, (∀ b ∈ bs, p b.blockType) ↔
      ∀ i ∈ bs.map Block.identity, p i.blockType := fun bs => by
    simp [Block.identity]
  rw [hall, hall]
  exact ⟨fun hm i hi => hm i ((hinner i).2 hi), fun hn i hi => hn i ((hinner i).1 hi)⟩

/-- Children of one type, among children with the same content. -/
theorem forall₂_filter {es fs : List MergedBlock} (h : List.Forall₂ SameContent es fs)
    (blockType : String) : List.Forall₂ SameContent (es.filter (·.blockType = blockType))
      (fs.filter (·.blockType = blockType)) := by
  induction h with
  | nil => exact .nil
  | @cons c d cs ds hcd _ ih =>
    obtain ⟨hid, -⟩ := id hcd
    have htype : c.blockType = d.blockType := congrArg BlockIdentity.blockType hid
    by_cases hc : c.blockType = blockType
    · simpa [hc, htype ▸ hc] using List.Forall₂.cons hcd ih
    · simpa [hc, htype ▸ hc] using ih

/-- The children of one type, one by one of the same content. -/
theorem childrenOf (h : m.SameContent n) (blockType : String) :
    List.Forall₂ SameContent (m.childrenOf blockType) (n.childrenOf blockType) := by
  obtain ⟨-, -, -, -, hchildren⟩ := h
  exact forall₂_filter hchildren blockType

/-! ## Parts of the rules -/

/-- Merged blocks of the same content are free of unwanted labels together. -/
theorem mergedNoLabels_eq_nil_iff (h : m.SameContent n) :
    mergedNoLabels m = [] ↔ mergedNoLabels n = [] := by
  simp only [mergedNoLabels, List.flatMap_eq_nil_iff, noLabels_eq_nil_iff]
  exact h.labels_iff

/-- Merged blocks of the same content are free of unknown children together. -/
theorem unknownChildren_eq_nil_iff (h : m.SameContent n) (allowed : List String) :
    unknownChildren allowed m = [] ↔ unknownChildren allowed n = [] := by
  simp only [unknownChildren, List.map_eq_nil_iff, List.filter_eq_nil_iff, decide_eq_true_eq]
  exact h.forall_rawChildren_iff (¬· ∉ allowed)

/-- What is wrong with merged blocks, when those with the same content are wrong together. -/
theorem flatMap_eq_nil_iff {es fs : List MergedBlock} (h : List.Forall₂ SameContent es fs)
    {faults : MergedBlock → List Diagnostic}
    (hfaults : ∀ c d, c.SameContent d → (faults c = [] ↔ faults d = [])) :
    es.flatMap faults = [] ↔ fs.flatMap faults = [] := by
  induction h with
  | nil => rfl
  | @cons c d _ _ hcd _ ih =>
    rw [List.flatMap_cons, List.flatMap_cons, List.append_eq_nil_iff, List.append_eq_nil_iff,
      hfaults c d hcd, ih]

/-- What is made of merged blocks, when the same is made of those with the same content. -/
theorem map_eq {β : Type} {f : MergedBlock → β} {es fs : List MergedBlock}
    (h : List.Forall₂ SameContent es fs) (hf : ∀ c d, c.SameContent d → f c = f d) :
    es.map f = fs.map f := by
  induction h with
  | nil => rfl
  | @cons c d _ _ hcd _ ih => rw [List.map_cons, List.map_cons, hf c d hcd, ih]

/-- What is made of the last child of one type. -/
theorem lastChild_eq {β : Type} {f : MergedBlock → β} (h : m.SameContent n) (blockType : String)
    (hf : ∀ c d, c.SameContent d → f c = f d) :
    (m.childrenOf blockType).getLast?.map f = (n.childrenOf blockType).getLast?.map f := by
  rw [← List.getLast?_map, ← List.getLast?_map, map_eq (h.childrenOf blockType) hf]

/-! ## Settings of the project -/

/-- `git` blocks of the same content are accepted together. -/
theorem gitFaults_eq_nil_iff (m n : MergedBlock) (h : m.SameContent n) :
    gitFaults m = [] ↔ gitFaults n = [] := by
  simp only [gitFaults, List.append_eq_nil_iff, h.mergedNoLabels_eq_nil_iff, h.attributes_eq,
    h.unknownChildren_eq_nil_iff]

theorem envFaults_eq_nil_iff (m n : MergedBlock) (h : m.SameContent n) :
    envFaults m = [] ↔ envFaults n = [] := by
  simp only [envFaults, List.append_eq_nil_iff, h.mergedNoLabels_eq_nil_iff,
    h.unknownChildren_eq_nil_iff]

theorem runFaults_eq_nil_iff (m n : MergedBlock) (h : m.SameContent n) :
    runFaults m = [] ↔ runFaults n = [] := by
  simp only [runFaults, List.append_eq_nil_iff, h.mergedNoLabels_eq_nil_iff, h.attributes_eq,
    h.unknownChildren_eq_nil_iff, flatMap_eq_nil_iff (h.childrenOf "env") envFaults_eq_nil_iff]

theorem rootFaults_eq_nil_iff (m n : MergedBlock) (h : m.SameContent n) :
    rootFaults m = [] ↔ rootFaults n = [] := by
  simp only [rootFaults, List.append_eq_nil_iff, h.mergedNoLabels_eq_nil_iff, h.attributes_eq,
    h.unknownChildren_eq_nil_iff, flatMap_eq_nil_iff (h.childrenOf "git") gitFaults_eq_nil_iff,
    flatMap_eq_nil_iff (h.childrenOf "run") runFaults_eq_nil_iff]

/-- Project blocks of the same content are accepted together. -/
theorem projectFaults_eq_nil_iff (h : m.SameContent n) :
    projectFaults m = [] ↔ projectFaults n = [] := by
  simp only [projectFaults, List.append_eq_nil_iff, h.mergedNoLabels_eq_nil_iff, h.attributes_eq,
    h.unknownChildren_eq_nil_iff, flatMap_eq_nil_iff (h.childrenOf "config") rootFaults_eq_nil_iff]

/-- `git` blocks of the same content give the same settings. -/
theorem gitSettings_eq (m n : MergedBlock) (h : m.SameContent n) :
    gitSettings m = gitSettings n := by
  simp only [gitSettings, h.attributes_eq]

theorem envVariables_eq (m n : MergedBlock) (h : m.SameContent n) :
    envVariables m = envVariables n := by
  rw [envVariables, envVariables, h.attributes_eq]

theorem runSettings_eq (m n : MergedBlock) (h : m.SameContent n) :
    runSettings m = runSettings n := by
  rw [runSettings, runSettings, h.attributes_eq, h.lastChild_eq "env" envVariables_eq]

theorem rootSettings_eq (m n : MergedBlock) (h : m.SameContent n) :
    rootSettings m = rootSettings n := by
  rw [rootSettings, rootSettings, h.attributes_eq, h.lastChild_eq "git" gitSettings_eq,
    h.lastChild_eq "run" runSettings_eq]

/-- Project blocks of the same content give the same settings. -/
theorem projectSettings_eq (h : m.SameContent n) : projectSettings m = projectSettings n := by
  rw [projectSettings, projectSettings, h.attributes_eq, h.lastChild_eq "config" rootSettings_eq]

/-- Merged blocks with the same content are accepted together, and the same is recorded of them. -/
theorem projectKind_read_iff (h : m.SameContent n) (options : Options) (c c' : Config) :
    projectKind.read options c (.merged m) = (c', .ok ()) ↔
      projectKind.read options c (.merged n) = (c', .ok ()) := by
  simp only [projectKind, acceptIf_eq_ok_iff, h.projectFaults_eq_nil_iff, h.projectSettings_eq]

end MergedBlock.SameContent

/-! ## Fragments in files -/

namespace MergeTable

/-- Merging blocks that are merged by label fuses them. -/
theorem mergeBlocks_fused {t : MergeTable} {bs : List Block}
    (h : ∀ b ∈ bs, t.policy? b.blockType = some .mergeByLabel) :
    t.mergeBlocks bs = ({ t with merged := (absorbAll t.merged bs).1 },
      (absorbAll t.merged bs).2) := by
  induction bs generalizing t with
  | nil => simp [mergeBlocks, absorbAll]
  | cons b bs ih =>
    have hb : t.mergeBlock b = ({ t with merged := (absorbAll t.merged [b]).1 },
        (absorbAll t.merged [b]).2) := by
      rw [mergeBlock, h b List.mem_cons_self]
    have hrest := ih (t := { t with merged := (absorbAll t.merged [b]).1 }) fun c hc =>
      h c (List.mem_cons_of_mem b hc)
    simp only [mergeBlocks, hb, hrest, absorbAll_cons t.merged b bs, ← absorbAll_fst_append,
      List.singleton_append]

end MergeTable

namespace Blocks

open MergeTable

/-- The `terramate` blocks of files, in order. -/
def projectBlocks (files : List SourceFile) : List Block :=
  (scopeBlocks files).filter (·.blockType = "terramate")

/-- Whether the settings of a project are fragmented is invisible. Let the `terramate` blocks of
some files, at least one and all without labels, be merged without errors. Then there is a block
that they are fragments of. Whichever such block is taken, it is a `terramate` block without labels,
and it is merged alone without errors; the files make one merged `terramate` block, and so does the
whole block alone; and from these two the same is read: the kind accepts both or neither, and
records the same settings. -/
theorem projectKind_read_fragments {policies : List (String × MergePolicy)}
    (hpolicy : policyFor policies "terramate" = some .mergeByLabel) {files : List SourceFile}
    (hne : projectBlocks files ≠ []) (hlabels : ∀ b ∈ projectBlocks files, b.labels = [])
    (hok : ((new policies).mergeBlocks (projectBlocks files)).2 = []) :
    (∃ whole, Whole (projectBlocks files) whole) ∧
      ∀ whole, Whole (projectBlocks files) whole →
        whole.identity = ⟨"terramate", []⟩ ∧ ((new policies).mergeBlock whole).2 = [] ∧
          ∃ m n, ((new policies).mergeFiles files).1.mergedOf "terramate" = [m] ∧
            ((new policies).mergeBlock whole).1.mergedOf "terramate" = [n] ∧
            (∀ options c c', projectKind.read options c (.merged m) = (c', .ok ()) ↔
              projectKind.read options c (.merged n) = (c', .ok ())) ∧
            projectSettings m = projectSettings n := by
  have htype : ∀ b ∈ projectBlocks files, b.blockType = "terramate" := fun b hb =>
    of_decide_eq_true (List.mem_filter.1 hb).2
  have hids : ∀ b ∈ projectBlocks files, b.identity = ⟨"terramate", []⟩ := fun b hb => by
    rw [Block.identity, htype b hb, Block.labelTexts, hlabels b hb, List.map_nil]
  -- the blocks have one identity, so merging them is fusing them into one block
  have hfused : ((absorbAll [] (projectBlocks files)).2) = [] := by
    rw [mergeBlocks_fused fun b hb => htype b hb ▸ hpolicy] at hok
    exact hok
  refine ⟨exists_whole hne hids hfused, fun whole hwhole => ?_⟩
  obtain ⟨b, hb⟩ := List.exists_mem_of_ne_nil _ hne
  have hid : whole.identity = ⟨"terramate", []⟩ := by
    obtain ⟨hsame, -⟩ := id hwhole
    exact (hsame b hb).symm.trans (hids b hb)
  have hwholeType : whole.blockType = "terramate" := congrArg BlockIdentity.blockType hid
  -- the whole block alone is merged in the same way
  have hmerge : (new policies).mergeBlock whole =
      ({ new policies with merged := (absorbAll [] [whole]).1 }, (absorbAll [] [whole]).2) := by
    have hwholePolicy : (new policies).policy? whole.blockType = some .mergeByLabel :=
      hwholeType ▸ hpolicy
    rw [mergeBlock, hwholePolicy]
    rfl
  obtain ⟨hfaults, m, n, hm, hn, hnid, hsame⟩ := hwhole.sameContent hne
  refine ⟨hid, hmerge ▸ hfaults, m, n, ?_, ?_, hsame.projectKind_read_iff, hsame.projectSettings_eq⟩
  · exact (mergedOf_mergeFiles files hpolicy).trans ((absorbAll_eq_fuse _).symm.trans hm)
  · have hnType : n.blockType = "terramate" := by rw [MergedBlock.blockType, hnid, hid]
    rw [hmerge, mergedOf, hn]
    simp [hnType]

/-! ### Variables in two files -/

/-- Two files that set one variable each. -/
def splitVariables : List SourceFile :=
  [(Path.ofText "/s/a.tm", "terramate\x7bconfig\x7brun\x7benv\x7bb=1\x7d\x7d\x7d\x7d"),
    (Path.ofText "/s/b.tm", "terramate\x7bconfig\x7brun\x7benv\x7ba=2\x7d\x7d\x7d\x7d")].filterMap
    fun f => (SourceFile.parse f.1 f.2).toOption

/-- Only the `terramate` blocks, which are merged by label. -/
def projectOnly : List (String × MergePolicy) := [("terramate", .mergeByLabel)]

/-- The names of the variables, in order. -/
def variableNames (settings : ProjectSettings) : List String :=
  ((settings.config.bind RootSettings.run).map fun run => run.env.map Prod.fst).getD []

/-- The two files have one project block each, without labels, and merge without an error; the whole
block is accepted, and its variables are listed as the files come. -/
theorem merged_splitVariables :
    ((projectBlocks splitVariables).map (·.labels.length),
      ((new projectOnly).mergeBlocks (projectBlocks splitVariables)).2.isEmpty,
      (((new projectOnly).mergeFiles splitVariables).1.mergedOf "terramate").map fun m =>
        ((projectFaults m).isEmpty, variableNames (projectSettings m))) =
      ([0, 0], true, [(true, ["b", "a"])]) := by
  decide +kernel

/-- The two fragments have a whole block, from which the same variables are read in the same
order. -/
theorem projectKind_read_fragments_splitVariables :
    ∃ whole n, Whole (projectBlocks splitVariables) whole ∧
      ((new projectOnly).mergeBlock whole).1.mergedOf "terramate" = [n] ∧
      variableNames (projectSettings n) = ["b", "a"] ∧
      ∀ options c, projectKind.read options c (.merged n) =
        ({ c with project := some (projectSettings n) }, .ok ()) := by
  obtain ⟨hlengths, hempty, hread⟩ := by
    simpa only [Prod.mk.injEq] using merged_splitVariables
  have hne : projectBlocks splitVariables ≠ [] := by
    rintro hnone
    simp [hnone] at hlengths
  have hlabels : ∀ b ∈ projectBlocks splitVariables, b.labels = [] := fun b hb => by
    have hmem := List.mem_map_of_mem (f := fun b : Block => b.labels.length) hb
    rw [hlengths] at hmem
    exact List.eq_nil_of_length_eq_zero (by simpa using hmem)
  have hpolicy : policyFor projectOnly "terramate" = some .mergeByLabel := rfl
  obtain ⟨⟨whole, hwhole⟩, hall⟩ :=
    projectKind_read_fragments hpolicy hne hlabels (List.isEmpty_iff.1 hempty)
  obtain ⟨-, -, m, n, hm, hn, hiff, hsettings⟩ := hall whole hwhole
  rw [hm, List.map_singleton, List.cons.injEq, Prod.mk.injEq] at hread
  refine ⟨whole, n, hwhole, hn, hsettings ▸ hread.1.2, fun options c => (hiff options c _).1 ?_⟩
  rw [← hsettings]
  exact acceptIf_eq_ok_iff.2 ⟨List.isEmpty_iff.1 hread.1.1, rfl⟩

end Blocks

end ScopeConfig
