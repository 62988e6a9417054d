import ScopeConfig.Proofs.Merge.Fusion

/-!
# Reports of second declarations

What is declared once and comes again is reported: once for each declaration after the first, at the
place of that declaration, and with the place of the first. `citing` lists these reports for given
places; it is what merging reports about blocks of an identity whose type is unique.

## Main statements

* `filter_repeats_mergeFiles`: the reports about the blocks of an identity, when files are merged.
-/

namespace ScopeConfig

open Syntax

/-- Whether a second declaration is one of an attribute. -/
def Redeclaration.ofAttribute : Redeclaration → Bool
  | topAttribute _ _ | attributeOf _ _ _ => true
  | block _ _ | named _ _ _ => false

namespace Diagnostic

/-- Whether an error reports a second declaration in the words of `again`, whatever place it
cites. -/
def repeats (again : SourceRange → Redeclaration) (d : Diagnostic) : Bool :=
  match d.cause with
  | .redeclared r => r = again r.first
  | _ => false

/-- One report for each place after the first of these, which it cites. -/
def citing (again : SourceRange → Redeclaration) : List SourceRange → List Diagnostic
  | [] => []
  | first :: later => later.map (redeclared (again first))

/-- The errors that are reports in the words of `again` are one for each of the places after the
first: each is located there and cites the first. -/
def CitesFirst (again : SourceRange → Redeclaration) (places : List SourceRange)
    (errors : List Diagnostic) : Prop :=
  (errors.filter (repeats again)).Perm (citing again places)

variable {again : SourceRange → Redeclaration}

/-- A redeclaration repeats in the words of `again` exactly if those words, citing what it cites,
are its own. -/
@[simp] theorem repeats_redeclared (r : Redeclaration) (range : SourceRange) :
    (redeclared r range).repeats again = decide (r = again r.first) :=
  rfl

/-- One more place is reported once, citing the first place, unless it is itself the first. -/
theorem citing_concat (again : SourceRange → Redeclaration) (places : List SourceRange)
    (place : SourceRange) :
    citing again (places ++ [place]) =
      citing again places ++
        (places.head?.map fun first => redeclared (again first) place).toList := by
  cases places <;> simp [citing]

/-! ## Errors that are no such reports -/

/-- An error that is no redeclaration repeats nothing. -/
theorem repeats_of_kind {d : Diagnostic} (h : d.kind ≠ .redeclared) : d.repeats again = false := by
  unfold repeats
  split
  · rename_i r hcause
    exact (h (by rw [kind, hcause]; rfl)).elim
  · rfl

/-- Reports about attributes are told apart from reports about other things. -/
theorem repeats_of_attribute {r : Redeclaration} {range : SourceRange} (hr : r.ofAttribute = true)
    (hagain : ∀ first, (again first).ofAttribute = false) :
    (redeclared r range).repeats again = false := by
  rw [repeats_redeclared, decide_eq_false_iff_not]
  intro heq
  rw [heq, hagain] at hr
  cases hr

/-- A conflict of merging repeats nothing in the words of other declarations than those of
attributes. -/
theorem repeats_of_conflict {d : Diagnostic} (h : d.IsConflict)
    (hagain : ∀ first, (again first).ofAttribute = false) : d.repeats again = false := by
  obtain ⟨name, owner, first, range, rfl⟩ := h
  exact repeats_of_attribute rfl hagain

/-- Where no error repeats, none is left by the filter. -/
theorem filter_repeats_eq_nil {ds : List Diagnostic} (h : ∀ d ∈ ds, d.repeats again = false) :
    ds.filter (repeats again) = [] :=
  List.filter_eq_nil_iff.2 fun d hd => by simp [h d hd]

end Diagnostic

open Diagnostic

namespace MergeTable

/-! ## Blocks of one identity -/

section Blocks

variable {policies : List (String × MergePolicy)} {given : List Block} {t : MergeTable}
  {i : BlockIdentity}

/-- One more block is reported if it is of the identity and another one was given before. -/
theorem filter_repeats_mergeBlock (h : KeptFrom policies given t)
    (hunique : policyFor policies i.blockType = some .uniqueByLabel) (b : Block) :
    (t.mergeBlock b).2.filter (repeats (.block i)) =
      if b.identity = i then ((given.find? (·.identity = i)).map fun first =>
        redeclared (.block i first.header) b.header).toList
      else [] := by
  have hcase := t.mergeCase b
  rw [policy?_eq_policyFor, h.policies_eq] at hcase
  -- a block under another policy is not of the identity
  have hother : policyFor policies b.blockType ≠ some .uniqueByLabel → b.identity ≠ i := by
    rintro hne rfl
    exact hne hunique
  generalize hpolicy : policyFor policies b.blockType = policy at hcase hother
  generalize t.mergeBlock b = result at hcase ⊢
  cases hcase with
  | unknown =>
    rw [if_neg (hother (by simp))]
    exact filter_repeats_eq_nil fun d hd => by
      obtain rfl := List.mem_singleton.1 hd
      rfl
  | fused =>
    rw [if_neg (hother (by simp))]
    exact filter_repeats_eq_nil fun d hd =>
      repeats_of_conflict (MergedBlock.conflicts_absorb_and_absorbAll.2 _ _ d hd) fun _ => rfl
  | repeated hfirst =>
    rw [h.first?_eq hpolicy] at hfirst
    split
    · rename_i hi
      subst hi
      simp [hfirst, Redeclaration.first]
    · rename_i hi
      exact filter_repeats_eq_nil fun d hd => by
        obtain rfl := List.mem_singleton.1 hd
        simp [hi]
  | unique hfirst =>
    rw [h.first?_eq hpolicy] at hfirst
    split
    · rename_i hi
      subst hi
      simp [hfirst]
    · rfl
  | appended | replaced | added =>
    rw [if_neg (hother (by simp))]
    rfl

/-- The blocks of an identity that is unique: by induction from the end, with all blocks before the
last one given. -/
theorem filter_repeats_mergeBlocks
    (hunique : policyFor policies i.blockType = some .uniqueByLabel) (bs : List Block) :
    ((new policies).mergeBlocks bs).2.filter (repeats (.block i)) =
      citing (.block i) ((bs.filter (·.identity = i)).map Block.header) := by
  induction bs using List.reverseRecOn with
  | nil => rfl
  | append_singleton bs b ih =>
    have hkept : KeptFrom policies bs ((new policies).mergeBlocks bs).1 :=
      (KeptFrom.preserved policies).mergeBlocks (KeptFrom.new policies) bs
    have hlast : ∀ t : MergeTable, (t.mergeBlocks [b]).2 = (t.mergeBlock b).2 := fun t => by
      simp [mergeBlocks]
    rw [mergeBlocks_append, List.filter_append, ih, hlast, filter_repeats_mergeBlock hkept hunique,
      List.filter_append, List.map_append]
    by_cases hi : b.identity = i
    · have hone : [b].filter (·.identity = i) = [b] := by simp [hi]
      rw [if_pos hi, hone, List.map_singleton, citing_concat, List.head?_map, List.head?_filter,
        Option.map_map]
      rfl
    · simp [hi]

end Blocks

/-! ## Files -/

/-- The attributes of files have no part in reports about other things. -/
theorem filter_repeats_mergeFiles_eq {again : SourceRange → Redeclaration}
    (hagain : ∀ first, (again first).ofAttribute = false) (t : MergeTable)
    (files : List SourceFile) :
    (t.mergeFiles files).2.filter (repeats again) =
      (t.mergeBlocks (scopeBlocks files)).2.filter (repeats again) := by
  induction files generalizing t with
  | nil => rfl
  | cons f files ih =>
    -- the errors of attributes are of another kind, and the attributes that are held change no
    -- errors of blocks
    have hattributes : (t.mergeAttributes f.body.attributes).2.filter (repeats again) = [] := by
      refine filter_repeats_eq_nil fun d hd => ?_
      obtain ⟨name, first, range, rfl⟩ := MergedBlock.exists_of_mem_absorbAttributes hd
      exact repeats_of_attribute rfl hagain
    set x := (t.mergeAttributes f.body.attributes).1.attributes
    set bs := f.body.blocks.filter (!isImport ·)
    have hown : { t with attributes := x }.mergeBlocks bs =
        ({ (t.mergeBlocks bs).1 with attributes := x }, (t.mergeBlocks bs).2) :=
      mergeBlocks_attributes t x bs
    have hrest := mergeBlocks_attributes (t.mergeBlocks bs).1 x (scopeBlocks files)
    calc (t.mergeFiles (f :: files)).2.filter (repeats again)
      _ = ((t.mergeAttributes f.body.attributes).2 ++
          ({ t with attributes := x }.mergeBlocks bs).2 ++
          (({ t with attributes := x }.mergeBlocks bs).1.mergeFiles files).2).filter
            (repeats again) := rfl
      _ = (t.mergeBlocks bs).2.filter (repeats again) ++
          ((t.mergeBlocks bs).1.mergeBlocks (scopeBlocks files)).2.filter (repeats again) := by
        rw [List.filter_append, List.filter_append, hattributes, List.nil_append, ih, hown, hrest]
      _ = (t.mergeBlocks (scopeBlocks (f :: files))).2.filter (repeats again) := by
        rw [← List.filter_append, show scopeBlocks (f :: files) = bs ++ scopeBlocks files from rfl,
          mergeBlocks_append]

/-- Of the blocks of an identity that is unique, merging files reports all but the first. -/
theorem filter_repeats_mergeFiles {policies : List (String × MergePolicy)} {i : BlockIdentity}
    (hunique : policyFor policies i.blockType = some .uniqueByLabel) (files : List SourceFile) :
    ((new policies).mergeFiles files).2.filter (repeats (.block i)) =
      citing (.block i) (((scopeBlocks files).filter (·.identity = i)).map Block.header) := by
  rw [filter_repeats_mergeFiles_eq fun _ => rfl, filter_repeats_mergeBlocks hunique]

/-- Names are not looked at when blocks are merged. -/
theorem filter_repeats_named_mergeFiles (t : MergeTable) (kind name : String)
    (files : List SourceFile) :
    (t.mergeFiles files).2.filter (repeats (.named kind name)) = [] := by
  rw [filter_repeats_mergeFiles_eq fun _ => rfl]
  generalize scopeBlocks files = bs
  induction bs generalizing t with
  | nil => rfl
  | cons b bs ih =>
    rw [mergeBlocks, List.filter_append, ih, List.append_nil]
    refine filter_repeats_eq_nil fun d hd => ?_
    have hcase := t.mergeCase b
    generalize t.policy? b.blockType = policy at hcase
    generalize t.mergeBlock b = result at hcase hd
    cases hcase with
    | fused =>
      exact repeats_of_conflict (MergedBlock.conflicts_absorb_and_absorbAll.2 _ _ d hd) fun _ => rfl
    | unknown | repeated =>
      obtain rfl := List.mem_singleton.1 hd
      rfl
    | appended | unique | replaced | added => cases hd

end MergeTable

end ScopeConfig
