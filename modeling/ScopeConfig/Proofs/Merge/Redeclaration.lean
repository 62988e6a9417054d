import Mathlib.Algebra.BigOperators.Group.Finset.Basic
import Mathlib.Algebra.Order.BigOperators.Group.Finset
import ScopeConfig.Proofs.Merge.Entities

/-!
# Which attributes are reported as redeclared

Blocks that are fused declare attributes in entities: an entity is a merged block at some depth,
known by the identities on the way to it. Fusing blocks reports exactly those occurrences of
attributes that are not the first of their name in their entity, in the order in which they stand
and each with the first one.

While blocks are fused, the tables of the merged blocks hold the first occurrence of every name in
every entity. `Mirrors` says so, for one list of merged blocks and the occurrences seen so far;
fusing one more block keeps it, and reports what it tells.

How often something is reported depends on the number of occurrences and of different names only,
and therefore not on the order of the blocks.

## Main statements

* `MergedBlock.absorbAll_reports`: what fusing blocks reports.
* `length_redeclarations`, `redeclarations_eq_nil_iff`: how much is reported, and when nothing is.
* `MergeTable.redeclarations_exact`: what merging blocks reports, in any order.
-/

namespace ScopeConfig

open Syntax

/-! ## Occurrences of attributes -/

/-- An attribute as it occurs among blocks: the identities of the blocks around its own block, from
the outermost on, the identity of its own block, and the attribute. -/
structure Occurrence where
  path : List BlockIdentity
  owner : BlockIdentity
  decl : Attribute

/-- A name in an entity, which is known by the identities on the way to it and its own. -/
structure EntityName where
  path : List BlockIdentity
  owner : BlockIdentity
  name : String
deriving DecidableEq

namespace Occurrence

/-- The entity of an occurrence and the name of the attribute. -/
def key (o : Occurrence) : EntityName :=
  ⟨o.path, o.owner, o.decl.name⟩

/-- What is reported of an occurrence that is not the first. -/
def report (first o : Occurrence) : Diagnostic :=
  .redeclared (.attributeOf o.decl.name o.owner first.decl.nameRange)
    o.decl.nameRange

end Occurrence

mutual

/-- The attributes in a block and in the blocks inside it, those of a block before those of the
blocks in it. `path` holds the identities of the blocks around it. -/
def occurrences (path : List BlockIdentity) : Block → List Occurrence
  | b@⟨_, _, attributes, blocks, _, _, _⟩ =>
    attributes.entries.map (⟨path, b.identity, ·⟩) ++
      occurrencesAll (path ++ [b.identity]) blocks

/-- The attributes in some blocks and in the blocks inside them. -/
def occurrencesAll (path : List BlockIdentity) : List Block → List Occurrence
  | [] => []
  | b :: blocks => occurrences path b ++ occurrencesAll path blocks

end

/-- What is reported of occurrences that come after those in `seen`: every one that is not the first
of its name in its entity, with the first. -/
def redeclarations (seen : List Occurrence) : List Occurrence → List Diagnostic
  | [] => []
  | o :: os =>
    ((seen.find? (·.key = o.key)).map (·.report o)).toList ++ redeclarations (seen ++ [o]) os

/-- The occurrences in a block: those of its own attributes, and then those of its inner blocks. -/
theorem occurrences_eq (path : List BlockIdentity) (b : Block) :
    occurrences path b = b.attributes.entries.map (⟨path, b.identity, ·⟩) ++
      occurrencesAll (path ++ [b.identity]) b.blocks := by
  cases b
  simp [occurrences]

/-- The occurrences in blocks, one block after the other. -/
theorem occurrencesAll_eq_flatMap (path : List BlockIdentity) (bs : List Block) :
    occurrencesAll path bs = bs.flatMap (occurrences path) := by
  induction bs with
  | nil => rfl
  | cons b bs ih => rw [occurrencesAll, ih, List.flatMap_cons]

/-- The redeclarations of two lists: the second one is seen after the first. -/
theorem redeclarations_append (seen os ps : List Occurrence) :
    redeclarations seen (os ++ ps) =
      redeclarations seen os ++ redeclarations (seen ++ os) ps := by
  induction os generalizing seen with
  | nil => simp [redeclarations]
  | cons o os ih => simp [redeclarations, ih]

/-- Whatever occurs in blocks occurs in one of them or inside one of them. -/
theorem prefix_of_mem_occurrences :
    (∀ (b : Block) (path : List BlockIdentity), ∀ o ∈ occurrences path b,
        (o.path = path ∧ o.owner = b.identity) ∨ path ++ [b.identity] <+: o.path) ∧
      ∀ (bs : List Block) (path : List BlockIdentity), ∀ o ∈ occurrencesAll path bs,
        path <+: o.path := by
  have h := occurrences.mutual_induct
    (fun path b => ∀ o ∈ occurrences path b,
      (o.path = path ∧ o.owner = b.identity) ∨ path ++ [b.identity] <+: o.path)
    (fun path bs => ∀ o ∈ occurrencesAll path bs, path <+: o.path)
  obtain ⟨hone, hall⟩ := h (by
    intro path blockType labels attributes blocks range typeRange braceRange ih o ho
    rw [occurrences_eq, List.mem_append, List.mem_map] at ho
    rcases ho with ⟨a, -, rfl⟩ | ho
    · exact .inl ⟨rfl, rfl⟩
    · exact .inr (ih o ho)) (by simp [occurrencesAll]) (by
    intro path b blocks ihBlock ihRest o ho
    rw [occurrencesAll, List.mem_append] at ho
    rcases ho with ho | ho
    · rcases ihBlock o ho with ⟨hpath, -⟩ | hprefix
      · exact hpath ▸ List.prefix_rfl
      · exact (List.prefix_append _ _).trans hprefix
    · exact ihRest o ho)
  exact ⟨fun b path => hone path b, fun bs path => hall path bs⟩

namespace MergedBlock

/-! ## What the tables hold -/

/-- The attributes of an entity: those of `owner`, inside the merged blocks on the way to it. -/
def held (es : List MergedBlock) : List BlockIdentity → BlockIdentity → AttributeTable
  | [], owner => (find es owner).attributes
  | i :: path, owner => held (find es i).children path owner

/-- The attributes that were seen in one entity. -/
def seenIn (seen : List Occurrence) (path : List BlockIdentity) (owner : BlockIdentity) :
    List Attribute :=
  (seen.filter fun o => o.path = path ∧ o.owner = owner).map (·.decl)

/-- Merged blocks hold what was seen first in every entity that begins with `path`. -/
def Mirrors (es : List MergedBlock) (path : List BlockIdentity) (seen : List Occurrence) : Prop :=
  ∀ q owner, FirstOf (held es q owner) (seenIn seen (path ++ q) owner)

section SeenIn

variable {seen os : List Occurrence} {path : List BlockIdentity} {owner : BlockIdentity}

/-- The attribute of a name that an entity has seen first is the first occurrence under that key. -/
theorem find?_seenIn (name : String) :
    (seenIn seen path owner).find? (·.name = name) =
      (seen.find? (·.key = ⟨path, owner, name⟩)).map (·.decl) := by
  rw [seenIn, List.find?_map, List.find?_filter]
  congr 2
  funext o
  simp [Occurrence.key, Bool.decide_and, and_assoc]

/-- Occurrences of attributes of its own are added to what an entity has seen. -/
theorem seenIn_append_own (as : List Attribute) :
    seenIn (seen ++ as.map (⟨path, owner, ·⟩)) path owner = seenIn seen path owner ++ as := by
  simp [seenIn, List.filter_map, Function.comp_def]

/-- What occurs elsewhere does not count. -/
theorem seenIn_append_of_forall_ne (h : ∀ o ∈ os, ¬(o.path = path ∧ o.owner = owner)) :
    seenIn (seen ++ os) path owner = seenIn seen path owner := by
  have hnone : os.filter (fun o => o.path = path ∧ o.owner = owner) = [] := by
    simpa [List.filter_eq_nil_iff] using h
  rw [seenIn, List.filter_append, hnone, List.append_nil, seenIn]

end SeenIn

/-- Where nothing was seen, no merged blocks hold it. -/
theorem Mirrors.nil : Mirrors [] [] [] := by
  have hempty : ∀ q owner, held [] q owner = .empty := by
    intro q
    induction q with
    | nil => exact fun owner => rfl
    | cons i q ih => exact ih
  intro q owner
  rw [hempty]
  exact .empty

/-- What is found after a merged block was put: that block under its identity, and what was there
under the others. -/
theorem find_put (es : List MergedBlock) (m : MergedBlock) (i : BlockIdentity) :
    find (put es m) i = if i = m.identity then m else find es i := by
  unfold find put
  by_cases hany : es.any (·.identity = m.identity) = true
  · -- the entry of the identity is replaced, the others keep their place
    obtain ⟨e, he, hid⟩ := List.any_eq_true.1 hany
    have hsame : ∀ e : MergedBlock,
        (if e.identity = m.identity then m else e).identity = e.identity := by
      intro e
      split
      · rename_i heq
        exact heq.symm
      · rfl
    rw [if_pos hany, List.find?_map]
    simp only [Function.comp_def, hsame]
    by_cases hi : i = m.identity
    · subst hi
      have hsome : (es.find? (·.identity = m.identity)).isSome = true :=
        List.find?_isSome.2 ⟨e, he, hid⟩
      obtain ⟨first, hfirst⟩ := Option.isSome_iff_exists.1 hsome
      have hfirstId : first.identity = m.identity := by simpa using List.find?_some hfirst
      simp [hfirst, hfirstId]
    · rw [if_neg hi]
      cases hfind : es.find? (·.identity = i) with
      | none => simp
      | some first =>
        have hfirstId : first.identity = i := by simpa using List.find?_some hfind
        simp [hfirstId, hi]
  · rw [if_neg hany, List.find?_append]
    by_cases hi : i = m.identity
    · subst hi
      have hnone : es.find? (·.identity = m.identity) = none := by
        simpa [List.find?_eq_none] using hany
      simp [hnone]
    · simp [hi, Ne.symm hi]

/-! ## What is reported -/

/-- Absorbing attributes reports those whose name was seen in their entity. -/
theorem absorbAttributes_reports {t : AttributeTable} {path : List BlockIdentity}
    {owner : BlockIdentity} {seen : List Occurrence} (h : FirstOf t (seenIn seen path owner))
    (as : List Attribute) :
    (absorbAttributes (.attributeOf · owner ·) t as).2 =
      redeclarations seen (as.map (⟨path, owner, ·⟩)) := by
  induction as generalizing t seen with
  | nil => rfl
  | cons a as ih =>
    have hnext : seenIn (seen ++ [⟨path, owner, a⟩]) path owner = seenIn seen path owner ++ [a] :=
      seenIn_append_own [a]
    have hfind := (h.find?_eq a.name).trans (find?_seenIn a.name)
    have hkey : (⟨path, owner, a⟩ : Occurrence).key = ⟨path, owner, a.name⟩ := rfl
    unfold absorbAttributes
    rw [List.map_cons, redeclarations, hkey]
    -- the table has the name exactly if it was seen in the entity
    cases hseen : seen.find? (·.key = ⟨path, owner, a.name⟩) with
    | none =>
      have hnew : t.find? a.name = none := by rw [hfind, hseen, Option.map_none]
      have hrest := h.add (AttributeTable.find?_eq_none_iff.1 hnew)
      rw [← hnext] at hrest
      simpa [hnew] using ih hrest
    | some first =>
      have htaken : t.find? a.name = some first.decl := by rw [hfind, hseen, Option.map_some]
      have hmem : a.name ∈ t.names := by
        by_contra hnew
        simp [AttributeTable.find?_eq_none_iff.2 hnew] at htaken
      have hrest := h.skip hmem
      rw [← hnext] at hrest
      simpa [htaken, Occurrence.report] using ih hrest

/-- Fusing a block into the entry of its identity, when what it becomes mirrors its own entity and
those inside it. -/
theorem Mirrors.put {es : List MergedBlock} {path : List BlockIdentity} {seen : List Occurrence}
    (h : Mirrors es path seen) {b : Block} {m : MergedBlock} (hid : m.identity = b.identity)
    (hown : FirstOf m.attributes (seenIn (seen ++ occurrences path b) path b.identity))
    (hinner : Mirrors m.children (path ++ [b.identity]) (seen ++ occurrences path b)) :
    Mirrors (put es m) path (seen ++ occurrences path b) := by
  intro q owner
  cases q with
  | nil =>
    rw [held, find_put, hid, List.append_nil]
    by_cases howner : owner = b.identity
    · rw [if_pos howner, howner]
      exact hown
    -- what occurs in the block is in its own entity or inside it, so nothing is added elsewhere
    · rw [if_neg howner, seenIn_append_of_forall_ne]
      · simpa [held] using h [] owner
      · rintro o ho ⟨hpath, rfl⟩
        rcases prefix_of_mem_occurrences.1 b path o ho with ⟨-, hown⟩ | hprefix
        · exact howner hown
        · have hlength := hprefix.length_le
          simp [hpath] at hlength
  | cons i q =>
    rw [held, find_put, hid]
    by_cases hi : i = b.identity
    · subst hi
      rw [if_pos rfl, List.append_cons]
      exact hinner q owner
    · rw [if_neg hi, seenIn_append_of_forall_ne]
      · exact h (i :: q) owner
      · rintro o ho ⟨hpath, -⟩
        rcases prefix_of_mem_occurrences.1 b path o ho with ⟨hown, -⟩ | hprefix
        · simp [hown] at hpath
        · rw [hpath, List.prefix_append_right_inj] at hprefix
          simp [Ne.symm hi] at hprefix

/-- Fusing the block into the merged block reports what was seen before, and what comes of it holds
what was seen first, the block included. -/
def ReportsOne (m : MergedBlock) (b : Block) : Prop :=
  ∀ (path : List BlockIdentity) (seen : List Occurrence), m.identity = b.identity →
    FirstOf m.attributes (seenIn seen path b.identity) →
    Mirrors m.children (path ++ [b.identity]) seen →
      (m.absorb b).2 = redeclarations seen (occurrences path b) ∧
        FirstOf (m.absorb b).1.attributes (seenIn (seen ++ occurrences path b) path b.identity) ∧
        Mirrors (m.absorb b).1.children (path ++ [b.identity]) (seen ++ occurrences path b)

/-- Fusing the blocks reports what was seen before, and what comes of it holds what was seen first,
the blocks included. -/
def ReportsAll (es : List MergedBlock) (bs : List Block) : Prop :=
  ∀ (path : List BlockIdentity) (seen : List Occurrence), Mirrors es path seen →
    (absorbAll es bs).2 = redeclarations seen (occurrencesAll path bs) ∧
      Mirrors (absorbAll es bs).1 path (seen ++ occurrencesAll path bs)

/-- Fusing one block reports what was seen before, if fusing its inner blocks does. -/
theorem reportsOne_of_reportsAll {m : MergedBlock} {b : Block}
    (h : ReportsAll m.children b.blocks) : ReportsOne m b := by
  intro path seen hid hown hinner
  set own : List Occurrence := b.attributes.entries.map (⟨path, b.identity, ·⟩) with hownDef
  -- the attributes of the block itself are in none of the entities inside it
  have hinner' : Mirrors m.children (path ++ [b.identity]) (seen ++ own) := by
    intro q owner
    rw [seenIn_append_of_forall_ne]
    · exact hinner q owner
    · rintro o ho ⟨hpath, -⟩
      obtain ⟨a, -, rfl⟩ := List.mem_map.1 ho
      simp at hpath
  obtain ⟨hreport, hmirrors⟩ := h _ _ hinner'
  -- and what is inside it is not in its own entity
  have hdeeper : ∀ o ∈ occurrencesAll (path ++ [b.identity]) b.blocks,
      ¬(o.path = path ∧ o.owner = b.identity) := by
    rintro o ho ⟨hpath, -⟩
    have hlength := (prefix_of_mem_occurrences.2 _ _ o ho).length_le
    simp [hpath] at hlength
  refine ⟨?_, ?_, ?_⟩
  · rw [faults_absorb, occurrences_eq, redeclarations_append, hid, absorbAttributes_reports hown,
      ← hreport]
  · rw [occurrences_eq, ← List.append_assoc, seenIn_append_of_forall_ne hdeeper, attributes_absorb,
      seenIn_append_own]
    exact hown.absorbAttributes _ _
  · rw [children_absorb, occurrences_eq, ← List.append_assoc]
    exact hmirrors

/-- Fusing a list of blocks reports what was seen before, if fusing the first one does and fusing
the rest into what comes of it. -/
theorem reportsAll_cons {es : List MergedBlock} {b : Block} {bs : List Block}
    (hone : ReportsOne (find es b.identity) b)
    (hall : ReportsAll (put es ((find es b.identity).absorb b).1) bs) :
    ReportsAll es (b :: bs) := by
  intro path seen h
  have hown : FirstOf (find es b.identity).attributes (seenIn seen path b.identity) := by
    simpa [held] using h [] b.identity
  have hinner : Mirrors (find es b.identity).children (path ++ [b.identity]) seen := by
    intro q owner
    have hq := h (b.identity :: q) owner
    rwa [held, List.append_cons] at hq
  obtain ⟨hreport, hownNext, hinnerNext⟩ := hone path seen (identity_find _ _) hown hinner
  obtain ⟨hrest, hmirrors⟩ := hall path _ (h.put (by simp) hownNext hinnerNext)
  simp only [absorbAll, occurrencesAll]
  rw [redeclarations_append, ← List.append_assoc, hreport, hrest]
  exact ⟨rfl, hmirrors⟩

/-- What fusing reports, by induction on the blocks and for all that may have been seen before. -/
theorem absorb_and_absorbAll_report :
    (∀ m b, ReportsOne m b) ∧ ∀ es bs, ReportsAll es bs := by
  apply absorb.mutual_induct ReportsOne ReportsAll
  · intro m blockType labels attributes blocks range typeRange braceRange t faults _ children
      inner _ ih
    exact reportsOne_of_reportsAll ih
  · intro es path seen h
    simpa [absorbAll, occurrencesAll, redeclarations] using h
  · intro es b blocks m faults hm children inner _ ihBlock ihRest
    refine reportsAll_cons ihBlock ?_
    rwa [hm]

/-- Fusing blocks reports the attributes that were declared before in their entity. -/
theorem absorbAll_reports (bs : List Block) :
    (absorbAll [] bs).2 = redeclarations [] (occurrencesAll [] bs) :=
  (absorb_and_absorbAll_report.2 [] bs [] [] .nil).1

end MergedBlock

/-! ## How much is reported -/

/-- Every occurrence is either reported or the first with its key. -/
theorem length_redeclarations_add (os : List Occurrence) :
    (redeclarations [] os).length + (os.map Occurrence.key).toFinset.card = os.length := by
  induction os using List.reverseRecOn with
  | nil => rfl
  -- one more occurrence is reported, or its key is new
  | append_singleton os o ih =>
    have hkeys : ((os ++ [o]).map Occurrence.key).toFinset =
        insert o.key (os.map Occurrence.key).toFinset := by
      simp [List.toFinset_append]
    rw [redeclarations_append, List.nil_append, hkeys, List.length_append, List.length_append]
    simp only [redeclarations, List.append_nil, List.length_singleton]
    cases hfind : os.find? (·.key = o.key) with
    | none =>
      have hnew : o.key ∉ (os.map Occurrence.key).toFinset := by
        simpa [List.find?_eq_none] using hfind
      rw [Finset.card_insert_of_notMem hnew]
      simp
      omega
    | some first =>
      have hseen : o.key ∈ (os.map Occurrence.key).toFinset := by
        rw [List.mem_toFinset]
        exact List.mem_map.2 ⟨first, List.mem_of_find?_eq_some hfind,
          by simpa using List.find?_some hfind⟩
      rw [Finset.insert_eq_of_mem hseen]
      simp
      omega

/-- The number of reports is, over all entities and names, the number of occurrences but one. -/
theorem length_redeclarations (os : List Occurrence) :
    (redeclarations [] os).length =
      ∑ k ∈ (os.map Occurrence.key).toFinset, ((os.map Occurrence.key).count k - 1) := by
  have hpos : ∀ k ∈ (os.map Occurrence.key).toFinset, 1 ≤ (os.map Occurrence.key).count k :=
    fun k hk => List.count_pos_iff.2 (List.mem_toFinset.1 hk)
  have htotal := length_redeclarations_add os
  rw [Finset.sum_tsub_distrib _ hpos, List.sum_toFinset_count_eq_length, List.length_map,
    Finset.sum_const, Nat.nsmul_eq_mul, mul_one]
  omega

/-- There are no redeclarations exactly if all keys are distinct. -/
theorem redeclarations_eq_nil_iff (os : List Occurrence) :
    redeclarations [] os = [] ↔ (os.map Occurrence.key).Nodup := by
  have htotal := length_redeclarations_add os
  rw [List.card_toFinset] at htotal
  rw [← List.dedup_eq_self, ← List.length_eq_zero_iff]
  constructor
  · intro hzero
    refine (List.dedup_sublist _).eq_of_length ?_
    rw [List.length_map]
    omega
  · intro hself
    rw [hself, List.length_map] at htotal
    omega

/-- How much is reported does not depend on the order. -/
theorem length_redeclarations_perm {os ps : List Occurrence} (h : os.Perm ps) :
    (redeclarations [] os).length = (redeclarations [] ps).length := by
  have hkeys : (os.map Occurrence.key).toFinset = (ps.map Occurrence.key).toFinset :=
    List.toFinset_eq_of_perm _ _ (h.map _)
  have hos := length_redeclarations_add os
  have hps := length_redeclarations_add ps
  rw [hkeys, h.length_eq] at hos
  omega

/-- Every redeclaration is reported as one. -/
theorem kind_of_mem_redeclarations {seen os : List Occurrence} {d : Diagnostic}
    (h : d ∈ redeclarations seen os) : d.kind = .redeclared := by
  induction os generalizing seen with
  | nil => cases h
  | cons o os ih =>
    rw [redeclarations, List.mem_append, Option.mem_toList, Option.map_eq_some_iff] at h
    rcases h with ⟨first, -, rfl⟩ | h
    · rfl
    · exact ih h

/-- The occurrences in blocks do not depend on the order of the blocks, up to their own order. -/
theorem occurrencesAll_perm {bs cs : List Block} (h : bs.Perm cs) (path : List BlockIdentity) :
    (occurrencesAll path bs).Perm (occurrencesAll path cs) := by
  rw [occurrencesAll_eq_flatMap, occurrencesAll_eq_flatMap]
  exact h.flatMap_right _

namespace MergeTable

/-- Blocks whose type is merged by label are fused, one after the other. -/
theorem mergeBlocks_of_fused {t : MergeTable} {bs : List Block}
    (h : ∀ b ∈ bs, t.policy? b.blockType = some .mergeByLabel) :
    t.mergeBlocks bs = ({ t with merged := (MergedBlock.absorbAll t.merged bs).1 },
      (MergedBlock.absorbAll t.merged bs).2) := by
  induction bs generalizing t with
  | nil => rfl
  | cons b bs ih =>
    have hb := h b List.mem_cons_self
    have hrest := ih (t := { t with merged := (MergedBlock.absorbAll t.merged [b]).1 })
      fun c hc => h c (List.mem_cons_of_mem _ hc)
    simp only [MergedBlock.absorbAll] at hrest
    simp [mergeBlocks, mergeBlock, hb, hrest, MergedBlock.absorbAll]

/-- Merging blocks whose types are all merged by label reports, in order, exactly the attributes
that are not the first of their name in their entity: at the name, as redeclared, and with the place
of the first. So the number of errors is, over all entities and names, the number of occurrences but
one. It is the same for every order of the blocks, and there are no errors in one order if there are
none in another. -/
theorem redeclarations_exact {policies : List (String × MergePolicy)} {bs : List Block}
    (h : ∀ b ∈ bs, policyFor policies b.blockType = some .mergeByLabel) :
    let errors := ((new policies).mergeBlocks bs).2
    let keys := (occurrencesAll [] bs).map Occurrence.key
    errors = redeclarations [] (occurrencesAll [] bs) ∧
      (∀ d ∈ errors, d.kind = .redeclared) ∧
      errors.length = ∑ k ∈ keys.toFinset, (keys.count k - 1) ∧
      ∀ cs, cs.Perm bs →
        ((new policies).mergeBlocks cs).2.length = errors.length ∧
          (((new policies).mergeBlocks cs).2 = [] ↔ errors = []) := by
  -- proved of every order at once, for the comparison at the end
  have hreport : ∀ cs : List Block, cs.Perm bs →
      ((new policies).mergeBlocks cs).2 = redeclarations [] (occurrencesAll [] cs) := by
    intro cs hperm
    have hcs : ∀ b ∈ cs, (new policies).policy? b.blockType = some .mergeByLabel :=
      fun b hb => h b (hperm.mem_iff.1 hb)
    rw [mergeBlocks_of_fused hcs]
    exact MergedBlock.absorbAll_reports cs
  intro errors keys
  have herrors : errors = redeclarations [] (occurrencesAll [] bs) := hreport bs (.refl bs)
  refine ⟨herrors, ?_, ?_, fun cs hperm => ?_⟩
  · rw [herrors]
    exact fun d hd => kind_of_mem_redeclarations hd
  · rw [herrors]
    exact length_redeclarations _
  · have hlength : ((new policies).mergeBlocks cs).2.length = errors.length := by
      rw [hreport cs hperm, herrors]
      exact length_redeclarations_perm (occurrencesAll_perm hperm [])
    refine ⟨hlength, ?_⟩
    rw [← List.length_eq_zero_iff, hlength, List.length_eq_zero_iff]

/-- The second `key` of the text is the only redeclaration, and it is reported where it stands. -/
theorem redeclarations_splitMap :
    (Body.parse "/s/a.tm" splitMap).toOption.map (fun body =>
        (body.blocks.map (·.blockType), (redeclarations [] (occurrencesAll [] body.blocks)).map
          fun d => d.range.map fun r => (r.start.line, r.start.column))) =
      some (["globals", "globals"], [some (2, 15)]) := by
  decide +kernel

/-- The second `key` of the map is reported, on its line, and in the other order of the blocks there
is one error as well. -/
theorem redeclarations_exact_splitMap :
    ∃ body : Body, (∀ b ∈ body.blocks, policyFor globalsOnly b.blockType = some .mergeByLabel) ∧
      (((new globalsOnly).mergeBlocks body.blocks).2.map fun d => d.range.map fun r =>
        (r.start.line, r.start.column)) = [some (2, 15)] ∧
      ((new globalsOnly).mergeBlocks body.blocks.reverse).2.length = 1 := by
  obtain ⟨body, -, hfields⟩ := Option.map_eq_some_iff.1 redeclarations_splitMap
  obtain ⟨htypes, hranges⟩ := Prod.mk.inj hfields
  have hfused : ∀ b ∈ body.blocks, policyFor globalsOnly b.blockType = some .mergeByLabel := by
    intro b hb
    have htype : b.blockType ∈ ["globals", "globals"] := htypes ▸ List.mem_map_of_mem hb
    have heq : b.blockType = "globals" := by simpa using htype
    rw [heq]
    decide
  obtain ⟨hreport, -, -, horder⟩ := redeclarations_exact hfused
  have hlength := congrArg List.length hranges
  rw [← hreport, List.length_map] at hlength
  refine ⟨body, hfused, by rw [hreport, hranges], ?_⟩
  rw [(horder _ body.blocks.reverse_perm).1]
  exact hlength

end MergeTable

end ScopeConfig
