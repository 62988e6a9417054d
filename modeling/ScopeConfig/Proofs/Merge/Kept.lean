import ScopeConfig.Proofs.Merge.Index

/-!
# The blocks that are kept

All blocks that are not fused stand in one list, whatever their types. Of the blocks of one type in
it, those and no others were given to the table that the policy for the type lets stand, and they do
not depend on the blocks of other types: all of them, the first of each identity, or the last of
each identity in the place of the first.

## Main statements

* `MergeTable.KeptFrom.applyAll`: what is kept after any operations.
* `MergeTable.kept_by_policy`: with the errors that one more block gives, and the index of places.
-/

namespace ScopeConfig

open Syntax

/-! ## One block of each identity -/

/-- The identities of blocks, in the order in which they occur first. -/
def identitiesOf (bs : List Block) : List BlockIdentity :=
  (bs.map Block.identity).eraseDups

/-- The first block of each identity, in order. -/
def firstOfEach (bs : List Block) : List Block :=
  (identitiesOf bs).filterMap fun i => bs.find? (·.identity = i)

/-- The last block of each identity, in the order in which the identities occur first. -/
def lastOfEach (bs : List Block) : List Block :=
  (identitiesOf bs).filterMap fun i => bs.reverse.find? (·.identity = i)

/-- The block `b` in the place of a block of its identity. -/
def Syntax.Block.supersede (b c : Block) : Block :=
  if c.identity = b.identity then b else c

/-- Superseding keeps the identity of the block. -/
@[simp] theorem identity_supersede (b c : Block) : (b.supersede c).identity = c.identity := by
  by_cases hc : c.identity = b.identity <;> simp [Block.supersede, hc]

/-- A block of another identity is not superseded. -/
theorem supersede_of_ne {b c : Block} (h : c.identity ≠ b.identity) : b.supersede c = c :=
  if_neg h

section Identities

variable {bs : List Block} {b : Block} {i : BlockIdentity}

/-- The identities of blocks are those of their members. -/
theorem mem_identitiesOf : i ∈ identitiesOf bs ↔ ∃ c ∈ bs, c.identity = i := by
  rw [identitiesOf, List.mem_eraseDups, List.mem_map]

/-- The identities of blocks are listed once each. -/
theorem nodup_identitiesOf (bs : List Block) : (identitiesOf bs).Nodup :=
  nodup_eraseDups _

/-- One more block adds its identity at the end, if it is new. -/
theorem identitiesOf_concat (bs : List Block) (b : Block) :
    identitiesOf (bs ++ [b]) =
      if b.identity ∈ identitiesOf bs then identitiesOf bs
      else identitiesOf bs ++ [b.identity] := by
  rw [identitiesOf, List.map_append, List.map_singleton, eraseDups_concat]
  simp only [identitiesOf, List.mem_eraseDups]

/-- No block of an identity is found exactly if it is not among the identities. -/
theorem find?_eq_none_iff : bs.find? (·.identity = i) = none ↔ i ∉ identitiesOf bs := by
  simp [List.find?_eq_none, mem_identitiesOf]

/-- A search from the end finds no block of an identity exactly if it is not among the
identities. -/
theorem find?_reverse_eq_none_iff :
    bs.reverse.find? (·.identity = i) = none ↔ i ∉ identitiesOf bs := by
  simp [List.find?_eq_none, mem_identitiesOf]

/-- One more block is kept at the end if it is the first of its identity. -/
theorem firstOfEach_concat (bs : List Block) (b : Block) :
    firstOfEach (bs ++ [b]) =
      if b.identity ∈ identitiesOf bs then firstOfEach bs else firstOfEach bs ++ [b] := by
  -- an identity that was seen before has its first block already
  have hold : ∀ i ∈ identitiesOf bs,
      (bs ++ [b]).find? (·.identity = i) = bs.find? (·.identity = i) := by
    intro i hi
    rw [List.find?_append]
    cases hfind : bs.find? (·.identity = i) with
    | none => exact (find?_eq_none_iff.1 hfind hi).elim
    | some first => rfl
  rw [firstOfEach, identitiesOf_concat]
  split
  · exact List.filterMap_congr hold
  · rename_i hnew
    rw [List.filterMap_append, List.filterMap_congr hold, firstOfEach]
    simp [List.find?_append, find?_eq_none_iff.2 hnew]

/-- The first blocks stand for the identities, in order. -/
theorem map_identity_firstOfEach (bs : List Block) :
    (firstOfEach bs).map Block.identity = identitiesOf bs := by
  induction bs using List.reverseRecOn with
  | nil => rfl
  | append_singleton bs b ih =>
    rw [firstOfEach_concat, identitiesOf_concat]
    split
    · exact ih
    · rw [List.map_append, ih, List.map_singleton]

/-- Looking for an identity among the first of each is looking for it among all. -/
theorem find?_firstOfEach (bs : List Block) (i : BlockIdentity) :
    (firstOfEach bs).find? (·.identity = i) = bs.find? (·.identity = i) := by
  induction bs using List.reverseRecOn with
  | nil => rfl
  | append_singleton bs b ih =>
    rw [firstOfEach_concat, List.find?_append]
    split
    · rename_i hseen
      rw [ih]
      by_cases hi : b.identity = i
      · subst hi
        cases hfind : bs.find? (·.identity = b.identity) with
        | none => exact (find?_eq_none_iff.1 hfind hseen).elim
        | some first => rfl
      · simp [hi]
    · rw [List.find?_append, ih]

/-- One more block takes the place of the block of its identity, or comes last. -/
theorem lastOfEach_concat (bs : List Block) (b : Block) :
    lastOfEach (bs ++ [b]) =
      if b.identity ∈ identitiesOf bs then (lastOfEach bs).map b.supersede
      else lastOfEach bs ++ [b] := by
  -- the new block is the last of its identity, and changes nothing for the others
  have hlast : ∀ i, (bs ++ [b]).reverse.find? (·.identity = i) =
      if b.identity = i then some b else bs.reverse.find? (·.identity = i) := by
    intro i
    by_cases hi : b.identity = i <;> simp [hi]
  rw [lastOfEach, identitiesOf_concat, funext hlast]
  split
  · rw [lastOfEach, List.map_filterMap]
    refine List.filterMap_congr fun i hi => ?_
    cases hfind : bs.reverse.find? (·.identity = i) with
    | none => exact (find?_reverse_eq_none_iff.1 hfind hi).elim
    | some last =>
      have hid : last.identity = i := by simpa using List.find?_some hfind
      by_cases heq : b.identity = i
      · simp [Block.supersede, heq, hid]
      · simp [Block.supersede, heq, hid, Ne.symm heq]
  · rename_i hnew
    rw [List.filterMap_append, lastOfEach]
    congr 1
    · refine List.filterMap_congr fun i hi => if_neg ?_
      rintro rfl
      exact hnew hi
    · simp

/-- The last blocks stand for the identities, in order. -/
theorem map_identity_lastOfEach (bs : List Block) :
    (lastOfEach bs).map Block.identity = identitiesOf bs := by
  induction bs using List.reverseRecOn with
  | nil => rfl
  | append_singleton bs b ih =>
    rw [lastOfEach_concat, identitiesOf_concat]
    split
    · rw [List.map_map, ← ih]
      exact List.map_congr_left fun c _ => identity_supersede b c
    · rw [List.map_append, ih, List.map_singleton]

/-- Putting a block in the place of the only one of its identity, seen from the list as a whole. -/
theorem set_eq_map_supersede {l : List Block} {n : Nat}
    (hplace : l.findIdx? (·.identity = b.identity) = some n)
    (hone : (l.map Block.identity).count b.identity ≤ 1) : l.set n b = l.map b.supersede := by
  induction l generalizing n with
  | nil => simp at hplace
  | cons c l ih =>
    rw [List.findIdx?_cons] at hplace
    rw [List.map_cons, List.count_cons] at hone
    by_cases hc : c.identity = b.identity
    · obtain rfl : 0 = n := by simpa [hc] using hplace
      have hrest : b.identity ∉ l.map Block.identity := by
        rw [if_pos (by simpa using hc)] at hone
        exact List.count_eq_zero.1 (by omega)
      have hsame : l.map b.supersede = l := by
        refine (List.map_congr_left fun d hd => supersede_of_ne fun hid => ?_).trans (List.map_id l)
        exact hrest (hid ▸ List.mem_map_of_mem hd)
      rw [List.set_cons_zero, List.map_cons, hsame, Block.supersede, if_pos hc]
    · rw [if_neg (by simpa using hc), Option.map_eq_some_iff] at hplace
      obtain ⟨m, hm, rfl⟩ := hplace
      have hl : (l.map Block.identity).count b.identity ≤ 1 := by omega
      rw [List.set_cons_succ, List.map_cons, supersede_of_ne hc, ih hm hl]

end Identities

namespace MergeTable

/-! ## What a policy keeps -/

/-- The blocks of one type that are kept, of all those given, under the policy for the type. -/
def kept : Option MergePolicy → List Block → List Block
  | some .append, bs => bs
  | some .uniqueByLabel, bs => firstOfEach bs
  | some .override, bs => lastOfEach bs
  | some .mergeByLabel, _ => []
  | none, _ => []

/-- Under every type, a table keeps what its policy keeps of the given blocks of the type. -/
structure KeptFrom (policies : List (String × MergePolicy)) (given : List Block) (t : MergeTable) :
    Prop where
  policies_eq : t.policies = policies
  unmergedOf_eq : ∀ blockType, t.unmergedOf blockType =
    kept (policyFor policies blockType) (given.filter (·.blockType = blockType))

/-- A block of an identity is of the type of the identity. -/
theorem first?_eq_find?_unmergedOf (t : MergeTable) (i : BlockIdentity) :
    t.first? i = (t.unmergedOf i.blockType).find? (·.identity = i) := by
  rw [first?, unmergedOf, List.find?_filter]
  congr 1
  funext c
  by_cases hc : c.identity = i
  · simp [← hc, Block.identity]
  · simp [hc]

/-- A block of an identity is found among the blocks of its type. -/
theorem find?_filter_blockType (bs : List Block) (i : BlockIdentity) :
    (bs.filter (·.blockType = i.blockType)).find? (·.identity = i) =
      bs.find? (·.identity = i) :=
  (first?_eq_find?_unmergedOf ⟨[], .empty, [], bs⟩ i).symm

/-- A block that is pushed is kept at the end of its type. -/
theorem unmergedOf_push (t : MergeTable) (b : Block) (blockType : String) :
    (t.push b).unmergedOf blockType =
      t.unmergedOf blockType ++ [b].filter (·.blockType = blockType) := by
  rw [unmergedOf, push, List.filter_append, unmergedOf]

/-- How often an identity stands among the kept blocks is decided by those of its type. -/
theorem count_unmergedOf (t : MergeTable) (i : BlockIdentity) :
    ((t.unmergedOf i.blockType).map Block.identity).count i =
      (t.unmerged.map Block.identity).count i := by
  simp only [unmergedOf, List.count_eq_countP, List.countP_map, List.countP_filter]
  refine List.countP_congr fun c _ => ?_
  by_cases hc : c.identity = i
  · simp [← hc, Block.identity]
  · simp [hc]

/-- Superseding blocks of one type, before or after the type is picked out. -/
theorem filter_map_supersede (l : List Block) (b : Block) (blockType : String) :
    (l.map b.supersede).filter (·.blockType = blockType) =
      (l.filter (·.blockType = blockType)).map b.supersede := by
  have htype : ∀ c : Block, (b.supersede c).blockType = c.blockType := fun c =>
    congrArg BlockIdentity.blockType (identity_supersede b c)
  rw [List.filter_map]
  congr 1
  exact List.filter_congr fun c _ => by simp [htype]

namespace KeptFrom

variable {policies : List (String × MergePolicy)} {given : List Block} {t : MergeTable} {b : Block}

theorem new (policies : List (String × MergePolicy)) : KeptFrom policies [] (.new policies) where
  policies_eq := rfl
  unmergedOf_eq blockType := by
    show [] = kept (policyFor policies blockType) []
    unfold kept
    split <;> rfl

/-- One more block changes what is kept of its own type only. -/
theorem step (h : KeptFrom policies given t) {t' : MergeTable}
    (hpolicies : t'.policies = t.policies)
    (hothers : ∀ blockType, blockType ≠ b.blockType →
      t'.unmergedOf blockType = t.unmergedOf blockType)
    (hown : t'.unmergedOf b.blockType = kept (policyFor policies b.blockType)
      (given.filter (·.blockType = b.blockType) ++ [b])) :
    KeptFrom policies (given ++ [b]) t' where
  policies_eq := hpolicies.trans h.policies_eq
  unmergedOf_eq blockType := by
    rw [List.filter_append]
    by_cases hb : blockType = b.blockType
    · subst hb
      simpa using hown
    · rw [hothers blockType hb, h.unmergedOf_eq]
      simp [Ne.symm hb]

/-- A block that is not kept. -/
theorem skip (h : KeptFrom policies given t) {t' : MergeTable}
    (hpolicies : t'.policies = t.policies) (hunmerged : t'.unmerged = t.unmerged)
    (hkept : kept (policyFor policies b.blockType)
        (given.filter (·.blockType = b.blockType) ++ [b]) =
      kept (policyFor policies b.blockType) (given.filter (·.blockType = b.blockType))) :
    KeptFrom policies (given ++ [b]) t' := by
  have hsame : ∀ blockType, t'.unmergedOf blockType = t.unmergedOf blockType := by
    intro blockType
    rw [unmergedOf, hunmerged, unmergedOf]
  exact h.step hpolicies (fun blockType _ => hsame blockType)
    ((hsame _).trans ((h.unmergedOf_eq _).trans hkept.symm))

/-- A block that is kept at the end. -/
theorem push (h : KeptFrom policies given t)
    (hkept : kept (policyFor policies b.blockType)
        (given.filter (·.blockType = b.blockType) ++ [b]) =
      kept (policyFor policies b.blockType) (given.filter (·.blockType = b.blockType)) ++ [b]) :
    KeptFrom policies (given ++ [b]) (t.push b) := by
  refine h.step rfl (fun blockType hne => ?_) ?_
  · rw [unmergedOf_push]
    simp [Ne.symm hne]
  · rw [unmergedOf_push, h.unmergedOf_eq, hkept]
    simp

/-- A block of the given ones is found first among those that are kept, when its type is unique. -/
theorem first?_eq (h : KeptFrom policies given t)
    (hunique : policyFor policies b.blockType = some .uniqueByLabel) :
    t.first? b.identity = given.find? (·.identity = b.identity) := by
  rw [first?_eq_find?_unmergedOf]
  show (t.unmergedOf b.blockType).find? (·.identity = b.identity) = _
  rw [h.unmergedOf_eq, hunique, kept, find?_firstOfEach]
  exact find?_filter_blockType given b.identity

/-- What is kept of a type that is overridden has every identity of the given blocks once. -/
theorem identities_unmergedOf (h : KeptFrom policies given t)
    (hover : policyFor policies b.blockType = some .override) :
    (t.unmergedOf b.blockType).map Block.identity =
      identitiesOf (given.filter (·.blockType = b.blockType)) := by
  rw [h.unmergedOf_eq, hover, kept, map_identity_lastOfEach]

/-- An identity is found among the kept blocks when one of the given blocks has it. -/
theorem first?_eq_none_iff (h : KeptFrom policies given t)
    (htracked : Tracked policies b.blockType) :
    t.first? b.identity = none ↔
      b.identity ∉ identitiesOf (given.filter (·.blockType = b.blockType)) := by
  rcases htracked with hunique | hover
  · rw [h.first?_eq hunique, ← find?_filter_blockType]
    exact find?_eq_none_iff
  · rw [first?_eq_find?_unmergedOf, find?_eq_none_iff, ← h.identities_unmergedOf hover,
      identitiesOf, List.mem_eraseDups]
    rfl

/-- A block whose identity the table knows was given before. -/
theorem seen_of_first? (h : KeptFrom policies given t)
    (htracked : Tracked policies b.blockType) {first : Block}
    (hfirst : t.first? b.identity = some first) :
    b.identity ∈ identitiesOf (given.filter (·.blockType = b.blockType)) := by
  by_contra hnew
  simp [(h.first?_eq_none_iff htracked).2 hnew] at hfirst

/-- A block that is put in the place of an earlier one of its identity. -/
theorem override (h : KeptFrom policies given t)
    (hover : policyFor policies b.blockType = some .override) {n : Nat}
    (hplace : t.place? b.identity = some n)
    (hseen : b.identity ∈ identitiesOf (given.filter (·.blockType = b.blockType))) :
    KeptFrom policies (given ++ [b]) { t with unmerged := t.unmerged.set n b } := by
  -- one kept block of the identity, so that a place in the list stands for the identity
  have hone : (t.unmerged.map Block.identity).count b.identity ≤ 1 := by
    rw [← count_unmergedOf]
    show ((t.unmergedOf b.blockType).map Block.identity).count b.identity ≤ 1
    rw [h.identities_unmergedOf hover]
    exact List.nodup_iff_count_le_one.1 (nodup_eraseDups _) _
  rw [set_eq_map_supersede hplace hone]
  refine h.step rfl (fun blockType hne => ?_) ?_
  · -- no block of another type has the identity of `b`
    rw [unmergedOf, filter_map_supersede, unmergedOf]
    refine (List.map_congr_left fun c hc => supersede_of_ne fun hid => hne ?_).trans (List.map_id _)
    have hc' : c.blockType = blockType := by simpa using (List.mem_filter.1 hc).2
    exact hc'.symm.trans (congrArg BlockIdentity.blockType hid)
  · have hkept := h.unmergedOf_eq b.blockType
    rw [hover, kept, unmergedOf] at hkept
    rw [unmergedOf, filter_map_supersede, hover, kept, lastOfEach_concat, if_pos hseen, hkept]

/-- One more block, by cases on the policy for its type. -/
theorem mergeBlock (h : KeptFrom policies given t) (b : Block) :
    KeptFrom policies (given ++ [b]) (t.mergeBlock b).1 := by
  have hcase := t.mergeCase b
  rw [policy?_eq_policyFor, h.policies_eq] at hcase
  -- the cases of MergeCase say what was done with the block; the policy says what is kept of it
  generalize hpolicy : policyFor policies b.blockType = policy at hcase
  generalize t.mergeBlock b = result at hcase ⊢
  cases hcase with
  | unknown => exact h.skip rfl rfl (by rw [hpolicy, kept, kept])
  | fused => exact h.skip rfl rfl (by rw [hpolicy, kept, kept])
  | appended => exact h.push (by rw [hpolicy, kept, kept])
  | repeated hfirst =>
    have hseen := h.seen_of_first? (.inl hpolicy) hfirst
    exact h.skip rfl rfl (by rw [hpolicy, kept, firstOfEach_concat, if_pos hseen, kept])
  | unique hfirst =>
    have hnew := (h.first?_eq_none_iff (.inl hpolicy)).1 hfirst
    exact h.push (by rw [hpolicy, kept, firstOfEach_concat, if_neg hnew, kept])
  | replaced hplace =>
    obtain ⟨first, hfirst, -⟩ := identity_of_place? hplace
    rw [← first?_eq_getElem? hplace] at hfirst
    exact h.override hpolicy hplace (h.seen_of_first? (.inr hpolicy) hfirst)
  | added hplace =>
    have hnew := (h.first?_eq_none_iff (.inr hpolicy)).1 (first?_eq_none hplace)
    exact h.push (by rw [hpolicy, kept, lastOfEach_concat, if_neg hnew, kept])

theorem mergeAttributes (h : KeptFrom policies given t) (attributes : AttributeTable) :
    KeptFrom policies given (t.mergeAttributes attributes).1 :=
  ⟨h.policies_eq, h.unmergedOf_eq⟩

/-- Keeping what the policies keep is preserved by every operation. -/
theorem preserved (policies : List (String × MergePolicy)) : Preserved (KeptFrom policies) :=
  ⟨fun given h => h.mergeAttributes given, fun b h => h.mergeBlock b⟩

/-- What is kept after any operations, whatever errors they found. -/
theorem applyAll (h : KeptFrom policies given t) (ops : List Operation) :
    KeptFrom policies (given ++ ops.flatMap Operation.given) (t.applyAll ops).1 :=
  (preserved policies).applyAll h ops

end KeptFrom

end MergeTable

/-! ## One more block -/

namespace IndexedTable

/-- A block is refused with an error: the table stays as it was, and so does its index. -/
def Refuses (x : IndexedTable) (b : Block) (fault : Diagnostic) : Prop :=
  x.mergeBlock b = some (x, [fault]) ∧ x.table.mergeBlock b = (x.table, [fault])

/-- A block is kept without an error. -/
def Accepts (x : IndexedTable) (b : Block) : Prop :=
  ∃ x', x.mergeBlock b = some (x', []) ∧ x.table.mergeBlock b = (x'.table, [])

/-- What becomes of one more block after the blocks `given`: a block of an unknown type is refused,
and so is a second one of an identity that is unique, with the head of the first; others that are
not fused are accepted, and one that is fused leaves the kept blocks and their places alone. -/
def Decides (policies : List (String × MergePolicy)) (given : List Block) (x : IndexedTable)
    (b : Block) : Prop :=
  match MergeTable.policyFor policies b.blockType with
  | none => x.Refuses b (.schema (.unknownTopBlock b.blockType) b.header)
  | some .uniqueByLabel =>
    match given.find? (·.identity = b.identity) with
    | some first => x.Refuses b (.redeclared (.block b.identity first.header) b.header)
    | none => x.Accepts b
  | some .append => x.Accepts b
  | some .override => x.Accepts b
  | some .mergeByLabel => ∃ merged faults,
      x.mergeBlock b = some ({ x with table := { x.table with merged } }, faults)

section Decide

variable {x : IndexedTable} {policies : List (String × MergePolicy)} {given : List Block}
  {b first : Block}

/-- A second block of an identity that is unique is refused, by the index and by the search. -/
theorem Faithful.refuses (hx : x.Faithful)
    (hpolicy : x.table.policy? b.blockType = some .uniqueByLabel)
    (hfirst : x.table.first? b.identity = some first) :
    x.Refuses b (.redeclared (.block b.identity first.header) b.header) := by
  refine ⟨?_, by simp [MergeTable.mergeBlock, hpolicy, hfirst]⟩
  cases hplace : x.table.place? b.identity with
  | none => simp [MergeTable.first?_eq_none hplace] at hfirst
  | some n =>
    have hlookup := (hx.lookup_eq b.identity (.inl hpolicy)).trans hplace
    rw [MergeTable.first?_eq_getElem? hplace] at hfirst
    simp [IndexedTable.mergeBlock, hpolicy, hlookup, hfirst]

/-- A block that gives no error to the table alone gives none with an index. -/
theorem Faithful.accepts (hx : x.Faithful) (hnone : (x.table.mergeBlock b).2 = []) :
    x.Accepts b := by
  obtain ⟨x', hstep, htable, -⟩ := hx.mergeBlock b
  exact ⟨x', by rw [hstep, hnone], Prod.ext htable.symm hnone⟩

/-- A table with a right index decides on one more block as its policy says. -/
theorem Faithful.decides (hx : x.Faithful) (hkept : MergeTable.KeptFrom policies given x.table)
    (b : Block) : Decides policies given x b := by
  have hfor := x.table.policy?_eq_policyFor b.blockType
  rw [hkept.policies_eq] at hfor
  unfold Decides
  cases hpolicy : MergeTable.policyFor policies b.blockType with
  | none =>
    rw [hpolicy] at hfor
    exact ⟨by simp [IndexedTable.mergeBlock, hfor], by simp [MergeTable.mergeBlock, hfor]⟩
  | some policy =>
    rw [hpolicy] at hfor
    cases policy with
    | mergeByLabel =>
      refine ⟨(MergedBlock.absorbAll x.table.merged [b]).1,
        (MergedBlock.absorbAll x.table.merged [b]).2, ?_⟩
      simp only [IndexedTable.mergeBlock, hfor]
    | append => exact hx.accepts (by simp [MergeTable.mergeBlock, hfor])
    -- the index finds the first block of the identity among those that were given
    | uniqueByLabel =>
      have hfirst := hkept.first?_eq hpolicy
      cases hfound : given.find? (·.identity = b.identity) with
      | none => exact hx.accepts (by simp [MergeTable.mergeBlock, hfor, hfirst, hfound])
      | some first => exact hx.refuses hfor (hfirst.trans hfound)
    | override =>
      refine hx.accepts ?_
      simp only [MergeTable.mergeBlock, hfor]
      split <;> rfl

end Decide

end IndexedTable

namespace MergeTable

/-- The blocks that are not fused, after any operations on a table and whatever errors they found.
Those of each type depend only on the blocks of the type that were given: all of them in order, the
first of each identity, the last of each identity in the place of the first, or none, as the policy
for the type says. The same operations can be carried out with an index of places, which never
points to a place without a block, and always to a block of the identity it stands for. One more
block of an unknown type, or a second one of an identity that is unique, leaves all this as it was
and gives one error, which cites the first block; one that is added to the others or put in the
place of an earlier one gives none. -/
theorem kept_by_policy (policies : List (String × MergePolicy)) (ops : List Operation) :
    let given := ops.flatMap Operation.given
    let t := ((new policies).applyAll ops).1
    let faults := ((new policies).applyAll ops).2
    (∀ blockType, t.unmergedOf blockType =
        kept (policyFor policies blockType) (given.filter (·.blockType = blockType))) ∧
      ∃ x, (IndexedTable.new policies).applyAll ops = some (x, faults) ∧ x.table = t ∧
        (∀ e ∈ x.seen, ∃ b, t.unmerged[e.2]? = some b ∧ b.identity = e.1) ∧
        ∀ b, IndexedTable.Decides policies given x b := by
  intro given t faults
  have hkept : KeptFrom policies given t := (KeptFrom.new policies).applyAll ops
  obtain ⟨x, hrun, htable, hx⟩ := (IndexedTable.Faithful.new policies).applyAll ops
  change x.table = t at htable
  refine ⟨hkept.unmergedOf_eq, x, hrun, htable, ?_, fun b => hx.decides (htable ▸ hkept) b⟩
  rw [← htable]
  exact hx.designates

end MergeTable

end ScopeConfig
