import ScopeConfig.Proofs.Merge.Entities

/-!
# A merge table with an index

The blocks of the types that are unique or overridden can be found without a search: an index has
the place of every identity that was seen among them, next to the one list in which all the blocks
that are not fused are kept. A place is never given up, so the index has to stay right while blocks
of other types are added to the list and later blocks are put over earlier ones.

An operation on a table with an index has no result when the index points to a place at which there
is no block.

## Main statements

* `IndexedTable.Faithful.mergeBlock`: merging one block, with an index and without.
* `IndexedTable.Faithful.applyAll`: an index is never wrong, and makes no difference.
-/

namespace ScopeConfig

open Syntax

namespace MergeTable

/-! ## Places -/

/-- Whether the places of the blocks of a type are remembered. -/
def Tracked (policies : List (String × MergePolicy)) (blockType : String) : Prop :=
  policyFor policies blockType = some .uniqueByLabel ∨
    policyFor policies blockType = some .override

variable {t : MergeTable} {i : BlockIdentity} {b : Block}

/-- The place of an identity depends only on the identities of the kept blocks. -/
theorem place?_eq_findIdx? (t : MergeTable) (i : BlockIdentity) :
    t.place? i = (t.unmerged.map Block.identity).findIdx? (· = i) := by
  rw [List.findIdx?_map]
  rfl

/-- The place of an identity after one more block: the place before, or that of the block. -/
theorem place?_push (t : MergeTable) (b : Block) (i : BlockIdentity) :
    (t.push b).place? i =
      (t.place? i).or (if b.identity = i then some t.unmerged.length else none) := by
  rw [place?, push, List.findIdx?_append, List.findIdx?_singleton]
  by_cases hi : b.identity = i <;> simp [place?, hi]

/-- The place of an identity is that of a block of the identity. -/
theorem identity_of_place? {n : Nat} (h : t.place? i = some n) :
    ∃ first, t.unmerged[n]? = some first ∧ first.identity = i := by
  obtain ⟨hlt, hid, -⟩ := List.findIdx?_eq_some_iff_getElem.1 h
  exact ⟨t.unmerged[n], List.getElem?_eq_getElem hlt, by simpa using hid⟩

/-- The block at the place of an identity is the first block of the identity. -/
theorem first?_eq_getElem? {n : Nat} (h : t.place? i = some n) : t.first? i = t.unmerged[n]? := by
  rw [first?, List.find?_eq_bind_findIdx?_getElem?]
  rw [place?] at h
  rw [h, Option.bind_some]

/-- An identity without a place has no first block. -/
theorem first?_eq_none {t : MergeTable} (h : t.place? i = none) : t.first? i = none := by
  rw [place?, List.findIdx?_eq_none_iff] at h
  simpa [first?] using h

/-- A block over one of its own identity leaves all identities where they were. -/
theorem map_identity_set {l : List Block} {n : Nat} {first : Block} (hn : l[n]? = some first)
    (hid : first.identity = b.identity) :
    (l.set n b).map Block.identity = l.map Block.identity := by
  rw [List.map_set, ← hid]
  refine List.ext_getElem? fun k => ?_
  rw [List.getElem?_set, List.getElem?_map]
  by_cases hk : n = k
  · subst hk
    obtain ⟨hlt, hget⟩ := List.getElem?_eq_some_iff.1 hn
    simp [hlt, hget]
  · simp [hk]

end MergeTable

/-- A merge table, and the places of the identities that were seen among its unique and overridden
blocks. -/
structure IndexedTable where
  table : MergeTable
  seen : List (BlockIdentity × Nat)

namespace IndexedTable

/-! ## Operations -/

/-- The table that nothing was merged into yet. -/
def new (policies : List (String × MergePolicy)) : IndexedTable :=
  ⟨.new policies, []⟩

/-- Keeps a block at the end and remembers its place. -/
def record (x : IndexedTable) (b : Block) : IndexedTable :=
  ⟨x.table.push b, (b.identity, x.table.unmerged.length) :: x.seen⟩

/-- The table with a block put over the one at a place. -/
def overwrite (x : IndexedTable) (place : Nat) (b : Block) : IndexedTable :=
  { x with table := { x.table with unmerged := x.table.unmerged.set place b } }

/-- Merges one block under the policy for its type. There is no result if the index points outside
of the blocks that are kept. -/
def mergeBlock (x : IndexedTable) (b : Block) : Option (IndexedTable × List Diagnostic) :=
  match x.table.policy? b.blockType with
  | none => some (x, [.schema (.unknownTopBlock b.blockType) b.header])
  | some .mergeByLabel =>
    let (merged, faults) := MergedBlock.absorbAll x.table.merged [b]
    some ({ x with table := { x.table with merged } }, faults)
  | some .append => some ({ x with table := x.table.push b }, [])
  | some .uniqueByLabel =>
    match x.seen.lookup b.identity with
    | some place =>
      x.table.unmerged[place]?.map fun first =>
        (x, [.redeclared (.block b.identity first.header) b.header])
    | none => some (x.record b, [])
  | some .override =>
    match x.seen.lookup b.identity with
    | some place =>
      if place < x.table.unmerged.length then some (x.overwrite place b, []) else none
    | none => some (x.record b, [])

/-- Merges blocks, one after the other. -/
def mergeBlocks (x : IndexedTable) : List Block → Option (IndexedTable × List Diagnostic)
  | [] => some (x, [])
  | b :: blocks => do
    let (x, faults) ← x.mergeBlock b
    let (x, more) ← x.mergeBlocks blocks
    some (x, faults ++ more)

/-- Merges the attributes of one body. -/
def mergeAttributes (x : IndexedTable) (attributes : AttributeTable) :
    IndexedTable × List Diagnostic :=
  let (table, faults) := x.table.mergeAttributes attributes
  ({ x with table }, faults)

/-- Merges the attributes and the blocks of one body. -/
def mergeBody (x : IndexedTable) (body : Body) : Option (IndexedTable × List Diagnostic) := do
  let (x, faults) := x.mergeAttributes body.attributes
  let (x, more) ← x.mergeBlocks body.blocks
  some (x, faults ++ more)

/-- Merges what an operation gives. -/
def apply (x : IndexedTable) : MergeTable.Operation → Option (IndexedTable × List Diagnostic)
  | .attributes given => some (x.mergeAttributes given)
  | .block given => x.mergeBlock given
  | .blocks given => x.mergeBlocks given
  | .body given => x.mergeBody given

/-- Carries out operations, one after the other, whether there are errors or not. -/
def applyAll (x : IndexedTable) :
    List MergeTable.Operation → Option (IndexedTable × List Diagnostic)
  | [] => some (x, [])
  | op :: ops => do
    let (x, faults) ← x.apply op
    let (x, more) ← x.applyAll ops
    some (x, faults ++ more)

/-! ## Faithful indexes -/

/-- Every place in the index is that of a block of the identity it stands for, and the index finds
what a search finds, whether or not there is something to find. -/
structure Faithful (x : IndexedTable) : Prop where
  designates : ∀ e ∈ x.seen, ∃ b, x.table.unmerged[e.2]? = some b ∧ b.identity = e.1
  lookup_eq : ∀ i : BlockIdentity, MergeTable.Tracked x.table.policies i.blockType →
    x.seen.lookup i = x.table.place? i

/-- An operation on a table with an index has a result, and it is that of the operation on the table
alone, with an index that is still right. -/
def Agrees (result : Option (IndexedTable × List Diagnostic))
    (plain : MergeTable × List Diagnostic) : Prop :=
  ∃ x : IndexedTable, result = some (x, plain.2) ∧ x.table = plain.1 ∧ x.Faithful

namespace Faithful

variable {x : IndexedTable} {b : Block}

/-- The index of a new table is right. -/
theorem new (policies : List (String × MergePolicy)) : Faithful (.new policies) :=
  ⟨by simp [IndexedTable.new], fun _ _ => rfl⟩

/-- Only the kept blocks and the policies matter. -/
theorem of_table_eq (h : x.Faithful) {t : MergeTable} (hpolicies : t.policies = x.table.policies)
    (hunmerged : t.unmerged = x.table.unmerged) : Faithful { x with table := t } where
  designates := by
    simpa only [hunmerged] using h.designates
  lookup_eq i hi := by
    rw [hpolicies] at hi
    rw [MergeTable.place?_eq_findIdx?, hunmerged, ← MergeTable.place?_eq_findIdx?]
    exact h.lookup_eq i hi

/-- A block at the end leaves the places before it as they were. -/
theorem designates_push (h : x.Faithful) (b : Block) {e : BlockIdentity × Nat} (he : e ∈ x.seen) :
    ∃ c, (x.table.push b).unmerged[e.2]? = some c ∧ c.identity = e.1 := by
  obtain ⟨c, hc, hid⟩ := h.designates e he
  obtain ⟨hlt, -⟩ := List.getElem?_eq_some_iff.1 hc
  exact ⟨c, (List.getElem?_append_left hlt).trans hc, hid⟩

/-- A block whose place is not remembered, kept at the end. -/
theorem push (h : x.Faithful) (hb : ¬MergeTable.Tracked x.table.policies b.blockType) :
    Faithful { x with table := x.table.push b } where
  designates _ he := h.designates_push b he
  lookup_eq i hi := by
    have hne : b.identity ≠ i := by
      rintro rfl
      exact hb hi
    rw [MergeTable.place?_push, if_neg hne, Option.or_none]
    exact h.lookup_eq i hi

/-- A block of an identity that was not seen, kept at the end with its place. -/
theorem record (h : x.Faithful) (hnew : x.table.place? b.identity = none) :
    (x.record b).Faithful where
  designates e he := by
    rcases List.mem_cons.1 he with rfl | he
    · exact ⟨b, by simp [IndexedTable.record, MergeTable.push], rfl⟩
    · exact h.designates_push b he
  lookup_eq i hi := by
    show List.lookup i ((b.identity, x.table.unmerged.length) :: x.seen) = _
    rw [List.lookup_cons]
    show _ = (x.table.push b).place? i
    rw [MergeTable.place?_push]
    by_cases heq : i = b.identity
    · subst heq
      simp [hnew]
    · rw [if_neg (Ne.symm heq), Option.or_none, beq_eq_false_iff_ne.2 heq]
      exact h.lookup_eq i hi

/-- A block put over an earlier one of its identity. -/
theorem overwrite (h : x.Faithful) {n : Nat} (hn : x.table.place? b.identity = some n) :
    (x.overwrite n b).Faithful := by
  obtain ⟨first, hfirst, hid⟩ := MergeTable.identity_of_place? hn
  -- places depend on identities only, and these stay where they were
  have hsame : (x.overwrite n b).table.unmerged.map Block.identity =
      x.table.unmerged.map Block.identity := MergeTable.map_identity_set hfirst hid
  constructor
  · intro e he
    obtain ⟨c, hc, hce⟩ := h.designates e he
    have hat : ((x.overwrite n b).table.unmerged.map Block.identity)[e.2]? = some e.1 := by
      rw [hsame, List.getElem?_map, hc, Option.map_some, hce]
    rw [List.getElem?_map] at hat
    exact Option.map_eq_some_iff.1 hat
  · intro i hi
    rw [MergeTable.place?_eq_findIdx?, hsame, ← MergeTable.place?_eq_findIdx?]
    exact h.lookup_eq i hi

/-- Merging one block: by cases on the policy for its type, and on whether a block of its identity
was seen. -/
theorem mergeBlock (h : x.Faithful) (b : Block) :
    Agrees (x.mergeBlock b) (x.table.mergeBlock b) := by
  rw [IndexedTable.mergeBlock, MergeTable.mergeBlock]
  cases hpolicy : x.table.policy? b.blockType with
  | none => exact ⟨x, rfl, rfl, h⟩
  | some policy =>
    cases policy with
    -- these leave the blocks that are kept alone, or add one whose place is not remembered
    | mergeByLabel => exact ⟨_, rfl, rfl, h.of_table_eq rfl rfl⟩
    | append =>
      refine ⟨_, rfl, rfl, h.push ?_⟩
      have hfor : MergeTable.policyFor x.table.policies b.blockType = some .append := hpolicy
      simp [MergeTable.Tracked, hfor]
    -- here the index is asked, and it answers what the search answers
    | uniqueByLabel =>
      simp only [h.lookup_eq b.identity (.inl hpolicy)]
      cases hplace : x.table.place? b.identity with
      | none =>
        rw [MergeTable.first?_eq_none hplace]
        exact ⟨_, rfl, rfl, h.record hplace⟩
      | some n =>
        obtain ⟨first, hfirst, -⟩ := MergeTable.identity_of_place? hplace
        simp only [MergeTable.first?_eq_getElem? hplace, hfirst]
        exact ⟨x, rfl, rfl, h⟩
    | override =>
      simp only [h.lookup_eq b.identity (.inr hpolicy)]
      cases hplace : x.table.place? b.identity with
      | none => exact ⟨_, rfl, rfl, h.record hplace⟩
      | some n =>
        obtain ⟨first, hfirst, -⟩ := MergeTable.identity_of_place? hplace
        obtain ⟨hlt, -⟩ := List.getElem?_eq_some_iff.1 hfirst
        exact ⟨_, if_pos hlt, rfl, h.overwrite hplace⟩

/-- Of two steps, the second goes on from the table that the first gave. -/
theorem andThen {first : Option (IndexedTable × List Diagnostic)}
    {plain : MergeTable × List Diagnostic}
    (second : IndexedTable → Option (IndexedTable × List Diagnostic))
    (plainSecond : MergeTable → MergeTable × List Diagnostic) (hfirst : Agrees first plain)
    (hsecond : ∀ x : IndexedTable, x.Faithful → Agrees (second x) (plainSecond x.table)) :
    Agrees (do
      let (x, faults) ← first
      let (x, more) ← second x
      some (x, faults ++ more))
      ((plainSecond plain.1).1, plain.2 ++ (plainSecond plain.1).2) := by
  obtain ⟨x, rfl, htable, hx⟩ := hfirst
  obtain ⟨y, hy, hytable, hyfaithful⟩ := hsecond x hx
  rw [htable] at hy hytable
  exact ⟨y, by simp [hy], hytable, hyfaithful⟩

/-- Merging blocks into a table with an index agrees with merging them into the table alone. -/
theorem mergeBlocks (h : x.Faithful) (bs : List Block) :
    Agrees (x.mergeBlocks bs) (x.table.mergeBlocks bs) := by
  induction bs generalizing x with
  | nil => exact ⟨x, rfl, rfl, h⟩
  | cons b bs ih =>
    exact andThen (·.mergeBlocks bs) (·.mergeBlocks bs) (h.mergeBlock b) fun y hy => ih hy

/-- Merging attributes into a table with an index agrees with merging them into the table alone. -/
theorem mergeAttributes (h : x.Faithful) (given : AttributeTable) :
    Agrees (some (x.mergeAttributes given)) (x.table.mergeAttributes given) :=
  ⟨_, rfl, rfl, h.of_table_eq rfl rfl⟩

/-- Every operation on a table with an index agrees with the operation on the table alone. -/
theorem apply (h : x.Faithful) (op : MergeTable.Operation) :
    Agrees (x.apply op) (x.table.apply op) := by
  cases op with
  | attributes given => exact h.mergeAttributes given
  | block given => exact h.mergeBlock given
  | blocks given => exact h.mergeBlocks given
  | body given =>
    exact andThen (·.mergeBlocks given.blocks) (·.mergeBlocks given.blocks)
      (h.mergeAttributes given.attributes) fun y hy => hy.mergeBlocks given.blocks

/-- After any operations, whatever errors they found, a table with an index is the table without,
and its index is right: by induction on the operations, each of which starts from a right index. -/
theorem applyAll (h : x.Faithful) (ops : List MergeTable.Operation) :
    Agrees (x.applyAll ops) (x.table.applyAll ops) := by
  induction ops generalizing x with
  | nil => exact ⟨x, rfl, rfl, h⟩
  | cons op ops ih => exact andThen (·.applyAll ops) (·.applyAll ops) (h.apply op) fun y hy => ih hy

end Faithful

end IndexedTable

end ScopeConfig
