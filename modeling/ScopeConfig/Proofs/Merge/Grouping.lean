import Mathlib.Data.List.Induction
import ScopeConfig.Merge.Entity

/-!
# Merging groups blocks by identity

Whatever conflicts there are, the merged blocks of a list of blocks are its groups by identity, in
the order in which the identities were first seen, and the origins of each are the blocks of its
identity in order. Without conflicts, the attributes of each are those of its origins, one origin
after the other.

## Main statements

* `Groups.absorbAll`: merged blocks stay the groups of the blocks that were fused into them.
* `Gathered.absorbAll`: without conflicts, no attribute is left out.
-/

namespace ScopeConfig

open Syntax

/-! ## First occurrences -/

section EraseDups

variable {α β : Type} [BEq α] [LawfulBEq α] [BEq β] [LawfulBEq β]

/-- One more element at the end of a list is kept only if it is new. -/
theorem eraseDups_concat (l : List α) (a : α) :
    (l ++ [a]).eraseDups = if a ∈ l then l.eraseDups else l.eraseDups ++ [a] := by
  rw [List.eraseDups_append]
  by_cases ha : a ∈ l <;> simp [List.removeAll, List.eraseDups_cons, ha]

/-- Leaving out elements and leaving out repetitions commute. -/
theorem eraseDups_filter (l : List α) (p : α → Bool) :
    (l.filter p).eraseDups = l.eraseDups.filter p := by
  induction l using List.reverseRecOn with
  | nil => rfl
  | append_singleton l a ih =>
    rw [eraseDups_concat, List.filter_append]
    by_cases hp : p a = true
    · by_cases ha : a ∈ l
      · simp [eraseDups_concat, hp, ha, ih]
      · simp [eraseDups_concat, hp, ha, ih]
    · by_cases ha : a ∈ l
      · simp [hp, ha, ih]
      · simp [hp, ha, ih]

/-- Elements that are told apart by `f` repeat when their images do. -/
theorem eraseDups_map {f : α → β} (hf : ∀ a b, f a = f b → a = b) (l : List α) :
    (l.map f).eraseDups = l.eraseDups.map f := by
  induction l using List.reverseRecOn with
  | nil => rfl
  | append_singleton l a ih =>
    have hmem : f a ∈ l.map f ↔ a ∈ l := by
      constructor
      · intro h
        obtain ⟨b, hb, heq⟩ := List.mem_map.1 h
        exact hf b a heq ▸ hb
      · exact List.mem_map_of_mem
    rw [List.map_append, List.map_singleton, eraseDups_concat, eraseDups_concat, ih]
    by_cases ha : a ∈ l
    · rw [if_pos (hmem.2 ha), if_pos ha]
    · rw [if_neg (mt hmem.1 ha), if_neg ha, List.map_append, List.map_singleton]

end EraseDups

/-! ## Attributes -/

/-- Attributes that are absorbed without an error are added at the end. -/
theorem entries_absorbAttributes {describe : String → SourceRange → Redeclaration}
    {t : AttributeTable} {attributes : List Attribute}
    (hok : (absorbAttributes describe t attributes).2 = []) :
    (absorbAttributes describe t attributes).1.entries = t.entries ++ attributes := by
  induction attributes generalizing t with
  | nil => simp [absorbAttributes]
  | cons a attributes ih =>
    unfold absorbAttributes at hok ⊢
    split at hok
    · simp at hok
    · rename_i hnone
      have hnew := AttributeTable.entries_add_of_not_mem (AttributeTable.find?_eq_none_iff.1 hnone)
      rw [ih hok, hnew, List.append_assoc, List.singleton_append]

namespace MergedBlock

/-! ## One more block -/

section Absorb

variable (m : MergedBlock) (b : Block)

/-- Fusing a block keeps the identity of the merged block. -/
@[simp] theorem identity_absorb : (m.absorb b).1.identity = m.identity := by
  cases b
  simp [absorb]

/-- Fusing a block adds it to the origins. -/
@[simp] theorem origins_absorb : (m.absorb b).1.origins = m.origins ++ [b] := by
  cases b
  simp [absorb]

/-- Fusing a block absorbs its attributes. -/
theorem attributes_absorb :
    (m.absorb b).1.attributes =
      (absorbAttributes (.attributeOf · m.identity ·) m.attributes b.attributes.entries).1 := by
  cases b
  simp [absorb]

/-- The errors of fusing a block: those of its attributes, and then those of its inner blocks. -/
theorem faults_absorb :
    (m.absorb b).2 =
      (absorbAttributes (.attributeOf · m.identity ·) m.attributes b.attributes.entries).2 ++
        (absorbAll m.children b.blocks).2 := by
  cases b
  simp [absorb]

end Absorb

/-! ## Entries of identities -/

/-- The entry of an identity is in the list, or new when the identity is not. -/
theorem find_cases (es : List MergedBlock) (i : BlockIdentity) :
    (find es i ∈ es ∧ (find es i).identity = i) ∨ (find es i = new i ∧ i ∉ es.map identity) := by
  unfold find
  cases hfind : es.find? (·.identity = i) with
  | none =>
    right
    refine ⟨rfl, fun hi => ?_⟩
    obtain ⟨m, hm, rfl⟩ := List.mem_map.1 hi
    simpa using List.find?_eq_none.1 hfind m hm
  | some m =>
    left
    exact ⟨List.mem_of_find?_eq_some hfind, by simpa using List.find?_some hfind⟩

/-- What is found under an identity has that identity. -/
@[simp] theorem identity_find (es : List MergedBlock) (i : BlockIdentity) :
    (find es i).identity = i := by
  rcases find_cases es i with ⟨-, hi⟩ | ⟨hnew, -⟩
  · exact hi
  · rw [hnew]
    rfl

/-- After a merged block is put in its place, the others are those of other identities. -/
theorem mem_put {es : List MergedBlock} {m n : MergedBlock} (h : n ∈ put es m) :
    n = m ∨ n ∈ es ∧ n.identity ≠ m.identity := by
  unfold put at h
  split at h
  · obtain ⟨e, he, rfl⟩ := List.mem_map.1 h
    split
    · exact .inl rfl
    · rename_i hne
      exact .inr ⟨he, hne⟩
  · rename_i hnone
    rcases List.mem_append.1 h with hn | hn
    · refine .inr ⟨hn, fun heq => hnone ?_⟩
      exact List.any_eq_true.2 ⟨n, hn, by simpa using heq⟩
    · exact .inl (List.mem_singleton.1 hn)

/-- Putting a merged block keeps the order of the identities, and a new one comes last. -/
theorem map_identity_put (es : List MergedBlock) (m : MergedBlock) :
    (put es m).map identity =
      if m.identity ∈ es.map identity then es.map identity
      else es.map identity ++ [m.identity] := by
  have hany : es.any (·.identity = m.identity) = true ↔ m.identity ∈ es.map identity := by
    simp only [List.any_eq_true, decide_eq_true_eq, List.mem_map]
  unfold put
  by_cases hm : m.identity ∈ es.map identity
  · rw [if_pos (hany.2 hm), if_pos hm, List.map_map]
    refine List.map_congr_left fun e _ => ?_
    by_cases he : e.identity = m.identity
    · simp [he]
    · simp [he]
  · rw [if_neg (fun h => hm (hany.1 h)), if_neg hm, List.map_append]
    rfl

/-! ## Groups -/

/-- The merged blocks `es` are the groups of the blocks `bs` by identity. -/
structure Groups (es : List MergedBlock) (bs : List Block) : Prop where
  identities : es.map identity = (bs.map Block.identity).eraseDups
  origins : ∀ m ∈ es, m.origins = bs.filter (·.identity = m.identity)

namespace Groups

variable {es : List MergedBlock} {bs : List Block}

theorem nil : Groups [] [] :=
  ⟨rfl, by simp⟩

/-- The origins of the entry of an identity, whether it is in the list or new. -/
theorem origins_find (h : Groups es bs) (i : BlockIdentity) :
    (find es i).origins = bs.filter (·.identity = i) := by
  rcases find_cases es i with ⟨hmem, hi⟩ | ⟨hnew, hi⟩
  · rw [h.origins _ hmem, hi]
  · rw [hnew]
    rw [h.identities, List.mem_eraseDups] at hi
    refine (List.filter_eq_nil_iff.2 fun b hb => ?_).symm
    simpa using fun heq : b.identity = i => hi (List.mem_map.2 ⟨b, hb, heq⟩)

/-- There are no groups exactly if there are no blocks. -/
theorem isEmpty_eq (h : Groups es bs) : es.isEmpty = bs.isEmpty := by
  have hids := h.identities
  cases bs with
  | nil =>
    obtain rfl := List.map_eq_nil_iff.1 hids
    rfl
  | cons b bs =>
    rw [List.map_cons, List.eraseDups_cons] at hids
    cases es with
    | nil => cases hids
    | cons m es => rfl

/-- Fusing one more block into the entry of its identity. -/
theorem absorb (h : Groups es bs) (b : Block) :
    Groups (put es ((find es b.identity).absorb b).1) (bs ++ [b]) where
  identities := by
    rw [map_identity_put, identity_absorb, identity_find, h.identities, List.map_append,
      List.map_singleton, eraseDups_concat]
    simp only [List.mem_eraseDups]
  origins m hm := by
    -- the entry that was put gains the block; the others have another identity
    rcases mem_put hm with rfl | ⟨hmem, hne⟩
    · rw [origins_absorb, identity_absorb, identity_find, h.origins_find]
      simp
    · rw [identity_absorb, identity_find] at hne
      rw [h.origins m hmem, List.filter_append]
      simp [Ne.symm hne]

/-- Merged blocks stay the groups of the blocks that were fused into them. -/
theorem absorbAll (h : Groups es bs) (cs : List Block) :
    Groups (absorbAll es cs).1 (bs ++ cs) := by
  induction cs generalizing es bs with
  | nil => simpa [MergedBlock.absorbAll] using h
  | cons c cs ih =>
    have hrest := ih (h.absorb c)
    simpa [MergedBlock.absorbAll] using hrest

/-- The groups of the blocks of some identities are the groups of those identities. -/
theorem filter (h : Groups es bs) (p : BlockIdentity → Bool) :
    Groups (es.filter fun m => p m.identity) (bs.filter fun b => p b.identity) where
  identities := by
    have hes : (es.filter fun m => p m.identity).map identity = (es.map identity).filter p := by
      rw [List.filter_map]
      rfl
    have hbs : (bs.filter fun b => p b.identity).map Block.identity =
        (bs.map Block.identity).filter p := by
      rw [List.filter_map]
      rfl
    rw [hes, hbs, h.identities, eraseDups_filter]
  origins m hm := by
    obtain ⟨hmem, hp⟩ := List.mem_filter.1 hm
    rw [h.origins m hmem, List.filter_filter]
    refine List.filter_congr fun b _ => ?_
    by_cases hb : b.identity = m.identity
    · simp [hb, hp]
    · simp [hb]

end Groups

/-! ## Attributes of groups -/

/-- Every merged block has all the attributes of its origins, in order. -/
def Gathered (es : List MergedBlock) : Prop :=
  ∀ m ∈ es, m.attributes.entries = m.origins.flatMap (·.attributes.entries)

namespace Gathered

variable {es : List MergedBlock}

theorem nil : Gathered [] := by
  simp [Gathered]

/-- Merged blocks that have all attributes still do so after a block is fused without an error. -/
theorem absorb (h : Gathered es) {b : Block}
    (hok : ((find es b.identity).absorb b).2 = []) :
    Gathered (put es ((find es b.identity).absorb b).1) := by
  intro m hm
  rcases mem_put hm with rfl | ⟨hmem, -⟩
  · have hfind : (find es b.identity).attributes.entries =
        (find es b.identity).origins.flatMap (·.attributes.entries) := by
      rcases find_cases es b.identity with ⟨hmem, -⟩ | ⟨hnew, -⟩
      · exact h _ hmem
      · rw [hnew]
        rfl
    rw [faults_absorb, List.append_eq_nil_iff] at hok
    rw [attributes_absorb, entries_absorbAttributes hok.1, hfind, origins_absorb]
    simp
  · exact h m hmem

/-- Without conflicts, no attribute is left out. -/
theorem absorbAll (h : Gathered es) {cs : List Block}
    (hok : (MergedBlock.absorbAll es cs).2 = []) : Gathered (MergedBlock.absorbAll es cs).1 := by
  induction cs generalizing es with
  | nil => simpa [MergedBlock.absorbAll] using h
  | cons c cs ih =>
    simp only [MergedBlock.absorbAll, List.append_eq_nil_iff] at hok ⊢
    exact ih (h.absorb hok.1) hok.2

end Gathered

end MergedBlock

end ScopeConfig
