import Mathlib.Data.List.Forall2
import Mathlib.Data.List.Perm.Basic
import ScopeConfig.Proofs.Merge.Redeclaration

/-!
# Merged blocks up to order

Two merged blocks are alike when they differ in the order of their attributes, of their origins and
of their children only, and so do their children. When nothing is declared twice, the blocks of a
list make alike merged blocks in whatever order they are fused.

## Main statements

* `MergedBlock.Fused.alike`: merged blocks made of the same blocks are alike, if there was nothing
  to report.
-/

namespace ScopeConfig

open Syntax

/-! ## Lists matched by a key -/

/-- Lists with the same distinct keys are related up to order when elements of one key are. -/
theorem exists_perm_forall₂_of_key {α κ : Type} {key : α → κ} {R : α → α → Prop} {as bs : List α}
    (hkeys : (as.map key).Perm (bs.map key)) (hR : ∀ a ∈ as, ∀ b ∈ bs, key a = key b → R a b) :
    ∃ cs, bs.Perm cs ∧ List.Forall₂ R as cs := by
  induction as generalizing bs with
  | nil =>
    have hbs : bs = [] := by simpa using hkeys.symm
    exact ⟨[], hbs ▸ .refl _, .nil⟩
  | cons a as ih =>
    have ha : key a ∈ bs.map key := hkeys.mem_iff.1 List.mem_cons_self
    obtain ⟨b, hb, hkey⟩ := List.mem_map.1 ha
    obtain ⟨before, after, rfl⟩ := List.append_of_mem hb
    have hmiddle : (before ++ b :: after).Perm (b :: (before ++ after)) := List.perm_middle
    have hrest : (as.map key).Perm ((before ++ after).map key) := by
      have hall := hkeys.trans (hmiddle.map key)
      rw [List.map_cons, List.map_cons, hkey] at hall
      exact hall.cons_inv
    obtain ⟨cs, hperm, hcs⟩ := ih hrest fun x hx y hy =>
      hR x (List.mem_cons_of_mem _ hx) y (hmiddle.mem_iff.2 (List.mem_cons_of_mem _ hy))
    exact ⟨b :: cs, hmiddle.trans (hperm.cons b),
      .cons (hR a List.mem_cons_self b hb hkey.symm) hcs⟩

/-- The distinct members of a list do not depend on its order, up to their own order. -/
theorem eraseDups_perm {α : Type} [BEq α] [LawfulBEq α] {l l' : List α} (h : l.Perm l') :
    l.eraseDups.Perm l'.eraseDups := by
  rw [List.perm_ext_iff_of_nodup (nodup_eraseDups l) (nodup_eraseDups l')]
  intro a
  rw [List.mem_eraseDups, List.mem_eraseDups, h.mem_iff]

/-! ## Tables of attributes -/

/-- Among attributes with distinct names, the one of a name is found. -/
theorem find?_name_eq_some_iff {as : List Attribute} (h : (as.map Attribute.name).Nodup)
    (name : String) (a : Attribute) :
    as.find? (·.name = name) = some a ↔ a ∈ as ∧ a.name = name := by
  constructor
  · intro hfind
    exact ⟨List.mem_of_find?_eq_some hfind, by simpa using List.find?_some hfind⟩
  · rintro ⟨ha, rfl⟩
    cases hfind : as.find? (·.name = a.name) with
    | none => simpa using List.find?_eq_none.1 hfind a ha
    | some b =>
      have hname : b.name = a.name := by simpa using List.find?_some hfind
      rw [List.inj_on_of_nodup_map h (List.mem_of_find?_eq_some hfind) ha hname]

/-- A table has all the attributes, if no name is among them twice. -/
theorem FirstOf.entries_perm {t : AttributeTable} {as : List Attribute} (h : FirstOf t as)
    (hnodup : (as.map Attribute.name).Nodup) : t.entries.Perm as := by
  rw [List.perm_ext_iff_of_nodup (.of_map _ t.nodup) (.of_map _ hnodup)]
  intro a
  have htable := find?_name_eq_some_iff t.nodup a.name a
  have hlist := find?_name_eq_some_iff hnodup a.name a
  have hfind := h.find?_eq a.name
  rw [AttributeTable.find?] at hfind
  rw [hfind] at htable
  simpa using htable.symm.trans hlist

/-- Tables with the same attributes in another order find the same. -/
theorem find?_eq_of_perm {t t' : AttributeTable} (h : t.entries.Perm t'.entries) (name : String) :
    t.find? name = t'.find? name := by
  ext a
  rw [AttributeTable.find?, AttributeTable.find?, find?_name_eq_some_iff t.nodup,
    find?_name_eq_some_iff t'.nodup, h.mem_iff]

namespace MergedBlock

/-! ## Merged blocks -/

/-- Two merged blocks of one identity have the same attributes, the same origins and children that
are alike, all up to order. -/
inductive Alike : MergedBlock → MergedBlock → Prop
  | intro {m n : MergedBlock} {children : List MergedBlock} (identity : m.identity = n.identity)
    (attributes : m.attributes.entries.Perm n.attributes.entries)
    (origins : m.origins.Perm n.origins) (order : n.children.Perm children)
    (alike : List.Forall₂ Alike m.children children) : Alike m n

/-- The same merged blocks up to order, outside and inside. -/
def AlikeAll (es fs : List MergedBlock) : Prop :=
  ∃ gs, fs.Perm gs ∧ List.Forall₂ Alike es gs

/-! ## What is inside entities -/

/-- The attributes of the blocks of one identity are among the occurrences, in the same order. -/
theorem rawAttributes_sublist (path : List BlockIdentity) (i : BlockIdentity) (bs : List Block) :
    (((bs.filter (·.identity = i)).flatMap (·.attributes.entries)).map
      (⟨path, i, ·⟩ : Attribute → Occurrence)).Sublist (occurrencesAll path bs) := by
  induction bs with
  | nil => exact .slnil
  | cons b bs ih =>
    rw [occurrencesAll, occurrences_eq]
    by_cases hb : b.identity = i
    · simp only [List.filter_cons, hb, decide_true, if_true, List.flatMap_cons, List.map_append]
      exact (List.sublist_append_left _ _).append ih
    · simp only [List.filter_cons, hb, decide_false]
      exact ih.trans (List.sublist_append_right _ _)

/-- What occurs inside the blocks of one identity is among the occurrences, in the same order. -/
theorem rawChildren_sublist (path : List BlockIdentity) (i : BlockIdentity) (bs : List Block) :
    (occurrencesAll (path ++ [i])
      ((bs.filter (·.identity = i)).flatMap (·.blocks))).Sublist (occurrencesAll path bs) := by
  induction bs with
  | nil => exact .slnil
  | cons b bs ih =>
    rw [occurrencesAll, occurrences_eq]
    by_cases hb : b.identity = i
    · simp only [List.filter_cons, hb, decide_true, if_true, List.flatMap_cons,
        occurrencesAll_eq_flatMap, List.flatMap_append] at ih ⊢
      exact (List.sublist_append_right _ _).append ih
    · simp only [List.filter_cons, hb, decide_false]
      exact ih.trans (List.sublist_append_right _ _)

namespace Fused

/-- Merged blocks made of the same blocks, in whatever order, are alike when no name is declared
twice in an entity: by induction on the merged blocks, from the outermost on. -/
theorem alike {es fs : List MergedBlock} {bs cs : List Block} {path : List BlockIdentity}
    (h : Fused es bs) (h' : Fused fs cs) (hperm : bs.Perm cs)
    (hnodup : ((occurrencesAll path bs).map Occurrence.key).Nodup) : AlikeAll es fs := by
  induction h generalizing fs cs path with
  | @intro es bs groups attributes children ih =>
    have hkeys : (es.map identity).Perm (fs.map identity) := by
      rw [groups.identities, h'.groups.identities]
      exact eraseDups_perm (hperm.map _)
    refine exists_perm_forall₂_of_key hkeys fun m hm n hn hid => ?_
    have hm' := groups.origins m hm
    have hn' := h'.groups.origins n hn
    have horigins : m.origins.Perm n.origins := by
      rw [hm', hn', hid]
      exact hperm.filter _
    -- the keys of one entity are its names, so these are distinct in each merged block
    have hraw : (m.rawAttributes.map Attribute.name).Nodup := by
      have hsub := (rawAttributes_sublist path m.identity bs).map Occurrence.key
      rw [← hm', List.map_map] at hsub
      have hkey := hnodup.sublist hsub
      exact .of_map (⟨path, m.identity, ·⟩ : String → EntityName)
        (by simpa [Function.comp_def, Occurrence.key, rawAttributes] using hkey)
    have hinner : ((occurrencesAll (path ++ [m.identity]) m.rawChildren).map
        Occurrence.key).Nodup := by
      refine hnodup.sublist (List.Sublist.map _ ?_)
      rw [rawChildren, hm']
      exact rawChildren_sublist path m.identity bs
    have hrawPerm : m.rawAttributes.Perm n.rawAttributes := horigins.flatMap_right _
    -- the children are made of the same blocks again, only deeper
    obtain ⟨gs, hgs, halike⟩ := ih m hm (h'.children n hn) (horigins.flatMap_right _) hinner
    refine .intro hid ?_ horigins hgs halike
    have hmTable := (attributes m hm).entries_perm hraw
    have hnTable := (h'.attributes n hn).entries_perm ((hrawPerm.map _).nodup_iff.1 hraw)
    exact hmTable.trans (hrawPerm.trans hnTable.symm)

end Fused

end MergedBlock

end ScopeConfig
