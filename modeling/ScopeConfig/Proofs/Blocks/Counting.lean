import Mathlib.Data.Set.Card
import ScopeConfig.Proofs.Blocks.ScriptRule

/-!
# How many errors a rule reports

A rule reports errors one by one; the violations of it are a set. Here the two are counted against
each other for what the kinds of blocks have in common: the labels, the attributes and the inner
blocks. A violation is named by the place of a block in a list, or by the name of an attribute, so
that two faults of one sort are two violations.

## Main statements

* `Demand.length_faults`: an attribute that does not meet its demand is reported once.
* `length_attributeFaults_eq`: attributes are reported once for each that is not allowed and each
  that does not meet its demand.
* `length_missingFaults`: and once for each that is absent.
-/

namespace ScopeConfig

open Syntax

/-! ## Sizes of sets -/

section Sizes

variable {α β γ κ : Type}

/-- A set of at most one member, given by a condition, has one member if the condition holds and
none otherwise. -/
theorem encard_unit (p : Prop) [Decidable p] : {_u : Unit | p}.encard = if p then 1 else 0 := by
  by_cases hp : p
  · simp [hp]
  · simp [hp]

/-- Among things with distinct keys, there are as many keys as things. -/
theorem encard_keys {key : β → κ} {l : List β} (h : (l.map key).Nodup) (p : β → Prop)
    [DecidablePred p] : {k | ∃ a ∈ l, key a = k ∧ p a}.encard = (l.filter p).length := by
  classical
  have hset : {k | ∃ a ∈ l, key a = k ∧ p a} = (((l.filter p).map key).toFinset : Set κ) := by
    ext k
    simp only [Set.mem_ofPred_eq, List.coe_toFinset, List.mem_map, List.mem_filter,
      decide_eq_true_eq]
    grind
  have hnodup : ((l.filter p).map key).Nodup := h.sublist (List.filter_sublist.map key)
  rw [hset, Set.encard_coe_eq_coe_finsetCard, List.toFinset_card_of_nodup hnodup, List.length_map]

/-- The elements of a list are counted at their places. -/
theorem encard_places (p : β → Prop) [DecidablePred p] (l : List β) :
    {n : ℕ | ∃ a, l[n]? = some a ∧ p a}.encard = (l.filter p).length := by
  have hset : {n : ℕ | ∃ a, l[n]? = some a ∧ p a} =
      {n | ∃ x ∈ l.zipIdx, x.2 = n ∧ p x.1} := by
    ext n
    simp [List.mem_zipIdx_iff_getElem?]
  have hkeys : (l.zipIdx.map Prod.snd).Nodup := by
    rw [List.zipIdx_map_snd]
    exact List.nodup_range'
  have hfst : l.filter p = (l.zipIdx.filter fun x => p x.1).map Prod.fst := by
    conv_lhs => rw [← List.zipIdx_map_fst 0 l, List.filter_map]
    rfl
  rw [hset, encard_keys hkeys, hfst, List.length_map]

/-- What is said of things with distinct keys is counted thing by thing. -/
theorem encard_sigma {key : β → κ} {l : List β} (h : (l.map key).Nodup) {P : β → α → Prop}
    {size : β → ℕ} (hsize : ∀ a ∈ l, {v | P a v}.encard = size a) :
    {x : κ × α | ∃ a ∈ l, key a = x.1 ∧ P a x.2}.encard = (l.map size).sum := by
  induction l with
  | nil => simp
  | cons a l ih =>
    rw [List.map_cons, List.nodup_cons] at h
    have hset : {x : κ × α | ∃ b ∈ a :: l, key b = x.1 ∧ P b x.2} =
        (key a, ·) '' {v | P a v} ∪ {x | ∃ b ∈ l, key b = x.1 ∧ P b x.2} := by
      ext ⟨k, v⟩
      simp
      grind
    have hdisjoint : Disjoint ((key a, ·) '' {v | P a v})
        {x : κ × α | ∃ b ∈ l, key b = x.1 ∧ P b x.2} := by
      rw [Set.disjoint_left]
      rintro _ ⟨v, -, rfl⟩ ⟨b, hb, hkey, -⟩
      exact h.1 (List.mem_map.2 ⟨b, hb, hkey⟩)
    rw [hset, Set.encard_union_eq hdisjoint, (Prod.mk_right_injective (key a)).encard_image,
      hsize a List.mem_cons_self, ih h.2 fun b hb => hsize b (List.mem_cons_of_mem a hb),
      List.map_cons, List.sum_cons, Nat.cast_add]

/-- Members of a type are counted apart for one constructor and for all others. -/
theorem encard_constructor {f : α → γ} (hf : f.Injective) (P : γ → Prop) :
    {v | P v}.encard = {a | P (f a)}.encard + {v | P v ∧ ∀ a, f a ≠ v}.encard := by
  have hset : {v | P v} = f '' {a | P (f a)} ∪ {v | P v ∧ ∀ a, f a ≠ v} := by
    ext v
    simp
    grind
  have hdisjoint : Disjoint (f '' {a | P (f a)}) {v | P v ∧ ∀ a, f a ≠ v} := by
    rw [Set.disjoint_left]
    rintro _ ⟨a, -, rfl⟩ ⟨-, hne⟩
    exact hne a rfl
  conv_lhs => rw [hset, Set.encard_union_eq hdisjoint, hf.encard_image]

/-- Those that are all of one constructor are counted for it. -/
theorem encard_lastConstructor {f : α → γ} (hf : f.Injective) {P : γ → Prop}
    (h : ∀ v, P v → ∃ a, f a = v) : {v | P v}.encard = {a | P (f a)}.encard := by
  have hnone : {v | P v ∧ ∀ a, f a ≠ v} = ∅ := by
    rw [Set.eq_empty_iff_forall_notMem]
    rintro v ⟨hv, hne⟩
    obtain ⟨a, ha⟩ := h v hv
    exact hne a ha
  rw [encard_constructor hf, hnone, Set.encard_empty, add_zero]

/-- Two sorts of things in a list, none of which is of both sorts, counted one by one. -/
theorem length_flatMap_eq {f : α → List β} {l : List α} {p q : α → Prop} [DecidablePred p]
    [DecidablePred q] (h : ∀ a ∈ l, (f a).length = (if p a then 1 else 0) + if q a then 1 else 0) :
    (l.flatMap f).length = (l.filter p).length + (l.filter q).length := by
  induction l with
  | nil => rfl
  | cons a l ih =>
    rw [List.flatMap_cons, List.length_append, h a List.mem_cons_self,
      ih fun b hb => h b (List.mem_cons_of_mem a hb), List.filter_cons, List.filter_cons]
    by_cases hp : p a <;> by_cases hq : q a <;> simp [hp, hq] <;> omega

/-- Where each member of a list gives one item or none, the items are counted by the members that
give one. -/
theorem length_flatMap_ite {f : α → List β} {l : List α} {p : α → Prop} [DecidablePred p]
    (h : ∀ a ∈ l, (f a).length = if p a then 1 else 0) :
    (l.flatMap f).length = (l.filter p).length := by
  simpa using length_flatMap_eq (q := fun _ => False) (by simpa using h)

end Sizes

namespace Blocks

/-! ## Demands -/

/-- What an expression has to be to meet a demand. -/
def Demand.Meets (e : Expr) : Demand → Prop
  | expression => True
  | text => ∃ s, Literal.evaluate e = .ok (.text s)
  | bool => ∃ b, Literal.evaluate e = .ok (.bool b)
  | textList => ∃ ss : List String, Literal.evaluate e = .ok (.list (ss.map .text))
  | textSet | experiments =>
    ∃ ss : List String, ss.Nodup ∧ Literal.evaluate e = .ok (.list (ss.map .text))
  | filename => ∃ s, s ≠ "" ∧ Literal.evaluate e = .ok (.text s)
  | backendType => ∃ t, e.tokens = [t] ∧ t.token = .word BackendType.terraform.keyword
  | iterator => ∃ t word, e.tokens = [t] ∧ t.token = .word word

section Readers

variable {a : Attribute}

/-- An attribute has a value exactly if its expression evaluates to it. -/
theorem valueOf_eq_ok_iff {v : Literal.Value} :
    valueOf a = .ok v ↔ Literal.evaluate a.expr = .ok v := by
  unfold valueOf
  cases Literal.evaluate a.expr <;> simp

/-- An attribute has a text exactly if its expression evaluates to that text. -/
theorem textOf_eq_ok_iff {s : String} :
    textOf a = .ok s ↔ Literal.evaluate a.expr = .ok (.text s) := by
  rw [← valueOf_eq_ok_iff]
  unfold textOf
  split <;> simp_all

/-- An attribute has a truth value exactly if its expression evaluates to that truth value. -/
theorem boolOf_eq_ok_iff {b : Bool} :
    boolOf a = .ok b ↔ Literal.evaluate a.expr = .ok (.bool b) := by
  rw [← valueOf_eq_ok_iff]
  unfold boolOf
  split <;> grind

/-- The items of a list are texts exactly if each item is one. -/
theorem textItems_eq_ok_iff {vs : List Literal.Value} {ss : List String} :
    textItems vs = .ok ss ↔ vs = ss.map .text := by
  induction vs generalizing ss with
  | nil => cases ss <;> simp [textItems]
  | cons v vs ih =>
    cases v with
    | text s =>
      cases ss with
      | nil => cases h : textItems vs <;> simp [textItems, h, Except.map]
      | cons t ss =>
        have := @ih ss
        cases h : textItems vs <;> simp_all [textItems, Except.map]
    | _ => cases ss <;> simp [textItems]

/-- An attribute has a list of texts exactly if its expression evaluates to a list of them. -/
theorem textListOf_eq_ok_iff {ss : List String} :
    textListOf a = .ok ss ↔ Literal.evaluate a.expr = .ok (.list (ss.map .text)) := by
  rw [← valueOf_eq_ok_iff]
  unfold textListOf
  split
  · simp_all
  · rename_i vs hvalue
    have := @textItems_eq_ok_iff vs ss
    split <;> simp_all
  · simp_all

/-- No repeated name is found exactly if the names are distinct and none of them was seen before. -/
theorem firstRepeated?_eq_none_iff {seen ss : List String} :
    firstRepeated? seen ss = none ↔ ss.Nodup ∧ ∀ s ∈ ss, s ∉ seen := by
  induction ss generalizing seen with
  | nil => simp [firstRepeated?]
  | cons s ss ih =>
    rw [firstRepeated?]
    split
    · simp_all
    · rw [ih]
      simp only [List.nodup_cons, List.mem_cons]
      grind

/-- The set that an attribute is holds the items of a list without repetition. -/
theorem textSetOf_eq_ok_iff {set : NameSet} :
    textSetOf a = .ok set ↔ ∃ ss : List String, ss.Nodup ∧
      Literal.evaluate a.expr = .ok (.list (ss.map .text)) ∧ .ofList ss = set := by
  simp only [← textListOf_eq_ok_iff]
  unfold textSetOf
  cases htexts : textListOf a with
  | error d => simp
  | ok ss =>
    have honce := @firstRepeated?_eq_none_iff [] ss
    cases hrepeated : firstRepeated? [] ss <;> simp_all

/-- No name is reported as repeated exactly if the names are distinct and none of them was seen
before. -/
theorem repeated_eq_nil_iff {seen ss : List String} :
    repeated seen ss = [] ↔ ss.Nodup ∧ ∀ s ∈ ss, s ∉ seen := by
  induction ss generalizing seen with
  | nil => simp [repeated]
  | cons s ss ih =>
    rw [repeated]
    split
    · simp_all
    · rw [ih]
      simp only [List.nodup_cons, List.mem_cons]
      grind

/-- Reading gives no fault exactly if it gives a value. -/
theorem readFaults_eq_nil_iff {α : Type} {outcome : Except Diagnostic α} :
    readFaults outcome = [] ↔ ∃ value, outcome = .ok value := by
  cases outcome <;> simp [readFaults]

/-- Reading one attribute gives one fault at most. -/
theorem length_readFaults_le {α : Type} (outcome : Except Diagnostic α) :
    (readFaults outcome).length ≤ 1 := by
  cases outcome <;> simp [readFaults]

end Readers

/-- Nothing speaks against an attribute exactly if it meets its demand. -/
theorem Demand.faults_eq_nil_iff {demand : Demand} {a : Attribute} :
    demand.faults a = [] ↔ demand.Meets a.expr := by
  cases demand with
  | expression => simp [faults, Meets]
  | text => simp only [faults, Meets, readFaults_eq_nil_iff, textOf_eq_ok_iff]
  | bool => simp only [faults, Meets, readFaults_eq_nil_iff, boolOf_eq_ok_iff]
  | textList => simp only [faults, Meets, readFaults_eq_nil_iff, textListOf_eq_ok_iff]
  | textSet => simp [faults, Meets, readFaults_eq_nil_iff, textSetOf_eq_ok_iff]
  | experiments =>
    simp only [faults, Meets, ← textListOf_eq_ok_iff]
    cases textListOf a <;> simp [repeated_eq_nil_iff]
  | filename =>
    simp only [faults, Meets, ← textOf_eq_ok_iff]
    cases textOf a <;> simp
  | backendType => simp [faults, Meets, ← keyword?_eq_some_iff]
  | iterator =>
    simp only [faults, Meets, ← isSome_keyword?_iff]
    split <;> simp_all

/-- And at most one thing does, unless the attribute lists experiments. -/
theorem Demand.length_faults_le {demand : Demand} (h : demand ≠ .experiments) (a : Attribute) :
    (demand.faults a).length ≤ 1 := by
  cases demand with
  | expression => simp [faults]
  | text | bool | textList | textSet => exact length_readFaults_le _
  | experiments => exact (h rfl).elim
  | filename =>
    simp only [faults]
    split
    · simp
    · split <;> simp
  | backendType | iterator =>
    simp only [faults]
    split <;> simp

/-- An attribute has one fault if it does not meet its demand, and none otherwise. The demand of
experiment names is left out, since it reports each name on its own. -/
theorem Demand.length_faults {demand : Demand} (h : demand ≠ .experiments) (a : Attribute)
    [Decidable (demand.Meets a.expr)] :
    (demand.faults a).length = if demand.Meets a.expr then 0 else 1 := by
  split
  · rename_i hmeets
    rw [faults_eq_nil_iff.2 hmeets, List.length_nil]
  · rename_i hmeets
    have hne : demand.faults a ≠ [] := mt faults_eq_nil_iff.1 hmeets
    exact Nat.le_antisymm (length_faults_le h a) (List.length_pos_iff.2 hne)

/-! ## Attributes -/

/-- An attribute of the table has a name that the rules do not allow. -/
def Unknown (rules : AttributeRules) (t : AttributeTable) (name : String) : Prop :=
  ∃ a ∈ t.entries, a.name = name ∧ rules.lookup name = none

/-- An attribute of the table does not meet the demand of the rules. -/
def Unmet (rules : AttributeRules) (t : AttributeTable) (name : String) : Prop :=
  ∃ a ∈ t.entries, a.name = name ∧
    ∃ demand, rules.lookup name = some demand ∧ ¬demand.Meets a.expr

/-- A required attribute is absent from the table. -/
def Absent (required : List String) (t : AttributeTable) (name : String) : Prop :=
  name ∈ required ∧ name ∉ t.names

/-- Attributes are reported once for each one that is not allowed, and once for each one that does
not meet its demand. -/
theorem length_attributeFaults_eq {rules : AttributeRules}
    (hrules : ∀ rule ∈ rules, rule.2 ≠ .experiments) (owner : String) (t : AttributeTable) :
    ((attributeFaults owner rules t).length : ℕ∞) =
      {name | Unknown rules t name}.encard + {name | Unmet rules t name}.encard := by
  classical
  -- an attribute has one fault at most, and for one of the two reasons
  have hone : ∀ a ∈ t.entries, (attributeFault owner rules a).length =
      (if rules.lookup a.name = none then 1 else 0) +
        if ∃ demand, rules.lookup a.name = some demand ∧ ¬demand.Meets a.expr then 1 else 0 := by
    intro a _
    unfold attributeFault
    cases hlookup : rules.lookup a.name with
    | none => simp
    | some demand =>
      obtain ⟨before, after, hsplit, -⟩ := List.lookup_eq_some_iff.1 hlookup
      have hrule : demand ≠ .experiments := hrules (a.name, demand) (by simp [hsplit])
      by_cases hmeets : demand.Meets a.expr <;> simp [Demand.length_faults hrule a, hmeets]
  have hunknown : {name | Unknown rules t name} =
      {name | ∃ a ∈ t.entries, a.name = name ∧ rules.lookup a.name = none} := by
    ext name
    unfold Unknown
    grind
  have hunmet : {name | Unmet rules t name} = {name | ∃ a ∈ t.entries, a.name = name ∧
      ∃ demand, rules.lookup a.name = some demand ∧ ¬demand.Meets a.expr} := by
    ext name
    unfold Unmet
    grind
  rw [hunknown, hunmet, encard_keys t.nodup, encard_keys t.nodup, attributeFaults,
    length_flatMap_eq hone, Nat.cast_add]

/-- Required attributes are reported once for each one that is absent. -/
theorem length_missingFaults {required : List String} (hrequired : required.Nodup) (owner : String)
    (t : AttributeTable) (range : SourceRange) :
    ((missingFaults owner required t range).length : ℕ∞) =
      {name | Absent required t name}.encard := by
  have habsent : {name | Absent required t name} =
      {name | ∃ n ∈ required, id n = name ∧ t.has n = false} := by
    ext name
    simp [Absent, ← AttributeTable.has_iff]
  have hkeys : (required.map id).Nodup := by rwa [List.map_id]
  rw [habsent, encard_keys hkeys, missingFaults, List.length_map]
  congr 3
  funext name
  simp

/-! ## Labels and inner blocks -/

/-- Labels of a block that takes none are reported once. -/
theorem length_noLabels (b : Block) : (noLabels b).length = if b.labels ≠ [] then 1 else 0 := by
  have hnone := @noLabels_eq_nil_iff b
  unfold noLabels at *
  split at * <;> simp_all

/-- A block has the label of the rule of one label exactly if that is all it is labelled with. -/
theorem label?_eq_some_iff {b : Block} {label : String} :
    label? b = some label ↔ b.labelTexts = [label] := by
  unfold label?
  split <;> simp_all

/-- A block lacks the label of the rule of one label exactly if it has none or several. -/
theorem label?_eq_none_iff {b : Block} : label? b = none ↔ b.labelTexts.length ≠ 1 := by
  rw [ne_eq, List.length_eq_one_iff, Option.eq_none_iff_forall_ne_some, not_exists]
  exact forall_congr' fun label => not_congr label?_eq_some_iff

/-- A number of labels other than one is reported once. -/
theorem length_oneLabel (b : Block) :
    (oneLabel b).length = if b.labelTexts.length ≠ 1 then 1 else 0 := by
  unfold oneLabel
  cases hlabel : label? b with
  | none => rw [if_pos (label?_eq_none_iff.1 hlabel), List.length_singleton]
  | some label => simp [label?_eq_some_iff.1 hlabel]

/-- A label that is missing, empty or not the only one is reported once. -/
theorem length_fileLabelFaults (b : Block) : (fileLabelFaults b).length =
    if b.labelTexts.length ≠ 1 ∨ b.labelTexts = [""] then 1 else 0 := by
  unfold fileLabelFaults
  cases hlabel : label? b with
  | none =>
    have hlength := label?_eq_none_iff.1 hlabel
    rw [if_pos (.inl hlength)]
    exact (length_oneLabel b).trans (if_pos hlength)
  | some label =>
    have htexts := label?_eq_some_iff.1 hlabel
    by_cases hempty : label = "" <;> simp [htexts, hempty]

end Blocks

end ScopeConfig
