import ScopeConfig.Blocks.MapRule
import ScopeConfig.Proofs.Syntax.Places

/-!
# Errors inside blocks

What the rules have against the labels, the attributes and the inner blocks of a block is shown at a
place inside the block: at a label or the head, at the name or the expression of an attribute, or at
the head of an inner block. This needs the block to hold what it is made of, as every block that is
read from a text does.

## Main statements

* `Diagnostic.InBlock`: an error is shown inside a block.
* `range_of_mem_demand`: a demand on an attribute is reported at its expression.
* `inBlock_attributeFault`, `inBlock_noLabels`, `inBlock_unknownBlock`: the parts of the rules.
-/

namespace ScopeConfig

open Syntax

namespace Diagnostic

/-- The error is shown at a place inside the block. -/
def InBlock (d : Diagnostic) (b : Block) : Prop :=
  ∃ r, d.range = some r ∧ r.Inside b.range

/-- A schema fault at a range inside a block lies in the block. -/
theorem inBlock_schema {b : Block} {r : SourceRange} (h : r.Inside b.range) (fault : SchemaFault) :
    (schema fault r).InBlock b :=
  ⟨r, rfl, h⟩

/-- What is inside an inner block is inside the block around it. -/
theorem InBlock.of_inner {d : Diagnostic} {b c : Block} (h : d.InBlock c)
    (hc : c.range.Inside b.range) : d.InBlock b := by
  obtain ⟨r, hr, hinside⟩ := h
  exact ⟨r, hr, hinside.trans hc⟩

end Diagnostic

namespace Blocks

/-! ## Labels and inner blocks -/

/-- The faults of unwanted labels lie in the block that has the labels. -/
theorem inBlock_noLabels {b : Block} (hb : b.Holds) : ∀ d ∈ noLabels b, d.InBlock b := by
  intro d hd
  unfold noLabels at hd
  split at hd
  · rename_i r hr
    obtain rfl := List.mem_singleton.1 hd
    exact Diagnostic.inBlock_schema (hb.labels r hr) _
  · cases hd

/-- The fault of an unknown block lies in the block it stands in. -/
theorem inBlock_unknownBlock {b c : Block} (hb : b.Nested) (hc : c ∈ b.blocks)
    (parent : String) : (unknownBlock parent c).InBlock b :=
  (Diagnostic.inBlock_schema (hb.inner hc).holds.header _).of_inner (hb.holds.blocks c hc)

/-! ## Attributes -/

section Readers

variable {a : Attribute} {d : Diagnostic}

/-- A value that cannot be read is reported at the expression of its attribute. -/
theorem range_of_valueOf (h : valueOf a = .error d) : d.range = some a.expr.range := by
  unfold valueOf at h
  split at h
  · cases h
  · obtain rfl := Except.error.inj h
    rfl

theorem range_of_textOf (h : textOf a = .error d) : d.range = some a.expr.range := by
  unfold textOf at h
  split at h
  · rename_i hvalue
    obtain rfl := Except.error.inj h
    exact range_of_valueOf hvalue
  · cases h
  · obtain rfl := Except.error.inj h
    rfl

theorem range_of_boolOf (h : boolOf a = .error d) : d.range = some a.expr.range := by
  unfold boolOf at h
  split at h
  · rename_i hvalue
    obtain rfl := Except.error.inj h
    exact range_of_valueOf hvalue
  · cases h
  · obtain rfl := Except.error.inj h
    rfl

theorem range_of_textListOf (h : textListOf a = .error d) : d.range = some a.expr.range := by
  unfold textListOf at h
  split at h
  · rename_i hvalue
    obtain rfl := Except.error.inj h
    exact range_of_valueOf hvalue
  · split at h
    · cases h
    · obtain rfl := Except.error.inj h
      rfl
  · obtain rfl := Except.error.inj h
    rfl

theorem range_of_textSetOf (h : textSetOf a = .error d) : d.range = some a.expr.range := by
  unfold textSetOf at h
  split at h
  · rename_i htexts
    obtain rfl := Except.error.inj h
    exact range_of_textListOf htexts
  · split at h
    · obtain rfl := Except.error.inj h
      rfl
    · cases h

/-- The fault of a reading stands where the reader puts it. -/
theorem range_of_mem_readFaults {α : Type} {outcome : Except Diagnostic α} {r : Option SourceRange}
    (h : ∀ d, outcome = .error d → d.range = r) (hd : d ∈ readFaults outcome) : d.range = r := by
  cases outcome with
  | ok value => cases hd
  | error e =>
    obtain rfl := List.mem_singleton.1 hd
    exact h d rfl

end Readers

/-- What speaks against an attribute under a demand is shown at its expression. -/
theorem range_of_mem_demand {demand : Demand} {a : Attribute} {d : Diagnostic}
    (hd : d ∈ demand.faults a) : d.range = some a.expr.range := by
  cases demand with
  | expression => cases hd
  | text => exact range_of_mem_readFaults (fun _ => range_of_textOf) hd
  | bool => exact range_of_mem_readFaults (fun _ => range_of_boolOf) hd
  | textList => exact range_of_mem_readFaults (fun _ => range_of_textListOf) hd
  | textSet => exact range_of_mem_readFaults (fun _ => range_of_textSetOf) hd
  -- these four are checked in steps, and every step reports at the expression
  | experiments =>
    simp only [Demand.faults] at hd
    split at hd
    · rename_i htexts
      obtain rfl := List.mem_singleton.1 hd
      exact range_of_textListOf htexts
    · obtain ⟨name, -, rfl⟩ := List.mem_map.1 hd
      rfl
  | filename =>
    simp only [Demand.faults] at hd
    split at hd
    · rename_i htext
      obtain rfl := List.mem_singleton.1 hd
      exact range_of_textOf htext
    · split at hd
      · obtain rfl := List.mem_singleton.1 hd
        rfl
      · cases hd
  | backendType =>
    simp only [Demand.faults] at hd
    split at hd
    · cases hd
    · obtain rfl := List.mem_singleton.1 hd
      rfl
  | iterator =>
    simp only [Demand.faults] at hd
    split at hd
    · cases hd
    · obtain rfl := List.mem_singleton.1 hd
      rfl

/-- What speaks against an attribute of a block is shown inside the block. -/
theorem inBlock_attributeFault {b : Block} (hb : b.Holds) {a : Attribute}
    (ha : a ∈ b.attributes.entries) (owner : String) (rules : AttributeRules) :
    ∀ d ∈ attributeFault owner rules a, d.InBlock b := by
  intro d hd
  have hbetween := hb.attributes a ha
  unfold attributeFault at hd
  split at hd
  · exact ⟨_, range_of_mem_demand hd, hbetween.expr⟩
  · obtain rfl := List.mem_singleton.1 hd
    exact ⟨_, rfl, hbetween.name⟩

/-- The faults of the attributes of a block lie in the block. -/
theorem inBlock_attributeFaults {b : Block} (hb : b.Holds) (owner : String)
    (rules : AttributeRules) : ∀ d ∈ attributeFaults owner rules b.attributes, d.InBlock b := by
  intro d hd
  obtain ⟨a, ha, hd⟩ := List.mem_flatMap.1 hd
  exact inBlock_attributeFault hb ha owner rules d hd

end Blocks

end ScopeConfig
