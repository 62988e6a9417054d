import ScopeConfig.Proofs.Syntax.Readings

/-!
# Where attributes stand

Every attribute of a body, and of the blocks inside it at any depth, was read from a name, a sign
and the tokens of an expression, one after the other somewhere among the tokens of the text.

## Main statements

* `Body.Has`: the attributes of a body at any depth.
* `Body.stands_of_parse`: where the attributes of a text stand.
-/

namespace ScopeConfig.Syntax

/-! ## Attributes at any depth -/

/-- The attribute is declared in the body, or in a block inside it at some depth. -/
inductive Body.Has : Body → Attribute → Prop
  | own {body : Body} {a : Attribute} (h : a ∈ body.attributes.entries) : Has body a
  | inner {body : Body} {b : Block} {a : Attribute} (hb : b ∈ body.blocks)
    (h : Has ⟨b.attributes, b.blocks⟩ a) : Has body a

/-- The attribute is the entry, or is declared in it. -/
def Entry.Has (a : Attribute) : Entry → Prop
  | .attribute own => own = a
  | .block b => Body.Has ⟨b.attributes, b.blocks⟩ a
  | .fault _ => False

/-- What is collected from entries was in the table before or in one of the entries. -/
theorem mem_or_has_of_collect {es : List Entry} {a : Attribute} (table : AttributeTable)
    (h : Body.Has (collect table es).1 a) : a ∈ table.entries ∨ ∃ e ∈ es, e.Has a := by
  induction es generalizing table with
  | nil =>
    cases h with
    | own h => exact .inl h
    | inner hb _ => cases hb
  | cons e es ih =>
    have hmore : ∀ {table}, Body.Has (collect table es).1 a →
        a ∈ table.entries ∨ ∃ f ∈ e :: es, f.Has a := fun h =>
      (ih _ h).imp_right fun ⟨f, hf, hhas⟩ => ⟨f, List.mem_cons_of_mem e hf, hhas⟩
    rcases e with own | b | d
    -- an attribute is added, or it is a repetition and left out
    · simp only [collect] at h
      split at h
      · exact hmore h
      · rename_i hnew
        rcases hmore h with hentry | hmore
        · rw [AttributeTable.entries_add_of_not_mem (AttributeTable.find?_eq_none_iff.1 hnew),
            List.mem_append, List.mem_singleton] at hentry
          exact hentry.imp_right fun heq => ⟨_, List.mem_cons_self, heq.symm⟩
        · exact .inr hmore
    · cases h with
      | own h => exact hmore (.own h)
      | inner hb h =>
        rcases List.mem_cons.1 hb with rfl | hb
        · exact .inr ⟨_, List.mem_cons_self, h⟩
        · exact hmore (.inner hb h)
    · exact hmore h

/-! ## Tokens of an attribute -/

/-- The attribute was read from a name, a sign and an expression that stand among the tokens. -/
def Stands (o : Origin) (ts : List Located) (a : Attribute) : Prop :=
  ∃ before t sign first more after, ts = before ++ t :: sign :: first :: (more ++ after) ∧
    t.token = .word a.name ∧ IsExpr (first :: more) ∧ a.expr = o.expr first more

/-- What stands among tokens stands among more that end with them. -/
theorem Stands.of_suffix {o : Origin} {ts ts' : List Located} {a : Attribute}
    (h : Stands o ts a) (hsuffix : ts <:+ ts') : Stands o ts' a := by
  obtain ⟨front, rfl⟩ := hsuffix
  obtain ⟨before, t, sign, first, more, after, rfl, h⟩ := h
  exact ⟨front ++ before, t, sign, first, more, after, by simp, h⟩

/-- The attributes of what is read stand among the tokens that it is read from. -/
theorem Reads.stands {o : Origin} {ts rest : List Located} {es : List Entry}
    (h : Reads o ts es rest) {e : Entry} (he : e ∈ es) {a : Attribute} (ha : e.Has a) :
    Stands o ts a := by
  induction h generalizing e with
  | faults =>
    obtain ⟨d, -, rfl⟩ := List.mem_map.1 he
    exact ha.elim
  | @declaration t sign first more after rest name ht _ hexpr _ =>
    obtain rfl := List.mem_singleton.1 he
    obtain rfl := ha
    exact ⟨[], t, sign, first, more, after, rfl, ht, hexpr, rfl⟩
  | @block t opening closing ls inner after rest blockType labels es _ _ _ _ _ _ ih =>
    obtain rfl := List.mem_singleton.1 he
    -- an attribute inside the block is in one of the entries that were collected for it
    rcases mem_or_has_of_collect .empty ha with hnone | ⟨inside, hinside, hhas⟩
    · cases hnone
    · exact (ih hinside hhas).of_suffix (suffix_head t opening ls inner)
  | append h _ ih ih' =>
    rcases List.mem_append.1 he with he | he
    · exact ih he ha
    · exact (ih' he ha).of_suffix h.suffix

/-! ## Texts -/

/-- Every attribute of a text stands among its tokens. -/
theorem Body.stands_of_parse {file source : String} {body : Body} {a : Attribute}
    (h : Body.parse file source = .ok body) (ha : body.Has a) :
    ∃ stream, tokens source = .ok stream ∧
      Stands ⟨file, source.toList, stream.stop⟩ stream.tokens a := by
  unfold Body.parse at h
  split at h
  · cases h
  · rename_i stream hstream
    dsimp only at h
    split at h
    · obtain rfl := Except.ok.inj h
      refine ⟨stream, hstream, ?_⟩
      rcases mem_or_has_of_collect .empty ha with hnone | ⟨e, he, hhas⟩
      · cases hnone
      · exact (reads_entries _ false _).stands he hhas
    · cases h

end ScopeConfig.Syntax
