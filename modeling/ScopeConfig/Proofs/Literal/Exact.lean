import ScopeConfig.Proofs.Literal.Grammar

/-!
# The evaluator accepts exactly the literals

A reader takes the tokens of one literal from the front and leaves the others. Each reader is
described by what one step of it does; that what it takes is a literal, and that it takes every
literal, are then two inductions, one on the tokens and one on the grammar.

## Main statements

* `reads_readValue_iff` and its likes: what a reader takes in one step.
* `isLiteral_of_reads`, `IsLiteral.reads`: a reader takes exactly the literals.
* `evaluate_exact`: the expressions that have a value, and their values.
-/

namespace ScopeConfig.Literal

open Syntax

/-! ## Single steps -/

/-- Something is read at the front of tokens, and `rest` is left. -/
def Reads {α : Type} {ts : List Token} (r : Read α ts) (a : α) (rest : List Token) : Prop :=
  ∃ h, r = .ok (a, ⟨rest, h⟩)

/-- What is read at the front of tokens is unique, and so is what is left. -/
theorem Reads.unique {α : Type} {ts : List Token} {r : Read α ts} {a b : α}
    {rest rest' : List Token} (h : Reads r a rest) (h' : Reads r b rest') :
    a = b ∧ rest = rest' := by
  obtain ⟨_, rfl⟩ := h
  obtain ⟨_, heq⟩ := h'
  cases heq
  exact ⟨rfl, rfl⟩

/-- Reading takes at least one token. -/
theorem Reads.length_lt {α : Type} {ts : List Token} {r : Read α ts} {a : α} {rest : List Token}
    (h : Reads r a rest) : rest.length < ts.length :=
  h.1

/-- The key of a field is read exactly if a key and one of the two signs stand in front. -/
theorem fieldKey?_eq_some_iff {ts rest : List Token} {key : String} :
    fieldKey? ts = some (key, rest) ↔
      ∃ k sign, ts = k :: sign :: rest ∧ IsKey key k ∧ IsSign sign := by
  constructor
  · intro h
    unfold fieldKey? at h
    split at h
    all_goals cases h
    all_goals exact ⟨_, _, rfl, by simp [IsKey], by simp [IsSign]⟩
  · rintro ⟨k, sign, rfl, rfl | rfl, rfl | rfl⟩
    all_goals rfl

/-- A scalar is read in front of any rest. -/
theorem IsScalar.reads {v : Value} {used : List Token} (h : IsScalar v used) (rest : List Token) :
    Reads (readValue (used ++ rest)) v rest := by
  have hne : used ≠ [] := by
    cases h <;> simp
  have hlen : rest.length < (used ++ rest).length := by
    have hpos := List.length_pos_iff.2 hne
    rw [List.length_append]
    omega
  refine ⟨hlen, ?_⟩
  cases h <;> simp [readValue]

/-- A value is a scalar, or a list or an object behind its opening bracket. -/
theorem reads_readValue_iff {ts rest : List Token} {v : Value} :
    Reads (readValue ts) v rest ↔
      (∃ used, IsScalar v used ∧ ts = used ++ rest) ∨
        (∃ us items, ts = .symbol .lbracket :: us ∧ v = .list items ∧
          Reads (readItems us) items rest) ∨
        ∃ us fields, ts = .symbol .lbrace :: us ∧ v = .object fields ∧
          Reads (readFields [] us) fields rest := by
  constructor
  -- every branch of the reader that succeeds is one of the three
  · rintro ⟨hlen, h⟩
    unfold readValue at h
    split at h
    · split at h
      · cases h
        exact .inl ⟨_, .true, by simp_all⟩
      split at h
      · cases h
        exact .inl ⟨_, .false, by simp_all⟩
      split at h
      · cases h
        exact .inl ⟨_, .null, by simp_all⟩
      · cases h
    · cases h
      exact .inl ⟨_, .number _, rfl⟩
    · cases h
      exact .inl ⟨_, .negative _, rfl⟩
    · cases h
      exact .inl ⟨_, .text _, rfl⟩
    · split at h
      · rename_i us _ items left hitems
        cases h
        exact .inr (.inl ⟨_, items, rfl, rfl, left.2, hitems⟩)
      · cases h
    · split at h
      · rename_i us _ fields left hfields
        cases h
        exact .inr (.inr ⟨_, fields, rfl, rfl, left.2, hfields⟩)
      · cases h
    · cases h
  · rintro (⟨used, hscalar, rfl⟩ | ⟨us, items, rfl, rfl, hlen, h⟩ | ⟨us, fields, rfl, rfl, hlen, h⟩)
    · exact hscalar.reads rest
    · exact ⟨by simp; omega, by simp [readValue, h, Shorter.widen]⟩
    · exact ⟨by simp; omega, by simp [readValue, h, Shorter.widen]⟩

/-- A list ends at once, or with its next item and a comma or not, or goes on behind the comma. -/
theorem reads_readItems_iff {ts rest : List Token} {items : List Value} :
    Reads (readItems ts) items rest ↔
      (ts = .symbol .rbracket :: rest ∧ items = []) ∨
        ∃ item more, Reads (readValue ts) item more ∧
          ((more = .symbol .rbracket :: rest ∧ items = [item]) ∨
            ∃ after others, more = .symbol .comma :: after ∧ items = item :: others ∧
              Reads (readItems after) others rest) := by
  constructor
  -- every branch of the reader that succeeds is one of the three
  · rintro ⟨hlen, h⟩
    unfold readItems at h
    split at h
    · cases h
      exact .inl ⟨rfl, rfl⟩
    · split at h
      · cases h
      · rename_i item after hafter hitem
        split at h
        · rename_i others left hothers
          cases h
          exact .inr ⟨item, _, ⟨hafter, hitem⟩, .inr ⟨after, others, rfl, rfl, left.2, hothers⟩⟩
        · cases h
      · rename_i item after hafter hitem
        cases h
        exact .inr ⟨item, _, ⟨hafter, hitem⟩, .inl ⟨rfl, rfl⟩⟩
      · cases h
  · rintro (⟨rfl, rfl⟩ | ⟨item, more, ⟨hmore, hitem⟩, hrest⟩)
    · exact ⟨by simp, by simp [readItems]⟩
    -- no item begins with the closing bracket, so the second equation of the reader applies
    · have hopen : ∀ us, ts = .symbol .rbracket :: us → False := by
        rintro us rfl
        simp [readValue] at hitem
      have hstep := readItems.eq_2 ts hopen
      rw [hitem] at hstep
      rcases hrest with ⟨rfl, rfl⟩ | ⟨after, others, rfl, rfl, hlen, hothers⟩
      · simp at hmore
        exact ⟨by omega, hstep⟩
      · simp at hmore
        simp only [hothers] at hstep
        exact ⟨by omega, hstep⟩

/-- The fields of an object end, or go on behind a comma, or behind a field with a new key. -/
theorem reads_readFields_iff {before : List (String × Value)} {ts rest : List Token}
    {fields : List (String × Value)} :
    Reads (readFields before ts) fields rest ↔
      (ts = .symbol .rbrace :: rest ∧ fields = before) ∨
        (∃ us, ts = .symbol .comma :: us ∧ Reads (readFields before us) fields rest) ∨
        ∃ key us v more, fieldKey? ts = some (key, us) ∧ Reads (readValue us) v more ∧
          key ∉ before.map Prod.fst ∧
          Reads (readFields (before ++ [(key, v)]) more) fields rest := by
  have hany : ∀ key, before.any (·.1 = key) = true ↔ key ∈ before.map Prod.fst := by
    intro key
    simp
  constructor
  -- every branch of the reader that succeeds is one of the three
  · rintro ⟨hlen, h⟩
    unfold readFields at h
    split at h
    · cases h
      exact .inl ⟨rfl, rfl⟩
    · split at h
      · rename_i us _ found left hfound
        cases h
        exact .inr (.inl ⟨us, rfl, left.2, hfound⟩)
      · cases h
    · split at h
      · cases h
      · rename_i key us hkey
        split at h
        · cases h
        · rename_i v more hmore hv
          split at h
          · cases h
          · rename_i hnew
            split at h
            · rename_i found left hfound
              cases h
              rw [hany] at hnew
              exact .inr (.inr ⟨key, us, v, more, hkey, ⟨hmore, hv⟩, hnew, left.2, hfound⟩)
            · cases h
  · rintro (⟨rfl, rfl⟩ | ⟨us, rfl, hlen, h⟩ | ⟨key, us, v, more, hkey, ⟨hmore, hv⟩, hnew, hlen, h⟩)
    · exact ⟨by simp, by simp [readFields]⟩
    · exact ⟨by simp; omega, by simp [readFields, h, Shorter.widen]⟩
    -- where a key is read there is no brace and no comma, so the last equation applies
    · have hclosed : ∀ us, ts = .symbol .rbrace :: us → False := by
        rintro us rfl
        cases hkey
      have hcomma : ∀ us, ts = .symbol .comma :: us → False := by
        rintro us rfl
        cases hkey
      have hlength := fieldKey?_length hkey
      rw [← hany] at hnew
      refine ⟨by omega, ?_⟩
      rw [readFields.eq_3 before ts hclosed hcomma]
      split
      · rename_i hnone
        simp [hkey] at hnone
      · rename_i key' us' hkey'
        obtain ⟨rfl, rfl⟩ := Prod.mk.inj (Option.some.inj (hkey.symm.trans hkey'))
        simp [hv, hnew, h, Shorter.widen]

/-! ## What is read is a literal -/

mutual

/-- What a reader takes for a value is a literal of it: by recursion along the readers of values,
items and fields, each of which leaves fewer tokens. -/
theorem isLiteral_of_reads {ts rest : List Token} {v : Value} (h : Reads (readValue ts) v rest) :
    ∃ used, ts = used ++ rest ∧ IsLiteral v used := by
  rcases reads_readValue_iff.1 h with ⟨used, hscalar, hts⟩ | ⟨us, items, hts, hv, hitems⟩ |
    ⟨us, fields, hts, hv, hfields⟩
  · exact ⟨used, hts, .scalar hscalar⟩
  · subst hts hv
    rcases isItems_of_reads hitems with ⟨rfl, rfl⟩ | ⟨used, comma, hcomma, rfl, hused⟩
    · exact ⟨_, rfl, .emptyList⟩
    · exact ⟨_, by simp, .list hused hcomma⟩
  · subst hts hv
    obtain ⟨used, more, rfl, rfl, hused, hkeys⟩ := isFields_of_reads hfields
    exact ⟨_, by simp, .object hused (hkeys .nil)⟩
termination_by 2 * ts.length
decreasing_by
  all_goals
    rw [hts, List.length_cons]
    omega

/-- What a reader takes for items, apart from the closing bracket and a comma before it. -/
theorem isItems_of_reads {ts rest : List Token} {items : List Value}
    (h : Reads (readItems ts) items rest) :
    (items = [] ∧ ts = .symbol .rbracket :: rest) ∨
      ∃ used comma, (comma = [] ∨ comma = [.symbol .comma]) ∧
        ts = used ++ (comma ++ .symbol .rbracket :: rest) ∧ IsItems items used := by
  rcases reads_readItems_iff.1 h with ⟨hts, hnil⟩ | ⟨item, more, hitem, hmore⟩
  · exact .inl ⟨hnil, hts⟩
  · right
    obtain ⟨used, hts, hused⟩ := isLiteral_of_reads hitem
    rcases hmore with ⟨hclosing, hone⟩ | ⟨after, others, hcomma, hcons, hothers⟩
    · subst hclosing hone
      exact ⟨used, [], .inl rfl, hts, .one hused⟩
    · have hlen := hitem.length_lt
      subst hcomma hcons
      rcases isItems_of_reads hothers with ⟨rfl, rfl⟩ | ⟨used', comma, hcomma, rfl, hused'⟩
      · exact ⟨used, [.symbol .comma], .inr rfl, hts, .one hused⟩
      · exact ⟨used ++ .symbol .comma :: used', comma, hcomma, by simp [hts],
          .cons hused hused'⟩
termination_by 2 * ts.length + 1
decreasing_by
  · omega
  · simp only [List.length_cons] at hlen
    omega

/-- What a reader takes for fields, apart from the closing brace. -/
theorem isFields_of_reads {before : List (String × Value)} {ts rest : List Token}
    {fields : List (String × Value)} (h : Reads (readFields before ts) fields rest) :
    ∃ used more, fields = before ++ more ∧ ts = used ++ .symbol .rbrace :: rest ∧
      IsFields more used ∧
      ((before.map Prod.fst).Nodup → (fields.map Prod.fst).Nodup) := by
  rcases reads_readFields_iff.1 h with ⟨hts, hnil⟩ | ⟨us, hts, hus⟩ |
    ⟨key, us, v, left, hkey, hv, hnew, hleft⟩
  · exact ⟨[], [], by simp [hnil], by simp [hts], .nil, by rw [hnil]; exact id⟩
  · subst hts
    obtain ⟨used, more, hfields, rfl, hused, hkeys⟩ := isFields_of_reads hus
    exact ⟨_, more, hfields, rfl, .comma hused, hkeys⟩
  · have hkeyLen := fieldKey?_length hkey
    have hlen := hv.length_lt
    obtain ⟨k, sign, rfl, hk, hsign⟩ := fieldKey?_eq_some_iff.1 hkey
    obtain ⟨used, rfl, hused⟩ := isLiteral_of_reads hv
    obtain ⟨used', more, hfields, rfl, hused', hkeys⟩ := isFields_of_reads hleft
    refine ⟨k :: sign :: (used ++ used'), (key, v) :: more, by simp [hfields], by simp,
      .field hk hsign hused hused', fun hnodup => hkeys ?_⟩
    rw [List.map_append, List.nodup_append]
    refine ⟨hnodup, by simp, ?_⟩
    rintro x hx y hy rfl
    obtain rfl : x = key := by simpa using hy
    exact hnew hx
termination_by 2 * ts.length + 1
decreasing_by
  · rw [hts, List.length_cons]
    omega
  · omega
  · omega

end

/-! ## Every literal is read -/

mutual

/-- A literal is read, whatever stands behind it: by induction on the literal, together with the
items and fields in it. -/
theorem IsLiteral.reads {v : Value} {used : List Token} (rest : List Token) :
    IsLiteral v used → Reads (readValue (used ++ rest)) v rest
  | .scalar h => h.reads rest
  | .emptyList =>
    reads_readValue_iff.2 (.inr (.inl ⟨_, [], rfl, rfl, reads_readItems_iff.2 (.inl ⟨rfl, rfl⟩)⟩))
  | .list h hcomma => by
    rw [List.cons_append, List.append_assoc, List.append_assoc]
    exact reads_readValue_iff.2 (.inr (.inl ⟨_, _, rfl, rfl, h.reads hcomma rest⟩))
  | .object h hkeys => by
    rw [List.cons_append, List.append_assoc]
    exact reads_readValue_iff.2 (.inr (.inr ⟨_, _, rfl, rfl, h.reads [] rest hkeys⟩))

/-- Items are read up to the closing bracket, with one comma before it or without. -/
theorem IsItems.reads {items : List Value} {used comma : List Token}
    (hcomma : comma = [] ∨ comma = [.symbol .comma]) (rest : List Token) :
    IsItems items used →
      Reads (readItems (used ++ (comma ++ .symbol .rbracket :: rest))) items rest
  | .one h => by
    refine reads_readItems_iff.2 (.inr ⟨_, _, h.reads _, ?_⟩)
    rcases hcomma with rfl | rfl
    · exact .inl ⟨rfl, rfl⟩
    · exact .inr ⟨_, [], rfl, rfl, reads_readItems_iff.2 (.inl ⟨rfl, rfl⟩)⟩
  | .cons h hitems => by
    rw [List.append_assoc]
    refine reads_readItems_iff.2 (.inr ⟨_, _, h.reads _, .inr ⟨_, _, rfl, rfl, ?_⟩⟩)
    exact hitems.reads hcomma rest

/-- Fields are read up to the closing brace, when none of their keys was there before. -/
theorem IsFields.reads {fields : List (String × Value)} {used : List Token}
    (before : List (String × Value)) (rest : List Token)
    (hkeys : ((before ++ fields).map Prod.fst).Nodup) :
    IsFields fields used →
      Reads (readFields before (used ++ .symbol .rbrace :: rest)) (before ++ fields) rest
  | .nil => reads_readFields_iff.2 (.inl ⟨rfl, by simp⟩)
  | .comma h => reads_readFields_iff.2 (.inr (.inl ⟨_, rfl, h.reads before rest hkeys⟩))
  | @IsFields.field key v k sign fields ts us hkey hsign h hfields => by
    have hstep : fieldKey? (k :: sign :: (ts ++ us) ++ .symbol .rbrace :: rest) =
        some (key, ts ++ (us ++ .symbol .rbrace :: rest)) :=
      fieldKey?_eq_some_iff.2 ⟨k, sign, by simp, hkey, hsign⟩
    have hnew : key ∉ before.map Prod.fst := by
      intro hmem
      rw [List.map_append, List.nodup_append] at hkeys
      exact hkeys.2.2 key hmem key (by simp) rfl
    have hmore := hfields.reads (before ++ [(key, v)]) rest (by simpa using hkeys)
    rw [List.append_assoc] at hmore
    exact reads_readFields_iff.2 (.inr (.inr ⟨key, _, v, _, hstep, h.reads _, hnew, hmore⟩))

end

/-! ## Expressions -/

/-- An expression evaluates to a value exactly if the value is read from its significant tokens and
none is left. -/
theorem evaluate_eq_ok_iff (e : Expr) (v : Value) :
    evaluate e = .ok v ↔ Reads (readValue (significant e)) v [] := by
  unfold evaluate
  constructor
  · intro h
    split at h
    · rename_i value hlen hread
      cases h
      exact ⟨hlen, hread⟩
    all_goals cases h
  · rintro ⟨hlen, hread⟩
    rw [hread]

/-- An expression has a value exactly when its tokens, apart from the newlines, make up a literal of
that value, whatever expression it is. A literal holds no word but the keywords of values and the
keys of fields, no symbol but brackets, commas, the signs behind keys and a minus before a number,
and no template; and nothing may stand behind it. -/
theorem evaluate_exact (e : Expr) :
    (∀ v, evaluate e = .ok v ↔ IsLiteral v (significant e)) ∧
      (∀ v, evaluate e = .ok v → ∀ front t back, significant e = front ++ t :: back →
        PartOfLiteral t back) ∧
      ∀ v front back, IsLiteral v front → significant e = front ++ back → back ≠ [] →
        ∀ w, evaluate e ≠ .ok w := by
  have hexact : ∀ v, evaluate e = .ok v ↔ IsLiteral v (significant e) := by
    intro v
    rw [evaluate_eq_ok_iff]
    constructor
    · intro h
      obtain ⟨used, hused, hliteral⟩ := isLiteral_of_reads h
      rw [List.append_nil] at hused
      rwa [hused]
    · intro h
      have hread := h.reads []
      rwa [List.append_nil] at hread
  refine ⟨hexact, ?_, ?_⟩
  · intro v hv front t back hsplit
    exact ((hexact v).1 hv).parts.part hsplit
  · intro v front back hfront hsplit hback w hw
    rw [evaluate_eq_ok_iff, hsplit] at hw
    obtain ⟨-, hnil⟩ := (hfront.reads back).unique hw
    exact hback hnil

end ScopeConfig.Literal
