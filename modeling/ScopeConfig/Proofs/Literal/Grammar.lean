import ScopeConfig.Literal.Evaluation

/-!
# The grammar of literals

A literal is a keyword of a value, a number with or without a minus, a string without template
sequences, or a list or an object of literals. The items of a list are separated by single commas,
and one more may follow the last of them; the fields of an object stand between commas in any
number, and their keys are distinct.

## Main statements

* `IsLiteral`: the tokens that make up a literal of a value.
* `IsLiteral.parts`: what a literal is free of.
-/

namespace ScopeConfig.Literal

open Syntax

/-! ## Literals -/

/-- The token is the key of a field. -/
def IsKey (key : String) (t : Token) : Prop :=
  t = .word key ∨ t = .str key false

/-- The token separates a key from the value of its field. -/
def IsSign (t : Token) : Prop :=
  t = .symbol .assign ∨ t = .symbol .colon

/-- A literal without brackets. -/
inductive IsScalar : Value → List Token → Prop
  | null : IsScalar .null [.word "null"]
  | true : IsScalar (.bool true) [.word "true"]
  | false : IsScalar (.bool false) [.word "false"]
  | number (text : String) : IsScalar (.number (Double.ofNumeral text)) [.number text]
  | negative (text : String) :
    IsScalar (.number (Double.ofNumeral text).neg) [.symbol .minus, .number text]
  | text (s : String) : IsScalar (.text s) [.str s false]

mutual

/-- The tokens make up a literal of the value. -/
inductive IsLiteral : Value → List Token → Prop
  | scalar {v : Value} {ts : List Token} (h : IsScalar v ts) : IsLiteral v ts
  | emptyList : IsLiteral (.list []) [.symbol .lbracket, .symbol .rbracket]
  | list {items : List Value} {ts comma : List Token} (h : IsItems items ts)
    (hcomma : comma = [] ∨ comma = [.symbol .comma]) :
    IsLiteral (.list items) (.symbol .lbracket :: (ts ++ (comma ++ [.symbol .rbracket])))
  | object {fields : List (String × Value)} {ts : List Token} (h : IsFields fields ts)
    (hkeys : (fields.map Prod.fst).Nodup) :
    IsLiteral (.object fields) (.symbol .lbrace :: (ts ++ [.symbol .rbrace]))

/-- The tokens make up one literal or more, with single commas between them. -/
inductive IsItems : List Value → List Token → Prop
  | one {v : Value} {ts : List Token} (h : IsLiteral v ts) : IsItems [v] ts
  | cons {v : Value} {items : List Value} {ts us : List Token} (h : IsLiteral v ts)
    (hitems : IsItems items us) : IsItems (v :: items) (ts ++ .symbol .comma :: us)

/-- The tokens make up fields and commas, in any order. -/
inductive IsFields : List (String × Value) → List Token → Prop
  | nil : IsFields [] []
  | comma {fields : List (String × Value)} {ts : List Token} (h : IsFields fields ts) :
    IsFields fields (.symbol .comma :: ts)
  | field {key : String} {v : Value} {k sign : Token} {fields : List (String × Value)}
    {ts us : List Token} (hkey : IsKey key k) (hsign : IsSign sign) (h : IsLiteral v ts)
    (hfields : IsFields fields us) : IsFields ((key, v) :: fields) (k :: sign :: (ts ++ us))

end

/-! ## What a literal is free of -/

/-- A token that a literal may hold before the tokens `after`: a word is a keyword of a value or
names a field, a minus stands before a number, no other operator is there, and no template. -/
def PartOfLiteral (t : Token) (after : List Token) : Prop :=
  match t with
  | .word text =>
    text ∈ ["null", "true", "false"] ∨ ∃ sign, after.head? = some sign ∧ IsSign sign
  | .number _ => True
  | .str _ template => template = false
  | .symbol .minus => ∃ text, after.head? = some (.number text)
  | .symbol s => s ∈ [.lbracket, .rbracket, .lbrace, .rbrace, .comma, .assign, .colon]
  | .newline => False

/-- Every token is one that a literal may hold. -/
def PartsOfLiteral : List Token → Prop
  | [] => True
  | t :: ts => PartOfLiteral t ts ∧ PartsOfLiteral ts

/-- More tokens after those of a literal change nothing for the tokens in it. -/
theorem PartOfLiteral.append {t : Token} {after : List Token} (h : PartOfLiteral t after)
    (more : List Token) : PartOfLiteral t (after ++ more) := by
  have hhead : ∀ {u : Token}, after.head? = some u → (after ++ more).head? = some u := by
    intro u hu
    rw [List.head?_append, hu]
    rfl
  unfold PartOfLiteral at h ⊢
  split at h
  · exact h.imp_right fun ⟨sign, hsign, hs⟩ => ⟨sign, hhead hsign, hs⟩
  · trivial
  · exact h
  · exact h.imp fun _ => hhead
  · exact h
  · exact h

namespace PartsOfLiteral

/-- Parts of literals, one after the other, are parts of literals. -/
theorem append {ts us : List Token} (hts : PartsOfLiteral ts) (hus : PartsOfLiteral us) :
    PartsOfLiteral (ts ++ us) := by
  induction ts with
  | nil => exact hus
  | cons t ts ih => exact ⟨hts.1.append us, ih hts.2⟩

/-- Each token among parts of literals may stand in front of those that follow it. -/
theorem part {ts : List Token} (h : PartsOfLiteral ts) {front back : List Token} {t : Token}
    (hsplit : ts = front ++ t :: back) : PartOfLiteral t back := by
  induction front generalizing ts with
  | nil =>
    subst hsplit
    exact h.1
  | cons u front ih =>
    subst hsplit
    exact ih h.2 rfl

/-- A key, a sign and parts of literals are parts of literals. -/
theorem key {key : String} {k sign : Token} {ts : List Token} (hkey : IsKey key k)
    (hsign : IsSign sign) (h : PartsOfLiteral ts) : PartsOfLiteral (k :: sign :: ts) := by
  refine ⟨?_, ?_, h⟩
  · rcases hkey with rfl | rfl
    · exact .inr ⟨sign, rfl, hsign⟩
    · rfl
  · rcases hsign with rfl | rfl
    · simp [PartOfLiteral]
    · simp [PartOfLiteral]

end PartsOfLiteral

/-- The tokens of a scalar are parts of literals. -/
theorem IsScalar.parts {v : Value} {ts : List Token} (h : IsScalar v ts) : PartsOfLiteral ts := by
  cases h <;> simp [PartsOfLiteral, PartOfLiteral]

mutual

/-- A literal holds nothing but parts of literals: by induction on the literal, together with the
items and fields in it. -/
theorem IsLiteral.parts {v : Value} {ts : List Token} : IsLiteral v ts → PartsOfLiteral ts
  | .scalar h => h.parts
  | .emptyList => by simp [PartsOfLiteral, PartOfLiteral]
  | .list h hcomma => by
    have hclosing : PartsOfLiteral [.symbol .rbracket] := by
      simp [PartsOfLiteral, PartOfLiteral]
    refine ⟨by simp [PartOfLiteral], h.parts.append (.append ?_ hclosing)⟩
    rcases hcomma with rfl | rfl
    · trivial
    · simp [PartsOfLiteral, PartOfLiteral]
  | .object h _ => by
    refine ⟨by simp [PartOfLiteral], h.parts.append ?_⟩
    simp [PartsOfLiteral, PartOfLiteral]

/-- The tokens of the items of a list are parts of literals. -/
theorem IsItems.parts {items : List Value} {ts : List Token} : IsItems items ts → PartsOfLiteral ts
  | .one h => h.parts
  | .cons h hitems => h.parts.append ⟨by simp [PartOfLiteral], hitems.parts⟩

theorem IsFields.parts {fields : List (String × Value)} {ts : List Token} :
    IsFields fields ts → PartsOfLiteral ts
  | .nil => trivial
  | .comma h => ⟨by simp [PartOfLiteral], h.parts⟩
  | .field hkey hsign h hfields => .key hkey hsign (h.parts.append hfields.parts)

end

end ScopeConfig.Literal
