import ScopeConfig.Literal.Value
import ScopeConfig.Syntax.Tree

/-!
# Evaluating literal expressions

The value of an expression that is a literal: `true`, `false`, `null`, a number with or without a
minus, a string without template sequences, and lists and objects of literals. Newlines do not
count. Every other expression, a reference, a call, an operator, a template or anything with tokens
left over, has no value of this sort.

An object field is a word or a string, an equals sign or a colon, and a value; commas between fields
may be left out or repeated. A list takes single commas, and one after its last item.
-/

namespace ScopeConfig.Literal

open Syntax

/-- Fewer tokens than `ts` has. -/
abbrev Shorter (ts : List Token) := { rest : List Token // rest.length < ts.length }

namespace Shorter

/-- A list of tokens that is shorter than a part of `ts` is shorter than `ts`. -/
def widen {us ts : List Token} (h : us.length ≤ ts.length) (rest : Shorter us) : Shorter ts :=
  ⟨rest.1, Nat.lt_of_lt_of_le rest.2 h⟩

end Shorter

/-- What was read at the front of some tokens, or `none` if they are no literal, or the key that an
object has twice. -/
abbrev Read (α : Type) (ts : List Token) := Except (Option String) (α × Shorter ts)

/-- The key at the front of an object field, and the tokens after its equals sign or colon. -/
def fieldKey? : List Token → Option (String × List Token)
  | .word key :: .symbol .assign :: rest => some (key, rest)
  | .word key :: .symbol .colon :: rest => some (key, rest)
  | .str key false :: .symbol .assign :: rest => some (key, rest)
  | .str key false :: .symbol .colon :: rest => some (key, rest)
  | _ => none

/-- The key of a field takes two tokens: the name and the sign after it. -/
theorem fieldKey?_length {ts rest : List Token} {key : String}
    (h : fieldKey? ts = some (key, rest)) : ts.length = rest.length + 2 := by
  unfold fieldKey? at h
  split at h <;> simp_all

mutual

/-- Reads one value. -/
def readValue : (ts : List Token) → Read Value ts
  | .word text :: ts =>
    if text = "true" then .ok (.bool true, ⟨ts, by simp⟩)
    else if text = "false" then .ok (.bool false, ⟨ts, by simp⟩)
    else if text = "null" then .ok (.null, ⟨ts, by simp⟩)
    else .error none
  | .number text :: ts => .ok (.number (Double.ofNumeral text), ⟨ts, by simp⟩)
  | .symbol .minus :: .number text :: ts =>
    .ok (.number (Double.ofNumeral text).neg, ⟨ts, by simp only [List.length_cons]; omega⟩)
  | .str value false :: ts => .ok (.text value, ⟨ts, by simp⟩)
  | .symbol .lbracket :: ts =>
    match readItems ts with
    | .ok (items, rest) => .ok (.list items, rest.widen (by simp))
    | .error e => .error e
  | .symbol .lbrace :: ts =>
    match readFields [] ts with
    | .ok (fields, rest) => .ok (.object fields, rest.widen (by simp))
    | .error e => .error e
  | _ => .error none
termination_by ts => 2 * ts.length

/-- Reads the items of a list, each with its comma, up to and with the closing bracket. -/
def readItems (ts : List Token) : Read (List Value) ts :=
  match ts with
  | .symbol .rbracket :: ts => .ok ([], ⟨ts, by simp⟩)
  | ts =>
    match readValue ts with
    | .error e => .error e
    | .ok (item, ⟨.symbol .comma :: rest, h⟩) =>
      match readItems rest with
      | .ok (items, after) => .ok (item :: items, after.widen (by simp at h; omega))
      | .error e => .error e
    | .ok (item, ⟨.symbol .rbracket :: rest, h⟩) =>
      .ok ([item], ⟨rest, by simp at h; omega⟩)
    | .ok _ => .error none
termination_by 2 * ts.length + 1
decreasing_by
  · simp_wf
  · simp_wf
    simp at h
    omega

/-- Reads the fields of an object after those of `fields`, up to and with the closing brace. -/
def readFields (fields : List (String × Value)) (ts : List Token) :
    Read (List (String × Value)) ts :=
  match ts with
  | .symbol .rbrace :: ts => .ok (fields, ⟨ts, by simp⟩)
  | .symbol .comma :: ts =>
    match readFields fields ts with
    | .ok (fields, after) => .ok (fields, after.widen (by simp))
    | .error e => .error e
  | ts =>
    match _h : fieldKey? ts with
    | none => .error none
    | some (key, rest) =>
      have length := fieldKey?_length _h
      match readValue rest with
      | .error e => .error e
      | .ok (value, ⟨rest, h⟩) =>
        if fields.any (·.1 = key) then .error (some key)
        else
          match readFields (fields ++ [(key, value)]) rest with
          | .ok (fields, after) => .ok (fields, after.widen (by omega))
          | .error e => .error e
termination_by 2 * ts.length + 1
decreasing_by
  all_goals simp_wf
  all_goals omega

end

/-- The tokens of an expression that count for its value. -/
def significant (e : Expr) : List Token :=
  (e.tokens.map Located.token).filter (· ≠ .newline)

/-- The value of an expression that is a literal. -/
def evaluate (e : Expr) : Except Fault Value :=
  match readValue (significant e) with
  | .ok (value, ⟨[], _⟩) => .ok value
  | .ok _ => .error (.notStatic e.text)
  | .error none => .error (.notStatic e.text)
  | .error (some key) => .error (.duplicateKey key)

end ScopeConfig.Literal
