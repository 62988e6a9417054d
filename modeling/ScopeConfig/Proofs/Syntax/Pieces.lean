import Mathlib.Algebra.Ring.Int.Defs
import Mathlib.Data.List.Forall2
import ScopeConfig.Syntax.Capture

/-!
# The pieces of an entry

What an expression, the labels of a block and the end of an entry are, without reference to how they
are read, and that the readers find exactly these. An expression is a stretch of tokens between
which brackets are only counted: the count is never below zero, is zero at the end, and is above
zero at every newline.

## Main statements

* `capture_eq_none_iff`: the reader of expressions stops where an expression ends.
* `expression_of_isExpr`, `isExpr_of_expression` and their likes: readers against pieces.
-/

namespace ScopeConfig.Syntax

/-! ## Nesting -/

/-- How a token changes the number of open brackets. -/
def Token.turn : Token → Int
  | .symbol s => if s.opens then 1 else if s.closes then -1 else 0
  | _ => 0

/-- How tokens change the number of open brackets. -/
def turns (ts : List Located) : Int :=
  (ts.map fun t => t.token.turn).sum

/-- From `depth` open brackets on, the tokens close them all: no bracket is closed that is not open,
and no newline stands outside of all brackets. -/
structure Nested (depth : Int) (ts : List Located) : Prop where
  closed : depth + turns ts = 0
  nonneg : ∀ before after, ts = before ++ after → 0 ≤ depth + turns before
  inside : ∀ before t after, ts = before ++ t :: after → t.token = .newline →
    0 < depth + turns before

/-- The tokens make up an expression. -/
def IsExpr (ts : List Located) : Prop :=
  ts ≠ [] ∧ Nested 0 ts

@[simp] theorem turns_nil : turns [] = 0 := rfl

@[simp] theorem turns_cons (t : Located) (ts : List Located) :
    turns (t :: ts) = t.token.turn + turns ts := by
  simp [turns]

/-- No tokens close the open brackets exactly if none are open. -/
theorem nested_nil_iff {depth : Int} : Nested depth [] ↔ depth = 0 := by
  constructor
  · intro h
    simpa using h.closed
  · rintro rfl
    refine ⟨by simp, fun before after h => ?_, fun before t after h => ?_⟩
    · rw [List.nil_eq, List.append_eq_nil_iff] at h
      simp [h.1]
    · simp at h

/-- Tokens are nested exactly if the first one may stand at this depth and the rest are nested
behind it. -/
theorem nested_cons_iff {depth : Int} {t : Located} {ts : List Located} :
    Nested depth (t :: ts) ↔
      0 ≤ depth ∧ (t.token = .newline → 0 < depth) ∧ Nested (depth + t.token.turn) ts := by
  constructor
  · intro h
    refine ⟨by simpa using h.nonneg [] _ rfl, fun ht => by simpa using h.inside [] t ts rfl ht,
      ?_, fun before after heq => ?_, fun before u after heq hu => ?_⟩
    -- each statement about the rest is the one about the list whose front has the first token
    · have hclosed := h.closed
      rw [turns_cons] at hclosed
      omega
    · have hprefix := h.nonneg (t :: before) after (by rw [heq]; rfl)
      rw [turns_cons] at hprefix
      omega
    · have hprefix := h.inside (t :: before) u after (by rw [heq]; rfl) hu
      rw [turns_cons] at hprefix
      omega
  -- and the other way round a front is empty, or begins with the first token
  · rintro ⟨hdepth, hnewline, h⟩
    refine ⟨?_, fun before after heq => ?_, fun before u after heq hu => ?_⟩
    · have hclosed := h.closed
      rw [turns_cons]
      omega
    · cases before with
      | nil => simpa using hdepth
      | cons v before =>
        obtain ⟨rfl, htail⟩ := List.cons.inj heq
        have hprefix := h.nonneg before after htail
        rw [turns_cons]
        omega
    · cases before with
      | nil =>
        obtain ⟨rfl, -⟩ := List.cons.inj heq
        simpa using hnewline hu
      | cons v before =>
        obtain ⟨rfl, htail⟩ := List.cons.inj heq
        have hprefix := h.inside before u after htail hu
        rw [turns_cons]
        omega

/-- Nested tokens never begin below depth zero. -/
theorem Nested.depth_nonneg {depth : Int} {ts : List Located} (h : Nested depth ts) :
    0 ≤ depth := by
  simpa using h.nonneg [] ts rfl

/-! ## Ends of entries -/

/-- An entry ends with a newline, or just before a closing brace or the end of the text. The second
list is what comes after the end. -/
inductive Ends : List Located → List Located → Prop
  | newline {t : Located} {ts : List Located} (ht : t.token = .newline) : Ends (t :: ts) ts
  | brace {t : Located} {ts : List Located} (ht : t.token = .symbol .rbrace) :
    Ends (t :: ts) (t :: ts)
  | text : Ends [] []

/-- The end of an entry is read exactly where an entry ends. -/
theorem entryEnd_eq_ok_iff {o : Origin} {ts rest : List Located} :
    entryEnd o ts = (.ok (), rest) ↔ Ends ts rest := by
  constructor
  · intro h
    unfold entryEnd at h
    split at h
    · obtain rfl := (Prod.mk.inj h).2
      exact .text
    · split at h
      · rename_i ht
        obtain rfl := (Prod.mk.inj h).2
        exact .newline ht
      · rename_i ht
        obtain rfl := (Prod.mk.inj h).2
        exact .brace ht
      · cases h
  · intro h
    cases h with
    | newline ht => simp [entryEnd, ht]
    | brace ht => simp [entryEnd, ht]
    | text => rfl

/-- What comes after the end is determined. -/
theorem Ends.unique {ts rest rest' : List Located} (h : Ends ts rest) (h' : Ends ts rest') :
    rest = rest' := by
  cases h with
  | newline ht => cases h' <;> simp_all
  | brace ht => cases h' <;> simp_all
  | text => cases h'; rfl

/-! ## Expressions -/

/-- At these tokens an entry can end. -/
def AtEnd (ts : List Located) : Prop :=
  ∃ rest, Ends ts rest

/-- An entry can end at a newline and before a closing brace. -/
theorem atEnd_cons_iff {t : Located} {ts : List Located} :
    AtEnd (t :: ts) ↔ t.token = .newline ∨ t.token = .symbol .rbrace := by
  constructor
  · rintro ⟨rest, h⟩
    cases h with
    | newline ht => exact .inl ht
    | brace ht => exact .inr ht
  · rintro (ht | ht)
    · exact ⟨_, .newline ht⟩
    · exact ⟨_, .brace ht⟩

/-- The first `n` tokens close all brackets, and an entry can end after them. -/
def Captured (depth : Nat) (ts : List Located) (n : Nat) : Prop :=
  n ≤ ts.length ∧ Nested depth (ts.take n) ∧ AtEnd (ts.drop n)

/-- One more token is captured when it cannot be an end and the rest is captured from the new depth
on. -/
theorem captured_cons {depth depth' : Nat} {t : Located} {ts : List Located}
    (hturn : (depth' : Int) = depth + t.token.turn) (hnewline : t.token = .newline → 0 < depth)
    (hstop : depth = 0 → ¬AtEnd (t :: ts))
    (ih : ∀ n, capture depth' ts = (none, n) ↔ Captured depth' ts n) (n : Nat) :
    (capture depth' ts).map id (· + 1) = (none, n) ↔ Captured depth (t :: ts) n := by
  cases n with
  | zero =>
    have hread : ¬(capture depth' ts).map id (· + 1) = (none, 0) := fun h =>
      Nat.succ_ne_zero _ (Prod.mk.inj h).2
    have hcaptured : ¬Captured depth (t :: ts) 0 := by
      rintro ⟨-, hnested, hend⟩
      rw [List.take_zero, nested_nil_iff] at hnested
      exact hstop (by omega) hend
    simp only [hread, hcaptured]
  | succ n =>
    have hread : (capture depth' ts).map id (· + 1) = (none, n + 1) ↔
        capture depth' ts = (none, n) := by
      simp [Prod.ext_iff]
    rw [hread, ih, Captured, Captured, List.take_succ_cons, nested_cons_iff, hturn]
    simp only [List.length_cons, Nat.add_le_add_iff_right, Int.natCast_nonneg, true_and,
      List.drop_succ_cons, Int.natCast_pos, iff_true_intro hnewline]

/-- Outside of all brackets nothing is captured from a token that no expression can begin with. -/
theorem captured_stuck {t : Located} (h : ∀ ts, ¬Nested 0 (t :: ts)) (ts : List Located) (n : Nat) :
    Captured 0 (t :: ts) n ↔ n = 0 ∧ AtEnd (t :: ts) := by
  cases n with
  | zero => simp [Captured, nested_nil_iff]
  | succ n =>
    simp only [Nat.succ_ne_zero, false_and, iff_false]
    rintro ⟨-, hnested, -⟩
    exact h _ hnested

/-- No newline stands outside of all brackets. -/
theorem not_nested_zero_of_newline {t : Located} (ht : t.token = .newline) (ts : List Located) :
    ¬Nested 0 (t :: ts) := by
  rw [nested_cons_iff]
  rintro ⟨-, hinside, -⟩
  exact Int.lt_irrefl 0 (hinside ht)

/-- No bracket is closed that is not open. -/
theorem not_nested_zero_of_closes {t : Located} (ht : t.token.turn = -1) (ts : List Located) :
    ¬Nested 0 (t :: ts) := by
  rw [nested_cons_iff, ht]
  rintro ⟨-, -, hnested⟩
  exact absurd hnested.depth_nonneg (by decide)

/-- The reader of expressions succeeds exactly where an expression ends: by induction on the tokens,
whatever the number of open brackets is. -/
theorem capture_eq_none_iff {depth : Nat} {ts : List Located} {n : Nat} :
    capture depth ts = (none, n) ↔ Captured depth ts n := by
  induction ts generalizing depth n with
  -- a text ends an expression only when no bracket is open
  | nil =>
    have hend : AtEnd [] := ⟨[], .text⟩
    cases depth with
    | zero => simp [capture, Captured, nested_nil_iff, hend, eq_comm]
    | succ depth =>
      have hopen : ¬(depth : Int) + 1 = 0 := by omega
      simp [capture, Captured, nested_nil_iff, hopen]
  | cons t ts ih =>
    rw [capture]
    cases htoken : t.token with
    | newline =>
      dsimp only
      have hend : AtEnd (t :: ts) := atEnd_cons_iff.2 (.inl htoken)
      -- a newline is part of the expression inside brackets, and ends it outside
      by_cases hdepth : depth = 0
      · subst hdepth
        have hstuck := captured_stuck (not_nested_zero_of_newline htoken) ts n
        simp [hstuck, hend, eq_comm]
      · rw [if_neg hdepth]
        exact captured_cons (by simp [htoken, Token.turn]) (fun _ => Nat.pos_of_ne_zero hdepth)
          (fun h => (hdepth h).elim) (fun _ => ih) n
    | symbol s =>
      dsimp only
      have hnewline : t.token = .newline → 0 < depth := by simp [htoken]
      by_cases hopens : s.opens = true
      · rw [if_pos hopens]
        have hbrace : s ≠ .rbrace := by
          rintro rfl
          simp [Symbol.opens] at hopens
        exact captured_cons (by simp [htoken, Token.turn, hopens]) hnewline
          (by simp [atEnd_cons_iff, htoken, hbrace]) (fun _ => ih) n
      · rw [if_neg hopens]
        by_cases hcloses : s.closes = true
        · rw [if_pos hcloses]
          have hturn : t.token.turn = -1 := by simp [htoken, Token.turn, hopens, hcloses]
          -- the closing brace of the block ends the expression too; any other bracket is left over
          cases depth with
          | zero =>
            have hstuck := captured_stuck (not_nested_zero_of_closes hturn) ts n
            have hend : AtEnd (t :: ts) ↔ s = .rbrace := by simp [atEnd_cons_iff, htoken]
            rw [hstuck, hend]
            by_cases hbrace : s = .rbrace
            · simp [hbrace, eq_comm]
            · simp [hbrace]
          | succ depth =>
            exact captured_cons (by rw [hturn]; omega) hnewline (by simp) (fun _ => ih) n
        · rw [if_neg hcloses]
          have hbrace : s ≠ .rbrace := by
            rintro rfl
            simp [Symbol.closes] at hcloses
          exact captured_cons (by simp [htoken, Token.turn, hopens, hcloses]) hnewline
            (by simp [atEnd_cons_iff, htoken, hbrace]) (fun _ => ih) n
    -- the other tokens turn nothing and end nothing
    | word text =>
      exact captured_cons (by simp [htoken, Token.turn]) (by simp [htoken])
        (by simp [atEnd_cons_iff, htoken]) (fun _ => ih) n
    | number text =>
      exact captured_cons (by simp [htoken, Token.turn]) (by simp [htoken])
        (by simp [atEnd_cons_iff, htoken]) (fun _ => ih) n
    | str value template =>
      exact captured_cons (by simp [htoken, Token.turn]) (by simp [htoken])
        (by simp [atEnd_cons_iff, htoken]) (fun _ => ih) n

/-- What the reader of expressions takes is an expression, and an entry can end after it. -/
theorem isExpr_of_expression {o : Origin} {ts rest : List Located} {e : Expr}
    (h : expression o ts = (.ok e, rest)) :
    IsExpr e.tokens ∧ AtEnd rest ∧ ts = e.tokens ++ rest := by
  unfold expression at h
  cases hcapture : capture 0 ts with
  | mk fault count =>
    rw [hcapture] at h
    dsimp only at h
    split at h
    · cases h
    · cases h
    · rename_i first more htake
      obtain ⟨he, rfl⟩ := Prod.mk.inj h
      obtain rfl := Except.ok.inj he
      obtain ⟨-, hnested, hend⟩ := capture_eq_none_iff.1 hcapture
      have htokens : (o.expr first more).tokens = ts.take count := htake.symm
      refine ⟨⟨by simp [Origin.expr], htokens ▸ hnested⟩, hend, ?_⟩
      rw [htokens, List.take_append_drop]

/-- An expression is read as such, when an entry can end after it. -/
theorem expression_of_isExpr {e rest : List Located} (he : IsExpr e) (hend : AtEnd rest)
    (o : Origin) : ∃ x : Expr, expression o (e ++ rest) = (.ok x, rest) ∧ x.tokens = e := by
  have hcapture : capture 0 (e ++ rest) = (none, e.length) := by
    refine capture_eq_none_iff.2 ⟨by simp, ?_, ?_⟩
    · rw [List.take_left]
      exact he.2
    · rwa [List.drop_left]
  obtain ⟨first, more, rfl⟩ := List.exists_cons_of_ne_nil he.1
  refine ⟨o.expr first more, ?_, rfl⟩
  simp only [expression, hcapture, List.take_left, List.drop_left]

/-! ## Labels -/

/-- The token is a label with this text: a word, or a string that is no template. -/
def IsLabel (t : Located) (text : String) : Prop :=
  t.token = .word text ∨ t.token = .str text false

/-- The reader of heads takes labels and an opening brace. -/
theorem labels_of_header {o : Origin} {ts rest : List Located} {labels : List Label}
    {brace : Located} (h : header o ts = (.ok (labels, brace), rest)) :
    ∃ ls, ts = ls ++ brace :: rest ∧ List.Forall₂ IsLabel ls (labels.map Label.text) ∧
      brace.token = .symbol .lbrace := by
  induction ts generalizing labels with
  | nil => simp [header] at h
  | cons t ts ih =>
    -- a label comes before the labels of the rest
    have hlabel : ∀ (text : String) (f : List Label × Located → List Label × Located),
        IsLabel t text → (∀ head, f head = (⟨text, t.range o.file⟩ :: head.1, head.2)) →
        ((header o ts).1.map f, (header o ts).2) = (.ok (labels, brace), rest) →
        ∃ ls, t :: ts = ls ++ brace :: rest ∧ List.Forall₂ IsLabel ls (labels.map Label.text) ∧
          brace.token = .symbol .lbrace := by
      intro text f ht hf hread
      cases hhead : header o ts with
      | mk outcome left =>
        rw [hhead] at hread
        cases outcome with
        | error d => cases hread
        | ok head =>
          obtain ⟨found, opening⟩ := head
          simp only [Except.map, hf, Prod.mk.injEq, Except.ok.injEq] at hread
          obtain ⟨⟨rfl, rfl⟩, rfl⟩ := hread
          obtain ⟨ls, rfl, hlabels, hbrace⟩ := ih hhead
          exact ⟨t :: ls, rfl, .cons ht hlabels, hbrace⟩
    simp only [header] at h
    split at h
    · rename_i text ht
      exact hlabel text _ (.inl ht) (fun _ => rfl) h
    · rename_i text ht
      exact hlabel text _ (.inr ht) (fun _ => rfl) h
    · cases h
    · rename_i ht
      cases h
      exact ⟨[], rfl, .nil, ht⟩
    · cases h

/-- Labels and an opening brace are read as the head of a block. -/
theorem header_of_labels {ls : List Located} {texts : List String}
    (hlabels : List.Forall₂ IsLabel ls texts) {brace : Located}
    (hbrace : brace.token = .symbol .lbrace) (rest : List Located) (o : Origin) :
    ∃ labels : List Label, header o (ls ++ brace :: rest) = (.ok (labels, brace), rest) ∧
      labels.map Label.text = texts := by
  induction hlabels with
  | nil => exact ⟨[], by simp [header, hbrace], rfl⟩
  | @cons t text ls texts ht _ ih =>
    obtain ⟨labels, hread, rfl⟩ := ih
    refine ⟨⟨text, t.range o.file⟩ :: labels, ?_, rfl⟩
    rcases ht with ht | ht
    · simp [header, ht, hread, Except.map]
    · simp [header, ht, hread, Except.map]

end ScopeConfig.Syntax
