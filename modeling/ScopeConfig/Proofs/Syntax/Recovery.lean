import ScopeConfig.Proofs.Syntax.Pieces
import ScopeConfig.Syntax.Entry

/-!
# Where a broken entry ends

A broken entry is meant to end at the first newline or closing brace outside of the brackets that
were opened since it broke, where a closing bracket closes the latest one that is open, if there is
one. `recover` counts brackets with a sign instead, so that a closing bracket with nothing to close
takes the count below zero, and no newline or brace is an end until an opening bracket has made up
for it. The two ends are the same exactly when no such bracket comes before the first of them, or
neither is found before the end of the text.

## Main statements

* `recover_firstStop`: where recovery stops, by the signed count.
* `recover_eq_iff_no_strays`: when this is where the broken entry ends.
-/

namespace ScopeConfig.Syntax

/-! ## Open brackets -/

namespace Token

/-- Whether an entry can end at a token. -/
def Stops (t : Token) : Prop :=
  t = .newline ∨ t = .symbol .rbrace

instance : DecidablePred Stops :=
  fun t => inferInstanceAs (Decidable (t = .newline ∨ t = .symbol .rbrace))

/-- Whether a token is a closing bracket. -/
def closes : Token → Bool
  | .symbol s => s.closes
  | _ => false

/-- How many of `depth` open brackets are open after a token: a closing bracket closes the latest
one, if there is one. -/
def openAfter (depth : Nat) : Token → Nat
  | .symbol s => if s.opens then depth + 1 else if s.closes then depth - 1 else depth
  | _ => depth

end Token

/-- How many brackets are open after tokens that come when `depth` are open. -/
def openFrom (depth : Nat) (ts : List Located) : Nat :=
  ts.foldl (fun depth t => t.token.openAfter depth) depth

/-- How many of these tokens are closing brackets with nothing to close, when `depth` brackets are
open before them. -/
def strays : Nat → List Located → Nat
  | _, [] => 0
  | depth, t :: ts =>
    (if t.token.closes && depth = 0 then 1 else 0) + strays (t.token.openAfter depth) ts

/-- The strays of two lists of tokens: those of the second one are counted from the brackets that
the first one leaves open. -/
theorem strays_append (depth : Nat) (ts us : List Located) :
    strays depth (ts ++ us) = strays depth ts + strays (openFrom depth ts) us := by
  induction ts generalizing depth with
  | nil => simp [strays, openFrom]
  | cons t ts ih =>
    rw [List.cons_append, strays, strays, ih, Nat.add_assoc]
    rfl

/-- One token: the signed count falls behind when a closing bracket has nothing to close. -/
theorem openAfter_eq (depth : Nat) (t : Token) :
    (t.openAfter depth : Int) = depth + t.turn + (if t.closes && depth = 0 then 1 else 0) := by
  cases t with
  | symbol s =>
    cases s <;> simp [Token.openAfter, Token.turn, Token.closes, Symbol.opens, Symbol.closes]
    all_goals grind
  | _ => simp [Token.openAfter, Token.turn, Token.closes]

/-- The signed count falls behind the open brackets by the closing ones with nothing to close. -/
theorem openFrom_eq (depth : Nat) (ts : List Located) :
    (openFrom depth ts : Int) = depth + turns ts + strays depth ts := by
  induction ts generalizing depth with
  | nil => simp [openFrom, strays]
  | cons t ts ih =>
    have hrest : (openFrom depth (t :: ts) : Int) = openFrom (t.token.openAfter depth) ts := rfl
    rw [hrest, ih, openAfter_eq, turns_cons, strays]
    push_cast
    omega

/-! ## The first place to stop -/

/-- `rest` begins at the first newline or closing brace where `closed` holds of the tokens before
it, or there is no such place, and `rest` is empty. -/
structure FirstStop (closed : List Located → Prop) (front rest : List Located) : Prop where
  passed : ∀ before t after, front = before ++ t :: after → t.token.Stops → ¬closed before
  stopped : ∀ t after, rest = t :: after → t.token.Stops ∧ closed front

namespace FirstStop

variable {closed : List Located → Prop} {t : Located} {front rest : List Located}

/-- The first stop is the first token, if it stops and the condition holds at once. -/
theorem here (ht : t.token.Stops) (hclosed : closed []) : FirstStop closed [] (t :: rest) := by
  refine ⟨fun before u after h => by simp at h, fun u after h => ?_⟩
  obtain ⟨rfl, -⟩ := List.cons_eq_cons.1 h
  exact ⟨ht, hclosed⟩

/-- Without tokens there is no stop, and nothing is left. -/
theorem text : FirstStop closed [] [] :=
  ⟨fun before u after h => by simp at h, fun u after h => by cases h⟩

/-- The first stop is behind a token exactly if it is not at that token and is the first stop of the
others. -/
theorem cons_iff :
    FirstStop closed (t :: front) rest ↔
      ¬(t.token.Stops ∧ closed []) ∧ FirstStop (fun before => closed (t :: before)) front rest := by
  constructor
  · intro h
    refine ⟨fun ⟨ht, hclosed⟩ => h.passed [] t front rfl ht hclosed,
      fun before u after heq => h.passed (t :: before) u after (by rw [heq]; rfl), h.stopped⟩
  · rintro ⟨hpass, h⟩
    refine ⟨fun before u after heq hu hclosed => ?_, h.stopped⟩
    cases before with
    | nil =>
      obtain ⟨rfl, -⟩ := List.cons_eq_cons.1 heq
      exact hpass ⟨hu, hclosed⟩
    | cons v before =>
      obtain ⟨rfl, htail⟩ := List.cons_eq_cons.1 heq
      exact h.passed before u after htail hu hclosed

/-- There is always a first place to stop. -/
theorem exists_of (closed : List Located → Prop) (ts : List Located) :
    ∃ front rest, ts = front ++ rest ∧ FirstStop closed front rest := by
  induction ts generalizing closed with
  | nil => exact ⟨[], [], rfl, text⟩
  | cons t ts ih =>
    by_cases hstop : t.token.Stops ∧ closed []
    · exact ⟨[], t :: ts, rfl, here hstop.1 hstop.2⟩
    · obtain ⟨front, rest, rfl, h⟩ := ih fun before => closed (t :: before)
      exact ⟨t :: front, rest, rfl, cons_iff.2 ⟨hstop, h⟩⟩

/-- The first stop of a list of tokens is unique. -/
theorem unique {front' rest' : List Located} (h : FirstStop closed front rest)
    (h' : FirstStop closed front' rest') (heq : front ++ rest = front' ++ rest') :
    front = front' ∧ rest = rest' := by
  induction front generalizing closed front' with
  | nil =>
    cases front' with
    | nil => exact ⟨rfl, heq⟩
    | cons t front' =>
      exact ((cons_iff.1 h').1 (h.stopped t _ heq)).elim
  | cons t front ih =>
    cases front' with
    | nil => exact ((cons_iff.1 h).1 (h'.stopped t _ heq.symm)).elim
    | cons t' front' =>
      obtain ⟨rfl, htail⟩ := List.cons_eq_cons.1 heq
      obtain ⟨rfl, rfl⟩ := ih (cons_iff.1 h).2 (cons_iff.1 h').2 htail
      exact ⟨rfl, rfl⟩

/-- What the tokens before the stop satisfy is all that matters. -/
theorem congr {closed' : List Located → Prop}
    (hclosed : ∀ before after, front = before ++ after → (closed before ↔ closed' before))
    (h : FirstStop closed front rest) : FirstStop closed' front rest where
  passed before t after heq ht :=
    mt (hclosed before (t :: after) heq).2 (h.passed before t after heq ht)
  stopped t after heq := by
    obtain ⟨ht, hfront⟩ := h.stopped t after heq
    exact ⟨ht, (hclosed front [] (List.append_nil _).symm).1 hfront⟩

end FirstStop

/-! ## Recovery -/

/-- One step of recovery. -/
theorem recover_cons (depth : Int) (t : Located) (ts : List Located) :
    recover depth (t :: ts) =
      if t.token.Stops ∧ depth = 0 then t :: ts else recover (depth + t.token.turn) ts := by
  rw [recover]
  cases htoken : t.token with
  | newline => by_cases hdepth : depth = 0 <;> simp [Token.Stops, Token.turn, hdepth]
  | symbol s =>
    cases s <;> by_cases hdepth : depth = 0 <;>
      simp [Token.Stops, Token.turn, Symbol.opens, Symbol.closes, hdepth, Int.sub_eq_add_neg]
  | _ => simp [Token.Stops, Token.turn]

/-- Recovery stops at the first newline or closing brace before which as many brackets were opened
as closed. -/
theorem recover_firstStop (depth : Int) (ts : List Located) :
    ∃ front, ts = front ++ recover depth ts ∧
      FirstStop (fun before => depth + turns before = 0) front (recover depth ts) := by
  induction ts generalizing depth with
  | nil => exact ⟨[], rfl, .text⟩
  | cons t ts ih =>
    rw [recover_cons]
    split
    · rename_i hstop
      exact ⟨[], rfl, .here hstop.1 (by simpa using hstop.2)⟩
    · rename_i hpass
      obtain ⟨front, heq, h⟩ := ih (depth + t.token.turn)
      refine ⟨t :: front, by rw [List.cons_append, ← heq], FirstStop.cons_iff.2 ⟨?_, ?_⟩⟩
      · simpa using hpass
      · exact h.congr fun before _ _ => by rw [turns_cons, Int.add_assoc]

/-- The recovery ends at the first stop where the turns of the tokens before it add up to nothing; a
closing bracket with nothing to close counts like any other. -/
theorem recover_eq_iff {front rest : List Located} :
    recover 0 (front ++ rest) = rest ↔ FirstStop (turns · = 0) front rest := by
  obtain ⟨front', heq, h⟩ := recover_firstStop 0 (front ++ rest)
  replace h : FirstStop (turns · = 0) front' (recover 0 (front ++ rest)) :=
    h.congr fun before _ _ => by rw [Int.zero_add]
  constructor
  · intro hrest
    rw [hrest] at heq h
    exact List.append_cancel_right heq ▸ h
  · intro hfirst
    exact (hfirst.unique h heq).2.symm

/-- A broken entry ends at the first newline or closing brace outside of the brackets opened since
it broke, where a closing bracket closes the latest one that is open and is passed over when there
is none, or at the end of the text. Recovery stops there exactly when no closing bracket without one
to close comes before that place, or the entry runs to the end of the text, and no newline or
closing brace up to there has as many brackets opened as closed before it. -/
theorem recover_eq_iff_no_strays (ts : List Located) :
    ∃ front rest, ts = front ++ rest ∧ FirstStop (openFrom 0 · = 0) front rest ∧
      (∀ front' rest', ts = front' ++ rest' → FirstStop (openFrom 0 · = 0) front' rest' →
        front' = front ∧ rest' = rest) ∧
      (recover 0 ts = rest ↔ strays 0 front = 0 ∨ rest = [] ∧
        ∀ before t after, ts = before ++ t :: after → t.token.Stops → turns before ≠ 0) := by
  obtain ⟨front, rest, rfl, h⟩ := FirstStop.exists_of (openFrom 0 · = 0) ts
  refine ⟨front, rest, rfl, h, fun front' rest' heq h' => h'.unique h heq.symm, ?_⟩
  rw [recover_eq_iff]
  have hcount : ∀ before, (openFrom 0 before : Int) = turns before + strays 0 before :=
    fun before => (openFrom_eq 0 before).trans (by simp)
  constructor
  · intro hsigned
    cases hrest : rest with
    | nil =>
      refine .inr ⟨rfl, fun before t after heq ht => hsigned.passed before t after ?_ ht⟩
      rw [← heq, List.append_nil]
    | cons t after =>
      -- both counts are zero at the stop
      have hopen : openFrom 0 front = 0 := (h.stopped t after hrest).2
      have hturns : turns front = 0 := (hsigned.stopped t after hrest).2
      have hfront := hcount front
      exact .inl (by omega)
  · rintro (hnone | ⟨rfl, hpassed⟩)
    · -- without strays the two counts agree all the way
      refine h.congr fun before after heq => ?_
      rw [heq, strays_append] at hnone
      have hbefore := hcount before
      omega
    · refine ⟨fun before t after heq => hpassed before t after (by rw [heq, List.append_nil]), ?_⟩
      intro t after heq
      cases heq

/-! ## A bracket that closes nothing -/

/-- A block with a broken attribute, and another broken attribute on a line after the block. -/
def strayBracket : String := "x \x7b\n  a = ]\n\x7d\nb =\n"

/-- The stray bracket of the text, in front of the end of its block: the recovery goes to the end of
the text. -/
theorem tokens_strayBracket :
    (tokens strayBracket).toOption.map (fun stream =>
        ((stream.tokens.drop 5).map Located.token, recover 0 (stream.tokens.drop 5))) =
      some ([.symbol .rbracket, .newline, .symbol .rbrace, .newline, .word "b", .symbol .assign,
        .newline], []) := by
  decide +kernel

/-- The first attribute breaks at the closing bracket, so it ends with its line. Recovery goes on to
the end of the text: the brace of the block is passed over, so the block is reported as open, and
the other broken attribute is not reported, although it is when the first one is not broken. -/
theorem recover_past_strayBracket :
    (∃ stream front rest, tokens strayBracket = .ok stream ∧ stream.tokens.drop 5 = front ++ rest ∧
        FirstStop (openFrom 0 · = 0) front rest ∧ rest ≠ [] ∧ recover 0 (front ++ rest) = []) ∧
      Diagnostic.ofResult (Body.parse "/p/cfg.tm" strayBracket) =
        [.malformed (.strayClosing .rbracket) ⟨"/p/cfg.tm", ⟨2, 7, 10⟩, ⟨2, 8, 11⟩⟩,
          .malformed (.openBlock "x") ⟨"/p/cfg.tm", ⟨1, 3, 2⟩, ⟨1, 4, 3⟩⟩] ∧
      Diagnostic.ofResult (Body.parse "/p/cfg.tm" "x \x7b\n  a = 1\n\x7d\nb =\n") =
        [.malformed .missingExpression ⟨"/p/cfg.tm", ⟨4, 4, 17⟩, ⟨5, 1, 18⟩⟩] := by
  refine ⟨?_, by decide +kernel, by decide +kernel⟩
  obtain ⟨stream, hstream, hfields⟩ := Option.map_eq_some_iff.1 tokens_strayBracket
  obtain ⟨htokens, hrecover⟩ := Prod.mk.inj hfields
  obtain ⟨bracket, rest, hdrop, hbracket, hrest⟩ := List.map_eq_cons_iff.1 htokens
  obtain ⟨newline, more, rfl, hnewline, -⟩ := List.map_eq_cons_iff.1 hrest
  have hok : tokens strayBracket = .ok stream := by
    cases h : tokens strayBracket with
    | error fault => simp [h, Except.toOption] at hstream
    | ok found =>
      rw [h] at hstream
      exact congrArg Except.ok (Option.some.inj hstream)
  have hend : recover 0 ([bracket] ++ newline :: more) = [] := by
    rw [List.singleton_append, ← hdrop]
    exact hrecover
  refine ⟨stream, [bracket], newline :: more, hok, hdrop, ?_, by simp, hend⟩
  refine FirstStop.cons_iff.2 ⟨?_, .here (.inl hnewline) ?_⟩
  · rw [hbracket]
    decide
  · simp [openFrom, Token.openAfter, hbracket, Symbol.opens, Symbol.closes]

end ScopeConfig.Syntax
