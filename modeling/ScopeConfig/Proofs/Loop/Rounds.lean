import Mathlib.Data.List.Basic

/-!
# Loops in rounds

A loop is given by what one round of it does to its state: the round leaves the loop with a result,
or goes on with another state. Nothing says that a loop ends, so it is run with a bound on its
rounds, and cut off there. When every round that goes on leaves fewer things to go over, a bound
above their number is never reached.

## Main statements

* `Round.loop_eq`: a loop whose rounds pass something and keep a result leaves with that result.
* `Round.loop_induction`: what rounds keep is true of the result.
-/

namespace ScopeConfig

/-- How a round of a loop ends: it leaves the loop with a result, or goes on. -/
inductive Round (σ ρ : Type) where
  | leave (result : ρ)
  | again (state : σ)

namespace Round

variable {σ ρ α : Type}

/-- The result of a loop that is left within `n` rounds. -/
def loop (round : σ → Round σ ρ) : Nat → σ → Option ρ
  | 0, _ => none
  | n + 1, s =>
    match round s with
    | .leave result => some result
    | .again s' => loop round n s'

/-- Something is passed to come from the one list to what is left of it. -/
def Passes (before after : List α) : Prop :=
  ∃ passed, passed ≠ [] ∧ before = passed ++ after

/-- Passing something leaves less. -/
theorem Passes.length_lt {before after : List α} (h : Passes before after) :
    after.length < before.length := by
  obtain ⟨passed, hne, rfl⟩ := h
  have hpos := List.length_pos_of_ne_nil hne
  rw [List.length_append]
  omega

/-- What is left of a tail is less than the list. -/
theorem Passes.of_suffix {x : α} {before after : List α} (h : after <:+ before) :
    Passes (x :: before) after := by
  obtain ⟨front, rfl⟩ := h
  exact ⟨x :: front, List.cons_ne_nil x front, rfl⟩

/-- What is left after something is passed is a suffix. -/
theorem Passes.suffix {before after : List α} (h : Passes before after) : after <:+ before := by
  obtain ⟨passed, -, rfl⟩ := h
  exact List.suffix_append passed after

/-- Every round that goes on passes something. -/
def Advances (round : σ → Round σ ρ) (left : σ → List α) : Prop :=
  ∀ s s', round s = .again s' → Passes (left s) (left s')

/-- A loop that may take one round more than there are things left is left with this result. -/
def Finishes (round : σ → Round σ ρ) (left : σ → List α) (result : σ → ρ) : Prop :=
  ∀ s n, (left s).length < n → loop round n s = some (result s)

/-- What a round leads to from a state is the result for that state, or a state with fewer things
left and the same result. -/
def Keeps (left : σ → List α) (result : σ → ρ) (s : σ) : Round σ ρ → Prop
  | .leave r => r = result s
  | .again s' => Passes (left s) (left s') ∧ result s' = result s

section Keeps

variable {round : σ → Round σ ρ} {left : σ → List α} {result : σ → ρ}

/-- Rounds that keep a result as long as fewer than `n` things are left lead to it. -/
theorem loop_eq {n : Nat} (h : ∀ s, (left s).length < n → (round s).Keeps left result s) {s : σ}
    (hs : (left s).length < n) : loop round n s = some (result s) := by
  induction n generalizing s with
  | zero => omega
  | succ n ih =>
    have hround := h s hs
    unfold loop
    cases hnext : round s with
    | leave r =>
      rw [hnext] at hround
      exact congrArg some hround
    | again s' =>
      rw [hnext] at hround
      obtain ⟨hpass, hresult⟩ := hround
      have hlt := hpass.length_lt
      rw [← hresult]
      exact ih (fun s hs => h s (by omega)) (by omega)

/-- A loop whose every round keeps the result is left with that result. -/
theorem finishes_of_keeps (h : ∀ s, (round s).Keeps left result s) : Finishes round left result :=
  fun _ _ hs => loop_eq (fun s _ => h s) hs

/-- A loop whose every round keeps the result passes something in every round. -/
theorem advances_of_keeps (h : ∀ s, (round s).Keeps left result s) : Advances round left := by
  intro s s' hagain
  have hround := h s
  rw [hagain] at hround
  exact hround.1

end Keeps

/-- What is true at the start of a loop and kept by every round that goes on is true when a round
leaves, and what follows from it there is true of the result. -/
theorem loop_induction {round : σ → Round σ ρ} {motive : σ → Prop} {post : ρ → Prop}
    (hagain : ∀ s s', round s = .again s' → motive s → motive s')
    (hleave : ∀ s r, round s = .leave r → motive s → post r) {n : Nat} {s : σ} {r : ρ}
    (hs : motive s) (h : loop round n s = some r) : post r := by
  induction n generalizing s with
  | zero => cases h
  | succ n ih =>
    unfold loop at h
    cases hround : round s with
    | leave found =>
      rw [hround] at h
      obtain rfl := Option.some.inj h
      exact hleave s found hround hs
    | again s' =>
      rw [hround] at h
      exact ih (hagain s s' hround hs) h

end Round

end ScopeConfig
