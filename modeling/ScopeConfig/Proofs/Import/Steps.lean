import ScopeConfig.Proofs.Import.Closure

/-!
# Expansion in counted steps

`Walk.run` takes steps until no frame is open. Given a number of steps that is enough for every
start, the expansion can be computed by taking that many, since a step of a finished walk changes
nothing.

## Main statements

* `Walk.run_eq_take`: a walk that is finished after some steps is the run.
* `Resolver.expandAll_eq_expandWithin`: expansion in counted steps is expansion.
-/

namespace ScopeConfig

open Syntax

namespace Walk

/-- Takes `n` steps. -/
def take (r : Resolver) : Nat → Walk → Walk
  | 0, w => w
  | n + 1, w => (w.step r).take r n

/-- Without open frames a step changes nothing. -/
theorem step_of_frames_nil (r : Resolver) {w : Walk} (h : w.frames = []) : w.step r = w := by
  simp [step, h]

theorem take_of_frames_nil (r : Resolver) {w : Walk} (h : w.frames = []) (n : Nat) :
    w.take r n = w := by
  induction n with
  | zero => rfl
  | succ n ih => rw [take, step_of_frames_nil r h, ih]

/-- A walk that is finished after some steps is the run. -/
theorem run_eq_take (r : Resolver) {n : Nat} {w : Walk} (h : (w.take r n).frames = []) :
    w.run r = w.take r n := by
  induction n generalizing w with
  | zero => exact run_of_frames_nil r h
  | succ n ih =>
    by_cases hw : w.frames = []
    · rw [run_of_frames_nil r hw, take_of_frames_nil r hw]
    · rw [run_of_frames_ne_nil r hw, take]
      exact ih h

end Walk

namespace Resolver

/-- Expands files as `expandAll` does, with `n` steps for each, if they are enough. -/
def expandWithin (r : Resolver) (n : Nat) (visited : List Path) :
    List SourceFile → Option Expansion
  | [] => some ⟨[], [], visited⟩
  | f :: files =>
    if f.path ∈ visited then r.expandWithin n visited files
    else
      let w := (Walk.start r visited f).take r n
      match w.frames with
      | [] => (r.expandWithin n w.visited files).map fun rest =>
          ⟨w.found ++ rest.files, w.errors ++ rest.errors, rest.visited⟩
      | _ :: _ => none

/-- Expansion in counted steps is expansion. -/
theorem expandAll_eq_expandWithin (r : Resolver) {n : Nat} {visited : List Path}
    {starts : List SourceFile} {x : Expansion} (h : r.expandWithin n visited starts = some x) :
    r.expandAll visited starts = x := by
  induction starts generalizing visited x with
  | nil => exact Option.some.inj h
  | cons f starts ih =>
    simp only [expandWithin] at h
    split at h
    · rename_i hv
      simp [expandAll, expand, hv, ih h]
    · rename_i hv
      split at h
      · rename_i hframes
        obtain ⟨rest, hrest, rfl⟩ := Option.map_eq_some_iff.1 h
        simp [expandAll, expand, hv, Walk.run_eq_take r hframes, ih hrest]
      · cases h

end Resolver

end ScopeConfig
