import ScopeConfig.Path.Basic

/-!
# Normal paths

The steps that `Path.normalize` keeps are names with, in a path that is not rooted, `..` steps
before them. Such steps cancel nothing, so normalizing them again changes nothing.

## Main statements

* `isNormal_normalize`: normalizing gives a normal path.
* `normalize_of_isNormal`, `normalize_normalize`: a normal path is its own normal form.
-/

namespace ScopeConfig

/-- The steps taken to a normal path, given last first: names, and then `..` steps if the path is
not rooted. -/
def Step.Settled (rooted : Bool) : List Step → Prop
  | [] => True
  | .here :: _ => False
  | .name _ :: taken => Settled rooted taken
  | .up :: taken => rooted = false ∧ ∀ s ∈ taken, s = .up

namespace Step

/-- Any number of `..` steps is settled in a path that is not rooted. -/
theorem settled_of_forall_eq_up {rooted : Bool} {taken : List Step} (hrooted : rooted = false)
    (h : ∀ s ∈ taken, s = .up) : Settled rooted taken := by
  cases taken with
  | nil => trivial
  | cons s taken =>
    obtain rfl := h s List.mem_cons_self
    exact ⟨hrooted, fun s hs => h s (List.mem_cons_of_mem _ hs)⟩

/-- Settled steps stay settled without the last one. -/
theorem Settled.tail {rooted : Bool} {s : Step} {taken : List Step}
    (h : Settled rooted (s :: taken)) : Settled rooted taken := by
  rcases s with _ | _ | text
  · exact h.elim
  · exact settled_of_forall_eq_up h.1 h.2
  · exact h

end Step

namespace Path

open Step

/-- One more step from a normal path leads to a normal path. -/
theorem settled_pushStep {rooted : Bool} {taken : List Step} (h : Settled rooted taken)
    (s : Step) : Settled rooted (pushStep rooted taken s) := by
  rcases s with _ | _ | text
  · exact h
  · -- `..` cancels a name, stays after another `..`, and is dropped at the root
    rcases taken with _ | ⟨_ | _ | text, taken⟩
    · cases rooted
      · exact ⟨rfl, by simp⟩
      · exact h
    · exact h.elim
    · obtain ⟨hrooted, hup⟩ := h
      refine ⟨hrooted, fun s hs => ?_⟩
      rcases List.mem_cons.1 hs with rfl | hs
      · rfl
      · exact hup s hs
    · exact h
  · exact h

/-- Pushing steps keeps the steps settled. -/
theorem settled_foldl_pushStep {rooted : Bool} {taken : List Step} (h : Settled rooted taken)
    (steps : List Step) : Settled rooted (steps.foldl (pushStep rooted) taken) := by
  induction steps generalizing taken with
  | nil => exact h
  | cons s steps ih => exact ih (settled_pushStep h s)

/-- A step that leads from one normal path to another is taken as it is. -/
theorem pushStep_of_settled {rooted : Bool} {s : Step} {taken : List Step}
    (h : Settled rooted (s :: taken)) : pushStep rooted taken s = s :: taken := by
  rcases s with _ | _ | text
  · exact h.elim
  · obtain ⟨hrooted, hup⟩ := h
    cases taken with
    | nil => simp [pushStep, hrooted]
    | cons s taken =>
      obtain rfl := hup s List.mem_cons_self
      rfl
  · rfl

/-- Taking the steps of a normal path leads to that path. -/
theorem foldl_pushStep_of_settled {rooted : Bool} {taken : List Step} (h : Settled rooted taken) :
    taken.reverse.foldl (pushStep rooted) [] = taken := by
  induction taken with
  | nil => rfl
  | cons s taken ih =>
    rw [List.reverse_cons, List.foldl_append, ih h.tail]
    exact pushStep_of_settled h

/-- A path without `.` steps whose `..` steps come first, and that has none when it is rooted. -/
def IsNormal (p : Path) : Prop :=
  Settled p.rooted p.steps.reverse

/-- A normalized path is in normal form. -/
theorem isNormal_normalize (p : Path) : p.normalize.IsNormal := by
  simp only [IsNormal, normalize, List.reverse_reverse]
  have hroot : Settled p.rooted [] := trivial
  exact settled_foldl_pushStep hroot p.steps

/-- A path in normal form is normalized to itself. -/
theorem normalize_of_isNormal {p : Path} (h : p.IsNormal) : p.normalize = p := by
  have hsteps := foldl_pushStep_of_settled h
  rw [List.reverse_reverse] at hsteps
  simp [normalize, hsteps]

/-- Normalizing twice is normalizing once. -/
@[simp] theorem normalize_normalize (p : Path) : p.normalize.normalize = p.normalize :=
  normalize_of_isNormal p.isNormal_normalize

end Path

end ScopeConfig
