import ScopeConfig.Proofs.Path.Spelling

/-!
# Where steps lead

Steps that are taken from a directory lead up some number of times and then down along names: a `..`
cancels the name before it, and climbs out of the directory when there is none. `Step.course` says
so from the last step to the first, without a directory to start from. Taking the steps one by one
from a rooted path, as `Path.normalize` does, leads to the same place, and climbing ends at the
root.

## Main statements

* `normalize_join`: a path seen from a normal directory, in normal form.
* `descend_climb_root_eq_iff`: when two directories are climbed out of to the same place.
-/

namespace ScopeConfig

/-- Where steps lead: how often they climb out of the directory they are taken from, and the names
that they then go down along. -/
def Step.course : List Step → Nat × List String
  | [] => (0, [])
  | .here :: steps => course steps
  | .up :: steps => ((course steps).1 + 1, (course steps).2)
  | .name s :: steps =>
    match course steps with
    | (0, names) => (0, s :: names)
    | (climbs + 1, names) => (climbs, names)

namespace Step

/-- A step to the same directory leads nowhere. -/
theorem course_filter (steps : List Step) : course (steps.filter (· ≠ .here)) = course steps := by
  induction steps with
  | nil => rfl
  | cons s steps ih =>
    cases s with
    | here =>
      rw [List.filter_cons_of_neg (by simp)]
      exact ih
    | up => rw [List.filter_cons_of_pos (by simp), course, ih, course]
    | name text => rw [List.filter_cons_of_pos (by simp), course, ih, course]

/-- The steps that the parts of a text stand for. -/
def ofText (cs : List Char) : List Step :=
  (Text.splitAt '/' cs).filterMap ofPart

/-- A slash in front stands for no step. -/
theorem ofText_slash (cs : List Char) : ofText ('/' :: cs) = ofText cs := by
  rw [ofText, Text.splitAt_sep, List.filterMap_cons_none (by rfl)]
  rfl

/-- The path that a text spells leads where its parts do. -/
theorem course_steps_ofText (s : String) :
    course (Path.ofText s).steps = course (ofText s.toList) := by
  unfold Path.ofText
  dsimp only
  split
  · exact course_filter _
  · split
    · rename_i rest hrest
      rw [ofText, hrest]
      exact course_filter rest
    · exact course_filter _

/-- The names that steps go down along are names among the steps. -/
theorem name_mem_of_mem_course {steps : List Step} {s : String} (h : s ∈ (course steps).2) :
    .name s ∈ steps := by
  induction steps with
  | nil => exact absurd h List.not_mem_nil
  | cons step steps ih =>
    cases step with
    | here | up => exact List.mem_cons_of_mem _ (ih h)
    | name t =>
      rcases hcourse : course steps with ⟨_ | climbs, names⟩
      · rw [course, hcourse] at h
        rcases List.mem_cons.1 h with rfl | h
        · exact List.mem_cons_self
        · exact List.mem_cons_of_mem _ (ih (by rwa [hcourse]))
      · rw [course, hcourse] at h
        exact List.mem_cons_of_mem _ (ih (by rwa [hcourse]))

end Step

namespace Path

open Step

/-- The path that is left after climbing so many times; there is nothing above the root. -/
def climb (p : Path) : Nat → Path
  | 0 => p
  | climbs + 1 => p.pop.climb climbs

/-- The path that names lead to below a directory. -/
def descend (p : Path) (names : List String) : Path :=
  { p with steps := p.steps ++ names.map .name }

section Climb

variable {p : Path} {climbs : Nat} {names : List String}

/-- Climbing keeps a path rooted, or not. -/
@[simp] theorem rooted_climb (p : Path) (climbs : Nat) : (p.climb climbs).rooted = p.rooted := by
  induction climbs generalizing p with
  | zero => rfl
  | succ climbs ih => exact ih p.pop

/-- Climbing drops steps from the end. -/
theorem reverse_steps_climb (p : Path) (climbs : Nat) :
    (p.climb climbs).steps.reverse = p.steps.reverse.drop climbs := by
  induction climbs generalizing p with
  | zero => rfl
  | succ climbs ih =>
    rw [climb, ih, pop, ← List.tail_reverse, ← List.drop_one, List.drop_drop, Nat.add_comm]

/-- Climbing takes steps off the end. -/
theorem steps_climb (p : Path) (climbs : Nat) :
    (p.climb climbs).steps = p.steps.take (p.steps.length - climbs) := by
  rw [← List.reverse_inj, reverse_steps_climb, List.drop_reverse]

/-- Climbing a rooted path as far as it has steps, or further, leads to the root. -/
theorem climb_of_length_le (hrooted : p.rooted = true) (h : p.steps.length ≤ climbs) :
    p.climb climbs = root := by
  have hsteps : (p.climb climbs).steps = [] := by
    rw [steps_climb, Nat.sub_eq_zero_of_le h, List.take_zero]
  have hclimb := rooted_climb p climbs
  cases hpath : p.climb climbs
  simp_all [root]

/-- Climbing leaves a path whose steps are read from their own spelling. -/
theorem IsSpelled.climb (h : p.IsSpelled) (climbs : Nat) : (p.climb climbs).IsSpelled := by
  intro s hs
  rw [steps_climb] at hs
  exact h s (List.mem_of_mem_take hs)

/-- Names lead to the same path only from the same directory. -/
theorem descend_inj {q : Path} : p.descend names = q.descend names ↔ p = q := by
  constructor
  · intro h
    obtain ⟨hrooted, hsteps⟩ := Path.mk.inj h
    cases p
    cases q
    simp_all
  · rintro rfl
    rfl

end Climb

/-- A normal rooted path goes along names only. -/
theorem exists_names_of_isNormal {p : Path} (hp : p.IsNormal) (hrooted : p.rooted = true) :
    ∃ names : List String, p.steps = names.map Step.name := by
  have hsettled : Settled true p.steps.reverse := hrooted ▸ hp
  suffices h : ∃ names : List String, p.steps.reverse = names.map Step.name by
    obtain ⟨names, hnames⟩ := h
    exact ⟨names.reverse, by rw [List.map_reverse, ← hnames, List.reverse_reverse]⟩
  generalize p.steps.reverse = taken at hsettled
  induction taken with
  | nil => exact ⟨[], rfl⟩
  | cons s taken ih =>
    cases s with
    | here => exact hsettled.elim
    | up => exact absurd hsettled.1 (by simp)
    | name text =>
      obtain ⟨names, rfl⟩ := ih hsettled
      exact ⟨text :: names, rfl⟩

/-- A rooted path in normal form has no `.` step. -/
theorem here_not_mem_steps {p : Path} (hp : p.IsNormal) (hrooted : p.rooted = true) :
    Step.here ∉ p.steps := by
  obtain ⟨names, hnames⟩ := exists_names_of_isNormal hp hrooted
  simp [hnames]

/-! ## Taking steps -/

/-- Steps taken one by one from a rooted path, the last step first, lead where their course says. -/
theorem foldl_pushStep_course {taken : List Step} (htaken : Settled true taken)
    (steps : List Step) :
    steps.foldl (pushStep true) taken =
      ((course steps).2.map Step.name).reverse ++ taken.drop (course steps).1 := by
  induction steps generalizing taken with
  | nil => rfl
  | cons s steps ih =>
    rw [List.foldl_cons, ih (settled_pushStep htaken s)]
    cases s with
    | here => rfl
    | up =>
      -- there is a name to cancel, or nothing at all above the root
      rcases taken with _ | ⟨_ | _ | text, taken⟩
      · simp [pushStep, course]
      · exact htaken.elim
      · exact absurd htaken.1 (by simp)
      · rfl
    | name text =>
      rcases hcourse : course steps with ⟨_ | climbs, names⟩
      · simp [pushStep, course, hcourse]
      · simp [pushStep, course, hcourse]

/-- The normal form of steps that are taken from a normal rooted path. -/
theorem normalize_append {p : Path} (hp : p.IsNormal) (hrooted : p.rooted = true)
    (steps : List Step) :
    ({ p with steps := p.steps ++ steps } : Path).normalize =
      (p.climb (course steps).1).descend (course steps).2 := by
  have hsettled : Settled true p.steps.reverse := hrooted ▸ hp
  have htaken : p.steps.foldl (pushStep true) [] = p.steps.reverse := by
    simpa using foldl_pushStep_of_settled hsettled
  have hsteps := foldl_pushStep_course hsettled steps
  have hclimb := congrArg List.reverse (reverse_steps_climb p (course steps).1)
  rw [List.reverse_reverse] at hclimb
  simp [normalize, descend, hrooted, htaken, hsteps, hclimb]

/-- The normal form of a path seen from a normal rooted one. A rooted path is taken from the root
and every other one from the directory. -/
theorem normalize_join {p : Path} (hp : p.IsNormal) (hrooted : p.rooted = true) (q : Path) :
    (p.join q).normalize =
      ((if q.rooted then root else p).climb (course q.steps).1).descend (course q.steps).2 := by
  have hne : p ≠ empty := by
    rintro rfl
    cases hrooted
  by_cases hq : q.rooted = true
  · have hroot : root.IsNormal := trivial
    have hjoin : p.join q = { root with steps := root.steps ++ q.steps } := by
      cases q
      simp_all [join, root]
    rw [hjoin, normalize_append hroot rfl, if_pos hq]
  · have hjoin : p.join q = { p with steps := p.steps ++ q.steps.filter (· ≠ .here) } := by
      simp [join, hq, hne]
    rw [hjoin, normalize_append hp hrooted, course_filter, if_neg hq]

/-- Two rooted paths lead to the same place when one of them is climbed to the root. -/
theorem descend_climb_root_eq_iff {p : Path} (hrooted : p.rooted = true) (climbs : Nat)
    (names : List String) :
    (root.climb climbs).descend names = (p.climb climbs).descend names ↔
      p.steps.length ≤ climbs := by
  rw [descend_inj, climb_of_length_le rfl (Nat.zero_le climbs)]
  constructor
  · intro h
    have hsteps := congrArg (fun q => q.steps.length) h
    rw [steps_climb, List.length_take] at hsteps
    simp only [root, List.length_nil] at hsteps
    omega
  · exact fun h => (climb_of_length_le hrooted h).symm

end Path

end ScopeConfig
