import ScopeConfig.Path.Basic

/-!
# The order of paths

Paths are compared component by component. The comparison is that of a total preorder, so a sort by
`Path.le` puts paths in order.

## Main statements

* `le_trans`, `le_total`: `Path.le` is transitive and total.
* `eq_of_compare`: paths that compare as equal are the same.
-/

namespace ScopeConfig

namespace Step

/-- Names are ordered as their texts are. -/
theorem compare_name (s t : String) : compare (name s) (name t) = compare s t := by
  show (compare s t).then .eq = compare s t
  cases compare s t <;> rfl

instance : Std.TransOrd Step where
  eq_swap {a b} := by
    cases a <;> cases b <;> try rfl
    rw [compare_name, compare_name]
    exact Std.OrientedCmp.eq_swap
  isLE_trans {a b c} hab hbc := by
    cases a <;> cases b <;> cases c <;> first
      | rfl
      | exact hab
      | exact hbc
      | cases hab
      | cases hbc
      | (rw [compare_name] at *
         exact Std.TransCmp.isLE_trans hab hbc)

instance : Std.LawfulEqOrd Step where
  eq_of_compare {a b} h := by
    cases a <;> cases b <;> first
      | rfl
      | cases h
      | (rw [compare_name] at h
         rw [Std.LawfulEqCmp.eq_of_compare h])

end Step

namespace Path

/-- The comparison of two rooted paths, or of two paths that are not. -/
theorem compare_of_rooted_eq {p q : Path} (h : p.rooted = q.rooted) :
    p.compare q = List.compareLex Ord.compare p.steps q.steps := by
  unfold Path.compare
  rw [← h]
  cases p.rooted <;> rfl

/-- A rooted path comes after the empty path and before every other path that is not rooted. -/
theorem compare_of_rooted {p q : Path} (hp : p.rooted = true) (hq : q.rooted = false) :
    p.compare q = if q.steps = [] then .gt else .lt := by
  simp [Path.compare, hp, hq]

/-- A path that is not rooted is before a rooted one if it has no steps, and behind it otherwise. -/
theorem compare_of_not_rooted {p q : Path} (hp : p.rooted = false) (hq : q.rooted = true) :
    p.compare q = if p.steps = [] then .lt else .gt := by
  simp [Path.compare, hp, hq]

/-- The empty list of steps is at most any list of steps. -/
theorem isLE_nil (steps : List Step) : (List.compareLex Ord.compare [] steps).isLE = true := by
  cases steps <;> rfl

/-- Only the empty list of steps is at most the empty list. -/
theorem eq_nil_of_isLE {steps : List Step}
    (h : (List.compareLex Ord.compare steps []).isLE = true) : steps = [] := by
  cases steps with
  | nil => rfl
  | cons s steps => cases h

/-- A rooted path is at most one that is not rooted exactly if the latter has a step. -/
theorem isLE_of_rooted {p q : Path} (hp : p.rooted = true) (hq : q.rooted = false) :
    (p.compare q).isLE = true ↔ q.steps ≠ [] := by
  rw [compare_of_rooted hp hq]
  split <;> simp_all

/-- A path that is not rooted is at most a rooted one exactly if it has no steps. -/
theorem isLE_of_not_rooted {p q : Path} (hp : p.rooted = false) (hq : q.rooted = true) :
    (p.compare q).isLE = true ↔ p.steps = [] := by
  rw [compare_of_not_rooted hp hq]
  split <;> simp_all

instance : Std.TransCmp Path.compare where
  eq_swap {p q} := by
    cases hp : p.rooted <;> cases hq : q.rooted
    · rw [compare_of_rooted_eq (by rw [hp, hq]), compare_of_rooted_eq (by rw [hp, hq])]
      exact Std.OrientedCmp.eq_swap
    · rw [compare_of_not_rooted hp hq, compare_of_rooted hq hp]
      split <;> rfl
    · rw [compare_of_rooted hp hq, compare_of_not_rooted hq hp]
      split <;> rfl
    · rw [compare_of_rooted_eq (by rw [hp, hq]), compare_of_rooted_eq (by rw [hp, hq])]
      exact Std.OrientedCmp.eq_swap
  isLE_trans {p q t} hpq hqt := by
    by_cases hsame : p.rooted = q.rooted
    · by_cases hsame' : q.rooted = t.rooted
      · rw [compare_of_rooted_eq hsame] at hpq
        rw [compare_of_rooted_eq hsame'] at hqt
        rw [compare_of_rooted_eq (hsame.trans hsame')]
        exact Std.TransCmp.isLE_trans hpq hqt
      · rw [compare_of_rooted_eq hsame] at hpq
        cases hq : q.rooted
        · -- `t` is rooted, so `q` is empty, and so is `p` before it
          have ht : t.rooted = true := by simpa [hq] using hsame'
          rw [isLE_of_not_rooted hq ht] at hqt
          rw [isLE_of_not_rooted (hsame.trans hq) ht]
          exact eq_nil_of_isLE (hqt ▸ hpq)
        · have ht : t.rooted = false := by simpa [hq] using hsame'
          rw [isLE_of_rooted hq ht] at hqt
          rwa [isLE_of_rooted (hsame.trans hq) ht]
    · cases hq : q.rooted
      · -- `p` is rooted, so `q` is not empty, and neither is `t` after it
        have hp : p.rooted = true := by simpa [hq] using hsame
        rw [isLE_of_rooted hp hq] at hpq
        cases ht : t.rooted
        · rw [compare_of_rooted_eq (hq.trans ht.symm)] at hqt
          rw [isLE_of_rooted hp ht]
          exact fun hnil => hpq (eq_nil_of_isLE (hnil ▸ hqt))
        · exact absurd ((isLE_of_not_rooted hq ht).1 hqt) hpq
      · have hp : p.rooted = false := by simpa [hq] using hsame
        rw [isLE_of_not_rooted hp hq] at hpq
        cases ht : t.rooted
        · rw [compare_of_rooted_eq (hp.trans ht.symm), hpq]
          exact isLE_nil t.steps
        · exact (isLE_of_not_rooted hp ht).2 hpq

/-- Only a path itself compares as equal to it. -/
theorem eq_of_compare {p q : Path} (h : p.compare q = .eq) : p = q := by
  by_cases hsame : p.rooted = q.rooted
  · rw [compare_of_rooted_eq hsame] at h
    have hsteps : p.steps = q.steps := Std.LawfulEqCmp.eq_of_compare h
    cases p
    cases q
    simp_all
  · cases hp : p.rooted
    · have hq : q.rooted = true := by simpa [hp] using hsame
      rw [compare_of_not_rooted hp hq] at h
      split at h <;> cases h
    · have hq : q.rooted = false := by simpa [hp] using hsame
      rw [compare_of_rooted hp hq] at h
      split at h <;> cases h

/-- No path stands before itself. -/
theorem compare_self_ne_lt (p : Path) : p.compare p ≠ .lt := by
  have hself : p.compare p = .eq := (inferInstance : Std.ReflCmp Path.compare).compare_self
  simp [hself]

/-- The strict order of paths is transitive. -/
theorem lt_trans {p q t : Path} (hpq : p.compare q = .lt) (hqt : q.compare t = .lt) :
    p.compare t = .lt :=
  (inferInstance : Std.TransCmp Path.compare).lt_trans hpq hqt

/-- The order of paths is transitive. -/
theorem le_trans {p q t : Path} (hpq : p.le q = true) (hqt : q.le t = true) : p.le t = true :=
  (inferInstance : Std.TransCmp Path.compare).isLE_trans hpq hqt

/-- Any two paths are comparable. -/
theorem le_total (p q : Path) : (p.le q || q.le p) = true := by
  unfold le
  have hswap : q.compare p = (p.compare q).swap := Std.OrientedCmp.eq_swap
  rw [hswap]
  cases p.compare q <;> rfl

end Path

end ScopeConfig
