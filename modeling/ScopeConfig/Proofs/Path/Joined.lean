import ScopeConfig.Proofs.Path.Normal

/-!
# Normal forms of joined paths

Normalizing takes the steps of a path one by one, and a joined path has the steps of its two parts
one after the other. So the second part is taken from where the first one led, and only the normal
form of the first part matters.

## Main statements

* `isNormal_iff`: the steps of a normal path, spelled out.
* `normalize_join_normalize`: the base of a joined path may be normalized first.
-/

namespace ScopeConfig.Path

open Step

/-! ## The shape of normal paths -/

/-- The steps to a normal path are names and then, unless the path is rooted, any number of `..`
steps. -/
theorem settled_iff {rooted : Bool} {taken : List Step} :
    Settled rooted taken ↔ ∃ (climbs : Nat) (names : List String),
      taken = names.map name ++ List.replicate climbs up ∧ (rooted = true → climbs = 0) := by
  induction taken with
  | nil =>
    refine iff_of_true trivial ⟨0, [], rfl, fun _ => rfl⟩
  | cons s taken ih =>
    cases s with
    -- a `.` step is neither a name nor `..`
    | here =>
      refine iff_of_false (fun h => h) ?_
      rintro ⟨climbs, _ | ⟨s, names⟩, h, -⟩
      · cases climbs <;> simp [List.replicate_succ] at h
      · simp at h
    -- in front of a `..` step there are only such steps, and no names
    | up =>
      constructor
      · rintro ⟨hrooted, hup⟩
        refine ⟨taken.length + 1, [], ?_, by simp [hrooted]⟩
        rw [List.map_nil, List.nil_append, List.replicate_succ, ← List.eq_replicate_of_mem hup]
      · rintro ⟨climbs, _ | ⟨s, names⟩, h, hclimbs⟩
        · cases climbs with
          | zero => cases h
          | succ climbs =>
            rw [List.map_nil, List.nil_append, List.replicate_succ, List.cons.injEq] at h
            refine ⟨by simpa using hclimbs, fun s hs => ?_⟩
            rw [h.2] at hs
            exact List.eq_of_mem_replicate hs
        · simp at h
    | name text =>
      refine (ih : Settled rooted taken ↔ _).trans ⟨?_, ?_⟩
      · rintro ⟨climbs, names, rfl, hclimbs⟩
        exact ⟨climbs, text :: names, rfl, hclimbs⟩
      · rintro ⟨climbs, _ | ⟨s, names⟩, h, hclimbs⟩
        · cases climbs <;> simp [List.replicate_succ] at h
        · exact ⟨climbs, names, (List.cons.inj h).2, hclimbs⟩

/-- A normal path climbs first, unless it is rooted, and then goes along names. -/
theorem isNormal_iff {p : Path} :
    p.IsNormal ↔ ∃ (climbs : Nat) (names : List String),
      p.steps = List.replicate climbs up ++ names.map name ∧ (p.rooted = true → climbs = 0) := by
  refine settled_iff.trans ⟨?_, ?_⟩
  · rintro ⟨climbs, names, h, hclimbs⟩
    refine ⟨climbs, names.reverse, ?_, hclimbs⟩
    rw [← List.reverse_inj, h]
    simp
  · rintro ⟨climbs, names, h, hclimbs⟩
    exact ⟨climbs, names.reverse, by simp [h], hclimbs⟩

/-! ## Taking the steps of a joined path -/

/-- A step to the same directory leads nowhere. -/
theorem foldl_pushStep_filter (rooted : Bool) (taken steps : List Step) :
    (steps.filter (· ≠ .here)).foldl (pushStep rooted) taken =
      steps.foldl (pushStep rooted) taken := by
  induction steps generalizing taken with
  | nil => rfl
  | cons s steps ih =>
    by_cases hs : s = .here
    · rw [List.filter_cons_of_neg (by simpa using hs), ih, hs]
      rfl
    · rw [List.filter_cons_of_pos (by simpa using hs), List.foldl_cons, List.foldl_cons, ih]

/-- The steps of a normal form lead where the steps of the path lead. -/
theorem foldl_pushStep_normalize (p : Path) :
    p.normalize.steps.foldl (pushStep p.rooted) [] = p.steps.foldl (pushStep p.rooted) [] := by
  have hroot : Settled p.rooted [] := trivial
  exact foldl_pushStep_of_settled (settled_foldl_pushStep hroot p.steps)

/-- The steps of a path that is not rooted are taken from where the base led. -/
theorem normalize_join_of_not_rooted (p : Path) {q : Path} (hq : q.rooted = false) :
    (p.join q).normalize =
      ⟨p.rooted,
        (q.steps.foldl (pushStep p.rooted) (p.steps.foldl (pushStep p.rooted) [])).reverse⟩ := by
  by_cases hp : p = empty
  · subst hp
    cases q
    simp_all [join, normalize, empty]
  · simp [join, normalize, hp, hq, ← foldl_pushStep_filter p.rooted _ q.steps]

/-- The base of a joined path may be normalized first. -/
theorem normalize_join_normalize (p q : Path) :
    (p.normalize.join q).normalize = (p.join q).normalize := by
  cases hq : q.rooted with
  | true => simp [join, hq]
  | false =>
    rw [normalize_join_of_not_rooted _ hq, normalize_join_of_not_rooted _ hq, normalize_rooted,
      foldl_pushStep_normalize]

end ScopeConfig.Path
